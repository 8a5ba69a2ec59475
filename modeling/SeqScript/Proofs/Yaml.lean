import SeqScript.Proofs.Bindings
import SeqScript.Yaml.Document

/-! What the reader of settings files makes of a text. Its pieces are the whole of the text, each at its
own offset, and in the data that it reads no mapping has two entries with one name. -/
namespace SeqScript

namespace Yaml

def written (ts : List Token) : Text := ts.flatMap Prod.snd

theorem spacesWritten (t : Text) : written (spaces t) = t := by
  unfold spaces
  split
  · rename_i none
    exact none.symm
  · simp [written]

theorem splitSingleAppend {t w r : Text} (split : splitSingle t = some (w, r)) : w ++ r = t := by
  fun_induction splitSingle t generalizing w r with
  | case1 => cases split
  | case2 => cases split; rfl
  | case3 => cases split
  | case4 u v rest _ ih =>
    obtain ⟨⟨w, r⟩, inside, same⟩ := Option.map_eq_some_iff.mp split
    cases same
    exact congrArg (u :: ·) (ih inside)
  | case5 => cases split; rfl
  | case6 u v rest _ _ ih =>
    obtain ⟨⟨w, r⟩, inside, same⟩ := Option.map_eq_some_iff.mp split
    cases same
    exact congrArg (u :: v :: ·) (ih inside)

theorem splitDoubleAppend {t w r : Text} (split : splitDouble t = some (w, r)) : w ++ r = t := by
  fun_induction splitDouble t generalizing w r with
  | case1 => cases split
  | case2 => cases split; rfl
  | case3 => cases split
  | case4 => cases split; rfl
  | case5 v rest _ ih =>
    obtain ⟨⟨w, r⟩, inside, same⟩ := Option.map_eq_some_iff.mp split
    cases same
    exact congrArg (CodeUnit.backslash :: v :: ·) (ih inside)
  | case6 u v rest _ _ ih =>
    obtain ⟨⟨w, r⟩, inside, same⟩ := Option.map_eq_some_iff.mp split
    cases same
    exact congrArg (u :: ·) (ih inside)

theorem splitQuotedAppend (style : Style) (floor : Nat) (t : Text) :
    (splitQuoted style floor t).1 ++ (splitQuoted style floor t).2 = t := by
  cases t with
  | nil => rfl
  | cons u rest =>
    unfold splitQuoted
    dsimp only
    split
    · rw [List.append_nil]
    · rename_i inside behind found
      have whole : inside ++ behind = rest := by
        split at found
        · exact splitSingleAppend found
        · exact splitDoubleAppend found
      exact congrArg (u :: ·) ((cutUnindentedAppend floor inside behind).trans whole)

namespace Cursor

/-- The tokens of a step and the text behind them are the text in front of the cursor. -/
def Splits (c : Cursor) (found : List Token × Cursor) : Prop :=
  written found.1 ++ found.2.rest = c.rest

variable {c d : Cursor} {found : List Token × Cursor}

theorem takeSplits (kind : Kind) (count : Nat) (place : Place) : c.Splits (c.take kind count place) := by
  simp [Splits, take, written]

theorem splitSplits (kind : Kind) {split : Text × Text} (whole : split.1 ++ split.2 = c.rest)
    (place : Place) : c.Splits (c.takeSplit kind split place) := by
  simp [Splits, takeSplit, written, whole]

theorem Splits.elsewhere (splits : c.Splits found) (same : c.rest = d.rest) : d.Splits found :=
  splits.trans same

theorem inlineSplits (step : c.inlineStep = some found) : c.Splits found := by
  unfold inlineStep at step
  split at step
  · cases step
    simp [Splits, written]
  · rename_i u rest _
    split at step
    · cases step
      exact takeSplits ..
    split at step
    · cases step
      exact takeSplits ..
    split at step
    · cases step
      exact splitSplits _ (splitLineAppend _) _
    split at step
    · split at step
      · cases step
      · cases step
        exact (takeSplits ..).elsewhere rfl
    split at step
    · cases step
    split at step
    · cases step
      exact splitSplits _ (splitQuotedAppend ..) _
    · cases step
      exact (takeSplits ..).elsewhere rfl
    · cases step
    · cases step
      exact splitSplits _ (splitPlainAppend ..) _

theorem leadingSplits (step : c.leadingStep = some found) : c.Splits found := by
  unfold leadingStep at step
  split at step
  · cases step
    simp [Splits, written]
  · rename_i u rest here
    split at step
    · cases step
      have blanks := spacesWritten (rest.takeWhile isBlank)
      simp only [Splits, written, List.flatMap_cons] at blanks ⊢
      rw [blanks, here, List.append_assoc, List.takeWhile_append_dropWhile]
      rfl
    · exact inlineSplits step

theorem marginSplits (step : c.marginStep = some found) : c.Splits found := by
  unfold marginStep at step
  dsimp only at step
  split at step
  · cases step
  · obtain ⟨⟨tokens, next⟩, inner, rfl⟩ := Option.map_eq_some_iff.mp step
    have inside := leadingSplits inner
    have blanks := spacesWritten (c.rest.takeWhile isSpace)
    simp only [Splits, written, List.flatMap_append] at inside blanks ⊢
    rw [blanks, List.append_assoc, inside, List.takeWhile_append_dropWhile]

theorem flowSplits {depth : Nat} {u : CodeUnit} {rest : Text}
    (step : c.flowStep depth u rest = some found) : c.Splits found := by
  unfold flowStep at step
  dsimp only at step
  split at step
  · cases step
    exact splitSplits _ (splitLineAppend _) _
  split at step
  · cases step
  split at step
  · cases step
    exact (takeSplits ..).elsewhere rfl
  split at step
  · cases step
  split at step
  · cases step
    exact (splitSplits _ (splitQuotedAppend ..) _).elsewhere rfl
  · cases step
    exact (takeSplits ..).elsewhere rfl
  · cases step
    exact (takeSplits ..).elsewhere rfl
  · cases step
    exact (takeSplits ..).elsewhere rfl
  · cases step
    exact (splitSplits _ (splitPlainAppend ..) _).elsewhere rfl

theorem bracketSplits {depth : Nat} {fresh : Bool} (step : c.bracketStep depth fresh = some found) :
    c.Splits found := by
  unfold bracketStep at step
  split at step
  · cases step
    simp [Splits, written]
  · split at step
    · cases step
      exact takeSplits ..
    split at step
    · cases step
      have first : c.Splits (c.takeBreak (.flow depth true)) := takeSplits ..
      rw [Splits, written, List.flatMap_append, ← written, ← written, spacesWritten, List.append_assoc,
        List.takeWhile_append_dropWhile]
      exact first
    split at step
    · cases step
    · exact flowSplits step

theorem stepSplits (step : c.step = some found) : c.Splits found := by
  unfold Cursor.step at step
  split at step
  · exact marginSplits step
  · exact leadingSplits step
  · exact inlineSplits step
  · exact bracketSplits step

theorem tokensWritten {ts : List Token} (tokens : c.tokens = some ts) : written ts = c.rest := by
  fun_induction Cursor.tokens c generalizing ts with
  | case1 c none =>
    cases tokens
    exact none.symm
  | case2 => cases tokens
  | case3 c _ found next step _ ih =>
    obtain ⟨others, behind, rfl⟩ := Option.map_eq_some_iff.mp tokens
    have splits : written found ++ next.rest = c.rest := stepSplits step
    rw [← splits, ← ih behind, written, List.flatMap_append]
    rfl
  | case4 => cases tokens

end Cursor

namespace Piece

def written (ps : List Piece) : Text := ps.flatMap source

theorem placedWritten (leading : Bool) (indent offset : Nat) (ts : List Token) :
    written (placed leading indent offset ts) = Yaml.written ts := by
  induction ts generalizing leading indent offset with
  | nil => rfl
  | cons t rest ih =>
    obtain ⟨kind, source⟩ := t
    cases kind <;> exact congrArg (source ++ ·) (ih ..)

theorem placedOffsets {leading : Bool} {indent offset : Nat} {ts : List Token} {front : List Piece}
    {p : Piece} {behind : List Piece}
    (split : placed leading indent offset ts = front ++ p :: behind) :
    p.offset = offset + (written front).length := by
  induction ts generalizing leading indent offset front with
  | nil => simp [placed] at split
  | cons t rest ih =>
    obtain ⟨kind, source⟩ := t
    obtain ⟨first, others, leading', indent', same, first'⟩ : ∃ first others leading' indent',
        placed leading indent offset ((kind, source) :: rest) = first :: others ∧
          first = ⟨kind, source, indent, offset⟩ ∧
          others = placed leading' indent' (offset + source.length) rest := by
      cases kind <;> exact ⟨_, _, _, _, rfl, rfl, rfl⟩
    obtain ⟨rfl, rfl⟩ := first'
    rw [same] at split
    cases front with
    | nil =>
      cases split
      rfl
    | cons q front =>
      obtain ⟨rfl, later⟩ := List.cons.inj split
      rw [ih later, written, written, List.flatMap_cons, List.length_append, Nat.add_assoc]

/- The pieces of a text, one behind the other, are the text, and each of them knows where it stands. A
byte order mark at the start is none of them. -/
theorem ofTextTiles {t : Text} {ps : List Piece} (read : ofText? t = some ps) :
    (∃ mark, (mark = [] ∨ mark = [byteOrderMark]) ∧ t = mark ++ written ps) ∧
      ∀ front p behind, ps = front ++ p :: behind → p.offset = (written front).length := by
  unfold ofText? at read
  split at read
  · rename_i marked
    obtain ⟨ts, tokens, rfl⟩ := Option.map_eq_some_iff.mp read
    have whole : Yaml.written ts = t.drop 1 := Cursor.tokensWritten tokens
    obtain ⟨rest, rfl⟩ := List.head?_eq_some_iff.mp marked
    refine ⟨⟨[byteOrderMark], .inr rfl, ?_⟩, fun front p behind split => ?_⟩
    · rw [placedWritten, whole]
      rfl
    · rw [placedOffsets split, Nat.zero_add]
  · obtain ⟨ts, tokens, rfl⟩ := Option.map_eq_some_iff.mp read
    have whole : Yaml.written ts = t := Cursor.tokensWritten tokens
    refine ⟨⟨[], .inl rfl, ?_⟩, fun front p behind split => ?_⟩
    · rw [placedWritten, whole]
      rfl
    · rw [placedOffsets split, Nat.zero_add]

end Piece

end Yaml

/-- No mapping in the data, however deep, has two entries with one name. -/
inductive Data.Distinct : Data → Prop where
  | scalar (s : Scalar) : Distinct (.scalar s)
  | sequence {items : List Data} (each : ∀ d ∈ items, Distinct d) : Distinct (.sequence items)
  | mapping {entries : Bindings Data} (once : entries.names.Nodup)
      (each : ∀ p ∈ entries, Distinct p.2) : Distinct (.mapping entries)

namespace Yaml

theorem addedInFront {α : Type} {a : α} {m : Option (List α)} {items : List α}
    (made : (do return a :: (← m)) = some items) : ∃ others, m = some others ∧ items = a :: others := by
  obtain ⟨others, behind, same⟩ := Option.bind_eq_some_iff.mp made
  exact ⟨others, behind, (Option.some.inj same).symm⟩

theorem mappingDistinct {pairs : List (Scalar × Data)} {d : Data} (made : mappingOf? pairs = some d)
    (each : ∀ p ∈ pairs, p.2.Distinct) : d.Distinct := by
  unfold mappingOf? at made
  split at made
  · cases made
    refine .mapping (Bindings.distinctOfPairs _) fun p member => ?_
    obtain ⟨q, given, rfl⟩ := List.mem_map.mp (Bindings.memOfPairs member)
    exact each q given
  · cases made

theorem aloneDistinct (name : Text) {d : Data} (distinct : d.Distinct) :
    (Data.mapping [(name, d)]).Distinct :=
  .mapping (by simp [Bindings.names]) (List.forall_mem_singleton.mpr distinct)

theorem nothingDistinct : Data.none.Distinct := .scalar .none

mutual

theorem nodeDistinct {n : Node} {d : Data} (read : n.data? = some d) : d.Distinct := by
  match n with
  | .scalar s p behind =>
    rw [Node.data?] at read
    obtain ⟨v, _, rfl⟩ := Option.map_eq_some_iff.mp read
    exact .scalar v
  | .mapping indent entries =>
    rw [Node.data?] at read
    obtain ⟨pairs, inside, made⟩ := Option.bind_eq_some_iff.mp read
    exact mappingDistinct made (mappingPairsDistinct inside)
  | .sequence indent entries =>
    rw [Node.data?] at read
    obtain ⟨items, inside, made⟩ := Option.bind_eq_some_iff.mp read
    cases made
    exact .sequence (sequenceItemsDistinct inside)
  | .bracket .square p entries behind =>
    rw [Node.data?] at read
    split at read
    · cases read
    obtain ⟨items, inside, made⟩ := Option.bind_eq_some_iff.mp read
    cases made
    exact .sequence (squareItemsDistinct inside)
  | .bracket .curly p entries behind =>
    rw [Node.data?] at read
    split at read
    · cases read
    obtain ⟨pairs, inside, made⟩ := Option.bind_eq_some_iff.mp read
    exact mappingDistinct made (curlyPairsDistinct inside)

theorem mappingPairsDistinct {indent : Nat} {entries : List Entry} {pairs : List (Scalar × Data)}
    (read : mappingPairs? indent entries = some pairs) : ∀ p ∈ pairs, p.2.Distinct := by
  match entries with
  | [] =>
    cases read
    exact List.forall_mem_nil _
  | .bare start :: rest =>
    rw [mappingPairs?] at read
    obtain ⟨_, _, later⟩ := Option.bind_eq_some_iff.mp read
    exact mappingPairsDistinct later
  | .keyed start key between :: rest =>
    rw [mappingPairs?] at read
    obtain ⟨k, _, later⟩ := Option.bind_eq_some_iff.mp read
    obtain ⟨others, behind, rfl⟩ := addedInFront later
    exact List.forall_mem_cons.mpr ⟨nothingDistinct, mappingPairsDistinct behind⟩
  | .pair start key between value :: rest =>
    rw [mappingPairs?] at read
    obtain ⟨k, _, later⟩ := Option.bind_eq_some_iff.mp read
    obtain ⟨d, inside, later⟩ := Option.bind_eq_some_iff.mp later
    obtain ⟨others, behind, rfl⟩ := addedInFront later
    exact List.forall_mem_cons.mpr ⟨nodeDistinct inside, mappingPairsDistinct behind⟩
  | .item start value :: rest => cases read

theorem sequenceItemsDistinct {indent : Nat} {entries : List Entry} {items : List Data}
    (read : sequenceItems? indent entries = some items) : ∀ d ∈ items, d.Distinct := by
  match entries with
  | [] =>
    cases read
    exact List.forall_mem_nil _
  | .bare start :: rest =>
    rw [sequenceItems?] at read
    obtain ⟨g, _, later⟩ := Option.bind_eq_some_iff.mp read
    obtain ⟨others, behind, made⟩ := Option.bind_eq_some_iff.mp later
    cases made
    split
    · exact List.forall_mem_cons.mpr ⟨nothingDistinct, sequenceItemsDistinct behind⟩
    · exact sequenceItemsDistinct behind
  | .item start value :: rest =>
    rw [sequenceItems?] at read
    obtain ⟨g, _, later⟩ := Option.bind_eq_some_iff.mp read
    split at later
    · cases later
    obtain ⟨d, inside, later⟩ := Option.bind_eq_some_iff.mp later
    obtain ⟨others, behind, rfl⟩ := addedInFront later
    exact List.forall_mem_cons.mpr ⟨nodeDistinct inside, sequenceItemsDistinct behind⟩
  | .keyed _ _ _ :: _ => cases read
  | .pair _ _ _ _ :: _ => cases read

theorem squareItemsDistinct {isFirst : Bool} {entries : List Entry} {items : List Data}
    (read : squareItems? isFirst entries = some items) : ∀ d ∈ items, d.Distinct := by
  match entries with
  | [] =>
    cases read
    exact List.forall_mem_nil _
  | .bare start :: rest =>
    rw [squareItems?] at read
    obtain ⟨g, _, later⟩ := Option.bind_eq_some_iff.mp read
    split at later
    · cases later
    exact squareItemsDistinct later
  | .item start value :: rest =>
    rw [squareItems?] at read
    obtain ⟨g, _, later⟩ := Option.bind_eq_some_iff.mp read
    split at later
    · cases later
    obtain ⟨d, inside, later⟩ := Option.bind_eq_some_iff.mp later
    obtain ⟨others, behind, rfl⟩ := addedInFront later
    exact List.forall_mem_cons.mpr ⟨nodeDistinct inside, squareItemsDistinct behind⟩
  | .keyed start key between :: rest =>
    rw [squareItems?] at read
    obtain ⟨k, _, later⟩ := Option.bind_eq_some_iff.mp read
    obtain ⟨others, behind, rfl⟩ := addedInFront later
    exact List.forall_mem_cons.mpr ⟨aloneDistinct _ nothingDistinct, squareItemsDistinct behind⟩
  | .pair start key between value :: rest =>
    rw [squareItems?] at read
    obtain ⟨k, _, later⟩ := Option.bind_eq_some_iff.mp read
    obtain ⟨d, inside, later⟩ := Option.bind_eq_some_iff.mp later
    obtain ⟨others, behind, rfl⟩ := addedInFront later
    exact List.forall_mem_cons.mpr ⟨aloneDistinct _ (nodeDistinct inside), squareItemsDistinct behind⟩

theorem curlyPairsDistinct {isFirst : Bool} {entries : List Entry} {pairs : List (Scalar × Data)}
    (read : curlyPairs? isFirst entries = some pairs) : ∀ p ∈ pairs, p.2.Distinct := by
  match entries with
  | [] =>
    cases read
    exact List.forall_mem_nil _
  | .bare start :: rest =>
    rw [curlyPairs?] at read
    obtain ⟨g, _, later⟩ := Option.bind_eq_some_iff.mp read
    split at later
    · cases later
    exact curlyPairsDistinct later
  | .keyed start key between :: rest =>
    rw [curlyPairs?] at read
    obtain ⟨k, _, later⟩ := Option.bind_eq_some_iff.mp read
    obtain ⟨others, behind, rfl⟩ := addedInFront later
    exact List.forall_mem_cons.mpr ⟨nothingDistinct, curlyPairsDistinct behind⟩
  | .pair start key between value :: rest =>
    rw [curlyPairs?] at read
    obtain ⟨k, _, later⟩ := Option.bind_eq_some_iff.mp read
    obtain ⟨d, inside, later⟩ := Option.bind_eq_some_iff.mp later
    obtain ⟨others, behind, rfl⟩ := addedInFront later
    exact List.forall_mem_cons.mpr ⟨nodeDistinct inside, curlyPairsDistinct behind⟩
  | .item _ _ :: _ => cases read

end

/- Whatever a file of settings is read as, each of its mappings binds a name once. -/
theorem documentDistinct {t : Text} {d : Data} (read : document t = some d) : d.Distinct := by
  obtain ⟨pieces, _, read⟩ := Option.bind_eq_some_iff.mp read
  split at read
  · cases read
    exact nothingDistinct
  · obtain ⟨tree, _, read⟩ := Option.bind_eq_some_iff.mp read
    obtain ⟨_, _, root⟩ := Option.bind_eq_some_iff.mp read
    exact nodeDistinct root

end Yaml

end SeqScript
