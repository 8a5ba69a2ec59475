import SeqScript.Fault.Template

/-! A template in pieces. Words without an open brace are copied, a placeholder leaves what its name
is bound to, and neither looks at what stands around it. The templates in which every placeholder is
closed are those that consist of such pieces; all others are left as they are. -/
namespace SeqScript.Template

inductive Piece where
  | words (t : Text)
  | placeholder (name : Text)
  deriving DecidableEq, Repr

namespace Piece

def written : Piece → Text
  | .words t => t
  | .placeholder name => openBrace :: name ++ [closeBrace]

def filled (values : Bindings Scalar) : Piece → Text
  | .words t => t
  | .placeholder name => shown values name

def Closed : Piece → Prop
  | .words t => openBrace ∉ t
  | .placeholder name => closeBrace ∉ name

instance (p : Piece) : Decidable p.Closed := by
  cases p <;> exact inferInstanceAs (Decidable (_ ∉ _))

end Piece

inductive Inserts (values : Bindings Scalar) (name : Text) : Text → Prop where
  | value {v : Scalar} (there : values.get? name = some v) : Inserts values name v.plain
  | inherited {t : Text} (missing : values.get? name = none)
      (there : Template.inherited.get? name = some t) : Inserts values name t
  | nothing (missing : values.get? name = none) (absent : Template.inherited.get? name = none) :
      Inserts values name []

variable {values : Bindings Scalar}

theorem inserts (values : Bindings Scalar) (name : Text) :
    Inserts values name (shown values name) := by
  unfold shown
  split
  · rename_i there
    exact .value there
  · rename_i missing
    cases has : inherited.get? name with
    | some t => exact .inherited missing has
    | none => exact .nothing missing has

theorem fillWords {words : Text} (plain : openBrace ∉ words) (rest : Text) :
    fill values none (words ++ rest) = (fill values none rest).map (words ++ ·) := by
  induction words with
  | nil => simp
  | cons u words ih =>
    obtain ⟨other, plain⟩ := not_or.mp (mt List.mem_cons.mpr plain)
    simp [fill, Ne.symm other, ih plain, Function.comp_def]

theorem fillName {name : Text} (plain : closeBrace ∉ name) (front rest : Text) :
    fill values (some front) (name ++ closeBrace :: rest) =
      (fill values none rest).map (shown values (front ++ name) ++ ·) := by
  induction name generalizing front with
  | nil => simp [fill]
  | cons u name ih =>
    obtain ⟨other, plain⟩ := not_or.mp (mt List.mem_cons.mpr plain)
    simp [fill, Ne.symm other, ih plain]

theorem fillPiece {p : Piece} (closed : p.Closed) (rest : Text) :
    fill values none (p.written ++ rest) = (fill values none rest).map (p.filled values ++ ·) := by
  cases p with
  | words t => exact fillWords closed rest
  | placeholder name =>
    have opened : fill values none ((Piece.placeholder name).written ++ rest) =
        fill values (some []) (name ++ closeBrace :: rest) := by simp [Piece.written, fill]
    rw [opened, fillName closed, List.nil_append]
    rfl

theorem fillPieces {pieces : List Piece} (closed : ∀ p ∈ pieces, p.Closed) (rest : Text) :
    fill values none (pieces.flatMap Piece.written ++ rest) =
      (fill values none rest).map (pieces.flatMap (Piece.filled values) ++ ·) := by
  induction pieces with
  | nil => simp
  | cons p pieces ih =>
    obtain ⟨here, others⟩ := List.forall_mem_cons.mp closed
    rw [List.flatMap_cons, List.append_assoc, fillPiece here, ih others]
    simp [Function.comp_def]

theorem fillAll {pieces : List Piece} (closed : ∀ p ∈ pieces, p.Closed) :
    fill values none (pieces.flatMap Piece.written) =
      some (pieces.flatMap (Piece.filled values)) := by
  rw [← List.append_nil (pieces.flatMap Piece.written), fillPieces closed, fill, Option.map_some,
    List.append_nil]

theorem renderPieces {pieces : List Piece} (closed : ∀ p ∈ pieces, p.Closed) :
    render (pieces.flatMap Piece.written) values = pieces.flatMap (Piece.filled values) := by
  rw [render, fillAll closed]
  rfl

theorem fillOpen {name : Text} (never : closeBrace ∉ name) (front : Text) :
    fill values (some front) name = none := by
  induction name generalizing front with
  | nil => rfl
  | cons u name ih =>
    obtain ⟨other, never⟩ := not_or.mp (mt List.mem_cons.mpr never)
    simp [fill, Ne.symm other, ih never]

/-- A placeholder begins in the template, behind pieces that are closed, and this text stands behind
its brace. -/
def Opens (t rest : Text) : Prop :=
  ∃ pieces : List Piece, (∀ p ∈ pieces, p.Closed) ∧
    t = pieces.flatMap Piece.written ++ openBrace :: rest

def Closes (t : Text) : Prop := ∀ rest, Opens t rest → closeBrace ∈ rest

theorem fillOpened {t rest : Text} (opens : Opens t rest) (never : closeBrace ∉ rest) :
    fill values none t = none := by
  obtain ⟨pieces, closed, rfl⟩ := opens
  have stuck : fill values none (openBrace :: rest) = none := by
    rw [fill, if_pos rfl, fillOpen never]
  rw [fillPieces closed, stuck]
  rfl

theorem Closes.behind {p : Piece} (closed : p.Closed) {t : Text} (closes : Closes (p.written ++ t)) :
    Closes t := by
  rintro rest ⟨pieces, others, rfl⟩
  refine closes rest ⟨p :: pieces, List.forall_mem_cons.mpr ⟨closed, others⟩, ?_⟩
  rw [List.flatMap_cons, List.append_assoc]

theorem Closes.first {u : CodeUnit} {t : Text} (closes : Closes (u :: t)) :
    ∃ (p : Piece) (rest : Text), p.Closed ∧ u :: t = p.written ++ rest ∧ rest.length < (u :: t).length := by
  by_cases brace : u = openBrace
  · subst brace
    have later : closeBrace ∈ t := closes t ⟨[], List.forall_mem_nil _, rfl⟩
    obtain ⟨name, rest, rfl, plain⟩ := List.eq_append_cons_of_mem later
    refine ⟨.placeholder name, rest, plain, by simp [Piece.written], ?_⟩
    simp only [List.length_cons, List.length_append]
    omega
  · have plain : openBrace ∉ [u] := fun member => brace (List.mem_singleton.mp member).symm
    exact ⟨.words [u], t, plain, rfl, Nat.lt_succ_self _⟩

theorem Closes.pieces {t : Text} (closes : Closes t) :
    ∃ pieces : List Piece, (∀ p ∈ pieces, p.Closed) ∧ t = pieces.flatMap Piece.written := by
  induction size : t.length using Nat.strongRecOn generalizing t with
  | ind n ih =>
    cases t with
    | nil => exact ⟨[], List.forall_mem_nil _, rfl⟩
    | cons u t =>
      obtain ⟨p, rest, closed, same, shorter⟩ := closes.first
      rw [same] at closes
      obtain ⟨pieces, others, rfl⟩ := ih rest.length (size ▸ shorter) (closes.behind closed) rfl
      exact ⟨p :: pieces, List.forall_mem_cons.mpr ⟨closed, others⟩, by rw [same, List.flatMap_cons]⟩

theorem closesIff {t : Text} : Closes t ↔
    ∃ pieces : List Piece, (∀ p ∈ pieces, p.Closed) ∧ t = pieces.flatMap Piece.written := by
  constructor
  · exact Closes.pieces
  · rintro ⟨pieces, closed, rfl⟩ rest opens
    -- What is left open leaves nothing filled, and closed pieces are all filled.
    refine Decidable.byContradiction fun never => ?_
    have filled : fill [] none _ = some _ := fillAll closed
    rw [fillOpened opens never] at filled
    cases filled

/- Templates are filled piece by piece: those that close are the texts of closed pieces, each piece
leaves its own text whatever its neighbours and the values hold, and so templates can be filled
apart. A template that leaves a placeholder open is not filled at all. A name without a value leaves
nothing unless it is one of those that have inherited a text. -/
theorem rendersByPieces (values : Bindings Scalar) :
    (∀ t, Closes t ↔
      ∃ pieces : List Piece, (∀ p ∈ pieces, p.Closed) ∧ t = pieces.flatMap Piece.written) ∧
    (∀ pieces : List Piece, (∀ p ∈ pieces, p.Closed) →
      render (pieces.flatMap Piece.written) values = pieces.flatMap (Piece.filled values)) ∧
    (∀ name, Inserts values name ((Piece.placeholder name).filled values)) ∧
    (∀ s t, Closes s → Closes t → render (s ++ t) values = render s values ++ render t values) ∧
    ∀ t rest, Opens t rest → closeBrace ∉ rest → render t values = t := by
  refine ⟨fun _ => closesIff, fun _ => renderPieces, inserts values, fun s t first second => ?_,
    fun t rest opens never => ?_⟩
  · obtain ⟨ps, closed, rfl⟩ := closesIff.mp first
    obtain ⟨qs, closed', rfl⟩ := closesIff.mp second
    have both : ∀ p ∈ ps ++ qs, p.Closed := List.forall_mem_append.mpr ⟨closed, closed'⟩
    rw [← List.flatMap_append, renderPieces both, renderPieces closed, renderPieces closed',
      List.flatMap_append]
  · rw [render, fillOpened opens never]
    rfl

theorem bracesLeftAlone :
    let values : Bindings Scalar :=
      [(text "a", .string (text "\x7bb\x7d")), (text "\x7bb", .bool true)]
    Closes (text "\x7ba\x7d") ∧ Closes (text "\x7b\x7bb\x7d\x7d") ∧
      render (text "\x7ba\x7d\x7b\x7bb\x7d\x7d") values = text "\x7bb\x7dtrue\x7d" ∧
      Opens (text "\x7ba\x7d\x7bb") (text "b") ∧
      render (text "\x7ba\x7d\x7bb") values = text "\x7ba\x7d\x7bb" := by
  intro values
  have one : ∀ p ∈ [Piece.placeholder (text "a")], p.Closed := by decide
  have two : ∀ p ∈ [Piece.placeholder (text "\x7bb"), .words (text "\x7d")], p.Closed := by decide
  obtain ⟨closes, _, _, apart, unfilled⟩ := rendersByPieces values
  have first : Closes (text "\x7ba\x7d") := (closes _).mpr ⟨_, one, rfl⟩
  have second : Closes (text "\x7b\x7bb\x7d\x7d") := (closes _).mpr ⟨_, two, rfl⟩
  have opened : Opens (text "\x7ba\x7d\x7bb") (text "b") := ⟨_, one, rfl⟩
  exact ⟨first, second, apart _ _ first second, opened, unfilled _ _ opened (by decide)⟩

theorem missingNameShown :
    let values : Bindings Scalar := [(text "name", .string (text "x"))]
    values.get? (text "constructor") = none ∧
      render (text "<\x7bconstructor\x7d>") values =
        text "<function Object() \x7b [native code] \x7d>" := by
  decide +kernel

end SeqScript.Template
