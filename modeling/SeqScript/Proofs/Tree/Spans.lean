import SeqScript.Proofs.Tree.Phrases
import SeqScript.Proofs.Tree.Reread

/-! The spans of parsed trees. A node covers some of the source, its children stand inside it one
behind the other, and what a sequence covers reads by itself as that sequence. All of it comes from
the tokens that a node derives from: they stand in the source one behind the other, and a node begins
where one of them begins and ends where one of them ends. -/
namespace SeqScript
open Lexer

namespace Span

def Within (inner outer : Span) : Prop :=
  outer.start.offset ≤ inner.start.offset ∧ inner.stop.offset ≤ outer.stop.offset

def Before (s t : Span) : Prop := s.stop.offset ≤ t.start.offset

structure Covers (source : Text) (s : Span) : Prop where
  start : s.start.LiesIn source
  stop : s.stop.LiesIn source
  nonempty : s.start.offset < s.stop.offset
  read : s.isSynthetic = false

theorem Covers.join {source : Text} {s t : Span} (first : s.Covers source)
    (second : t.Covers source) (before : s.Before t) : (Span.mk s.start t.stop).Covers source where
  start := first.start
  stop := second.stop
  nonempty := Nat.lt_of_lt_of_le first.nonempty (Nat.le_trans before second.nonempty.le)
  read := first.read

theorem Covers.between {source : Text} {s m t : Span} (first : s.Covers source)
    (second : t.Covers source) (before : s.Before m) (behind : m.Before t) :
    m.Within ⟨s.start, t.stop⟩ :=
  ⟨Nat.le_trans first.nonempty.le before, Nat.le_trans behind second.nonempty.le⟩

end Span

namespace Expr

def children : Expr → List Expr
  | literal _ _ | name _ _ => []
  | sequence _ elements _ => elements.filterMap id
  | call _ args _ => args
  | subscript object index _ => [object, index]
  | unary _ operand _ => [operand]

/-- What a node covers are the brackets of a sequence of its kind and what they enclose, and that
text reads as the node. -/
def ReadsAlone (source : Text) (kind : SequenceKind) (e : Expr) : Prop :=
  ∃ (mid : Text) (r : Expr), e.span.slice source = kind.opener ++ (mid ++ kind.closer) ∧
    Parser.expression (e.span.slice source) = .ok r ∧ r.bare = e.bare

structure Stands (source : Text) (e : Expr) : Prop where
  covers : e.span.Covers source
  within : ∀ c ∈ e.children, c.span.Within e.span
  ordered : e.children.Pairwise fun c d => c.span.Before d.span
  alone : ∀ kind elements span, e = .sequence kind elements span → e.ReadsAlone source kind

end Expr

structure Statement.Stands (source : Text) (s : Statement) : Prop where
  covers : s.span.Covers source
  within : s.expr.span.Within s.span
  nodes : s.expr.All (Expr.Stands source) False

namespace Parser

def Part (source : Text) (ts : List Token) : Prop :=
  ∃ all last, tokenize source = .ok (all ++ [last]) ∧ ts <:+: all

structure Spans (ts : List Token) (s : Span) : Prop where
  start : ∃ t ∈ ts, t.span.start = s.start
  stop : ∃ t ∈ ts, t.span.stop = s.stop

variable {source : Text} {ts us : List Token} {t o c : Token} {s s' : Span}

namespace Part

theorem sub (part : Part source ts) (inside : us <:+: ts) : Part source us := by
  obtain ⟨all, last, lexed, infixes⟩ := part
  exact ⟨all, last, lexed, inside.trans infixes⟩

theorem tiled (part : Part source ts) : ∃ all last, Tiled source 0 0 (all ++ [last]) ∧
    (∀ t ∈ all, t.kind ≠ .endOfInput ∧ t.LiesIn source) ∧ ts <:+: all := by
  obtain ⟨all, last, lexed, infixes⟩ := part
  have whole : source = [] ++ source := rfl
  have placed := tokenizePlaced source
  rw [lexed] at placed
  exact ⟨all, last, tokensFromTiled whole rfl lexed, fun t member => ⟨(endOfTokens lexed).2 t member,
    placed.1 t (List.mem_append_left _ member)⟩, infixes⟩

theorem covers (part : Part source ts) (member : t ∈ ts) : t.span.Covers source := by
  obtain ⟨all, last, tiles, inner, infixes⟩ := part.tiled
  have member := infixes.subset member
  obtain ⟨solid, start, stop⟩ := inner t member
  obtain ⟨before, after, rfl⟩ := List.append_of_mem member
  have fits := tiles.each before t (after ++ [last]) (by simp)
  exact ⟨start, stop, fits.nonempty solid, start.real⟩

theorem ordered (part : Part source ts) :
    ts.Pairwise fun t u => t.span.stop.offset ≤ u.span.start.offset := by
  obtain ⟨all, last, tiles, _, infixes⟩ := part.tiled
  exact ((List.pairwise_append.mp tiles.ordered).1).sublist infixes.sublist

theorem before (part : Part source (ts ++ us)) (first : Spans ts s) (second : Spans us s') :
    s.Before s' := by
  obtain ⟨t, member, stop⟩ := first.stop
  obtain ⟨u, member', start⟩ := second.start
  rw [Span.Before, ← stop, ← start]
  exact (List.pairwise_append.mp part.ordered).2.2 t member u member'

end Part

namespace Spans

theorem one (t : Token) : Spans [t] t.span :=
  ⟨⟨t, List.mem_cons_self, rfl⟩, t, List.mem_cons_self, rfl⟩

theorem inside (spans : Spans us s) (more : us ⊆ ts) : Spans ts s := by
  obtain ⟨⟨t, member, start⟩, u, member', stop⟩ := spans
  exact ⟨⟨t, more member, start⟩, u, more member', stop⟩

theorem join (first : Spans ts s) (second : Spans us s') : Spans (ts ++ us) ⟨s.start, s'.stop⟩ where
  start := (first.inside (List.subset_append_left ts us)).start
  stop := (second.inside (List.subset_append_right ts us)).stop

end Spans

def Standing (source : Text) (ts : List Token) (e : Expr) : Prop :=
  e.All (Expr.Stands source) False ∧ Spans ts e.span

def Phrase.Stands (source : Text) (ts : List Token) : Phrase → Prop
  | .expr e | .value e => Standing source ts e
  | .items es _ => (∀ e ∈ es, Standing source ts e) ∧ es.Pairwise fun c d => c.span.Before d.span

variable {e i : Expr} {es : List Expr}

theorem Standing.inside (stands : Standing source us e) (more : us ⊆ ts) : Standing source ts e :=
  ⟨stands.1, stands.2.inside more⟩

theorem Standing.covers (stands : Standing source ts e) : e.span.Covers source := stands.1.root.covers

theorem leafStands (part : Part source [t]) (none : e.children = []) (whole : e.span = t.span)
    (single : ∀ kind elements span, e ≠ .sequence kind elements span) : e.Stands source where
  covers := whole ▸ part.covers List.mem_cons_self
  within c member := by simp [none] at member
  ordered := by simp [none]
  alone kind elements span same := absurd same (single kind elements span)

theorem unaryStands (part : Part source (t :: us)) (op : UnaryOp) (operand : Standing source us e) :
    Standing source (t :: us) (.unary op e ⟨t.span.start, e.span.stop⟩) := by
  have split : Part source ([t] ++ us) := part
  have first := part.covers List.mem_cons_self
  have before := split.before (Spans.one t) operand.2
  have node : (Expr.unary op e ⟨t.span.start, e.span.stop⟩).Stands source := {
    covers := first.join operand.covers before
    within := fun c member => by
      cases List.mem_singleton.mp member
      exact ⟨Nat.le_trans first.nonempty.le before, Nat.le_refl _⟩
    ordered := List.pairwise_singleton ..
    alone := nofun }
  exact ⟨⟨node, operand.1⟩, (Spans.one t).join operand.2⟩

theorem enclosed {os : List Token} (part : Part source (os ++ (us ++ [c]))) (opens : Spans os s)
    (opener : s.Covers source) (items : ∀ e ∈ es, Standing source us e) :
    (Span.mk s.start c.span.stop).Covers source ∧
      (∀ e ∈ es, e.span.Within ⟨s.start, c.span.stop⟩) ∧
      Spans (os ++ (us ++ [c])) ⟨s.start, c.span.stop⟩ := by
  have inner : Part source (us ++ [c]) := part.sub (List.infix_append' os _ [] |>.trans (by simp))
  have closer := inner.covers (List.mem_append_right us List.mem_cons_self)
  have closes := (Spans.one c).inside (List.subset_append_right us [c])
  refine ⟨opener.join closer (part.before opens closes), fun e member => ?_, opens.join closes⟩
  have inside := (items e member).2
  exact opener.between closer (part.before opens (inside.inside (List.subset_append_left us [c])))
    (inner.before inside (Spans.one c))

theorem callStands {n : Token} (part : Part source (n :: o :: (us ++ [c]))) (callee : Text)
    (items : ∀ e ∈ es, Standing source us e) (ordered : es.Pairwise fun c d => c.span.Before d.span) :
    Standing source (n :: o :: (us ++ [c])) (.call callee es ⟨n.span.start, c.span.stop⟩) := by
  have split : Part source ([n, o] ++ (us ++ [c])) := part
  have opens : Spans [n, o] n.span := (Spans.one n).inside (by simp)
  obtain ⟨covers, within, spans⟩ := enclosed split opens (part.covers List.mem_cons_self) items
  exact ⟨⟨⟨covers, within, ordered, nofun⟩, Expr.allArgsIff.mpr fun e member => (items e member).1⟩,
    spans⟩

theorem sequenceAlone {kind : SequenceKind} (part : Part source (o :: (us ++ [c])))
    (opener : o.kind = kind.openKind) (closer : c.kind = kind.closeKind) (balanced : Balanced us)
    (derives : Derives (o :: (us ++ [c])) (.value e))
    (whole : e.span = ⟨o.span.start, c.span.stop⟩) : e.ReadsAlone source kind := by
  obtain ⟨all, last, lexed, before, after, rfl⟩ := part
  have inside (depth : Nat) : Stays 1 (depth + 1) us := by
    simpa using balanced.stays 1 (depth + 1) [] (Nat.le_add_left 1 depth)
  have tokens : tokenize source = .ok (before ++ o :: (us ++ c :: (after ++ [last]))) := by
    rw [lexed]
    simp
  have region {v w : CodeUnit} (opens : o.kind.bracket = some v) (closes : c.kind.bracket = some w)
      (deeper : ∀ depth, o.kind.depthAfter depth = depth + 1) : ∃ (mid : Text) (r : Expr),
        e.span.slice source = v :: (mid ++ [w]) ∧
          expression (e.span.slice source) = .ok r ∧ r.bare = e.bare := by
    obtain ⟨mid, vs, stop, slice, alone, ends, alike⟩ :=
      regionLexes tokens opens closes deeper inside
    obtain ⟨r, derives', equal⟩ := derives.reads.value alike
    rw [whole, slice]
    exact ⟨mid, r, rfl, (exprOfTokenized alone).trans (exprAccepted (.value derives') ends), equal⟩
  cases kind with
  | list => exact region (by rw [opener]; rfl) (by rw [closer]; rfl) fun _ => by rw [opener]; rfl
  | tuple => exact region (by rw [opener]; rfl) (by rw [closer]; rfl) fun _ => by rw [opener]; rfl

theorem sequenceStands (kind : SequenceKind) (part : Part source (o :: (us ++ [c])))
    (opener : o.kind = kind.openKind) (closer : c.kind = kind.closeKind) (balanced : Balanced us)
    (derives : Derives (o :: (us ++ [c]))
      (.value (.sequence kind (elements es) ⟨o.span.start, c.span.stop⟩)))
    (items : ∀ e ∈ es, Standing source us e) (ordered : es.Pairwise fun c d => c.span.Before d.span) :
    Standing source (o :: (us ++ [c]))
      (.sequence kind (elements es) ⟨o.span.start, c.span.stop⟩) := by
  have split : Part source ([o] ++ (us ++ [c])) := part
  have children : (elements es).filterMap id = es := by simp [elements]
  obtain ⟨covers, within, spans⟩ :=
    enclosed split (Spans.one o) (part.covers List.mem_cons_self) items
  have node : (Expr.sequence kind (elements es) ⟨o.span.start, c.span.stop⟩).Stands source := {
    covers := covers
    within := fun c member => within c (children ▸ member)
    ordered := by
      rw [Expr.children, children]
      exact ordered
    alone := fun kind' elements' span same => by
      cases same
      exact sequenceAlone part opener closer balanced derives rfl }
  exact ⟨⟨node, Expr.allSlotsOfElements fun e member => (items e member).1⟩, spans⟩

theorem subscriptStands (part : Part source (ts ++ o :: (us ++ [c])))
    (object : Standing source ts e) (index : Standing source us i) :
    Standing source (ts ++ o :: (us ++ [c])) (.subscript e i ⟨e.span.start, c.span.stop⟩) := by
  have brackets : Part source ((o :: us) ++ [c]) := part.sub (List.suffix_append ts _).isInfix
  have closer := brackets.covers (List.mem_append_right (o :: us) List.mem_cons_self)
  have closes : Spans (o :: (us ++ [c])) c.span := (Spans.one c).inside (by simp)
  have index' : Spans (o :: us) i.span := index.2.inside (by simp)
  have opens : e.span.Before i.span := part.before object.2 (index'.inside (by simp))
  have behind : e.span.Before c.span := part.before object.2 closes
  have node : (Expr.subscript e i ⟨e.span.start, c.span.stop⟩).Stands source := {
    covers := object.covers.join closer behind
    within := List.forall_mem_cons.mpr
      ⟨⟨Nat.le_refl _, Nat.le_trans behind closer.nonempty.le⟩, List.forall_mem_singleton.mpr
        (object.covers.between closer opens (brackets.before index' (Spans.one c)))⟩
    ordered := List.pairwise_pair.mpr opens
    alone := nofun }
  exact ⟨⟨node, object.1, index.1⟩, object.2.join closes⟩

theorem moreItemsStand {es : List Expr} (part : Part source (ts ++ c :: us))
    (item : Standing source ts e) (others : ∀ d ∈ es, Standing source us d)
    (ordered : es.Pairwise fun c d => c.span.Before d.span) :
    (∀ d ∈ e :: es, Standing source (ts ++ c :: us) d) ∧
      (e :: es).Pairwise fun c d => c.span.Before d.span := by
  have later (d : Expr) (member : d ∈ es) : Spans (c :: us) d.span :=
    (others d member).2.inside (List.subset_cons_self c us)
  refine ⟨List.forall_mem_cons.mpr ⟨item.inside (by simp), fun d member => ?_⟩, .cons ?_ ordered⟩
  · exact ⟨(others d member).1, (later d member).inside (by simp)⟩
  · exact fun d member => part.before item.2 (later d member)

theorem Derives.stands {p : Phrase} (derives : Derives ts p) (part : Part source ts) :
    p.Stands source ts := by
  induction derives with
  | unary operator operand ih =>
    exact unaryStands part _ (ih (part.sub (List.infix_cons (List.infix_refl _))))
  | value inner ih => exact ih part
  | scalar single => exact ⟨leafStands part rfl rfl nofun, Spans.one _⟩
  | name kind => exact ⟨leafStands part rfl rfl nofun, Spans.one _⟩
  | @list o us es bare c opener inner closer ih =>
    obtain ⟨items, ordered⟩ := ih (part.sub ⟨[o], [c], rfl⟩)
    have derives := Derives.list opener inner closer
    rw [listComplete] at derives ⊢
    exact sequenceStands .list part opener closer inner.balanced derives items ordered
  | @group o us es bare c opener inner closer ih =>
    obtain ⟨items, ordered⟩ := ih (part.sub ⟨[o], [c], rfl⟩)
    by_cases single : bare = true ∧ es.length = 1
    · obtain ⟨rfl, one⟩ := single
      obtain ⟨e, rfl⟩ := List.length_eq_one_iff.mp one
      exact (items e List.mem_cons_self).inside (by simp)
    · have derives := Derives.group opener inner closer
      rw [groupComplete fun marked one => single ⟨marked, one⟩] at derives ⊢
      exact sequenceStands .tuple part opener closer inner.balanced derives items ordered
  | @call n o us es bare c callee opener inner closer ih =>
    obtain ⟨items, ordered⟩ := ih (part.sub ⟨[n, o], [c], rfl⟩)
    rw [callComplete]
    exact callStands part n.value items ordered
  | @subscript ts e o ns us i ms c object opener before index behind closer ihObject ihIndex =>
    have index := ihIndex (part.sub ⟨ts ++ o :: ns, ms ++ [c], by simp⟩)
    exact subscriptStands part (ihObject (part.sub (List.prefix_append ts _).isInfix))
      (index.inside (by simp))
  | noItem blank => exact ⟨nofun, .nil⟩
  | @lastItem ns ts e ms before item behind ih =>
    have item := ih (part.sub ⟨ns, ms, rfl⟩)
    exact ⟨List.forall_mem_singleton.mpr (item.inside (by simp)), List.pairwise_singleton ..⟩
  | @moreItems ns ts e ms c us es bare before item behind separator others ihItem ihOthers =>
    have item := ihItem (part.sub ⟨ns, ms ++ c :: us, by simp⟩)
    obtain ⟨others, ordered⟩ := ihOthers (part.sub ⟨ns ++ ts ++ ms ++ [c], [], by simp⟩)
    exact moreItemsStand part (item.inside (by simp)) others ordered

theorem DerivesStatement.stands {s : Statement} (derives : DerivesStatement ts s)
    (part : Part source ts) : s.Stands source ∧ Spans ts s.span := by
  cases derives with
  | @assignment n a us e target sign value =>
    have value := value.stands (part.sub ⟨[n, a], [], by simp⟩)
    have split : Part source ([n, a] ++ us) := part
    have names : Spans [n, a] n.span := (Spans.one n).inside (by simp)
    have first := part.covers List.mem_cons_self
    have before := split.before names value.2
    exact ⟨⟨first.join value.covers before,
      ⟨Nat.le_trans first.nonempty.le before, Nat.le_refl _⟩, value.1⟩, names.join value.2⟩
  | expression inner =>
    have inner := inner.stands part
    exact ⟨⟨inner.covers, ⟨Nat.le_refl _, Nat.le_refl _⟩, inner.1⟩, inner.2⟩

theorem DerivesLines.stands {ss : List Statement} (derives : DerivesLines ts ss)
    (part : Part source ts) : (∀ s ∈ ss, s.Stands source ∧ Spans ts s.span) ∧
      ss.Pairwise fun s t => s.span.Before t.span := by
  induction derives with
  | none => exact ⟨nofun, .nil⟩
  | @last ns ts s before statement =>
    obtain ⟨stands, spans⟩ := statement.stands (part.sub (List.suffix_append ns ts).isInfix)
    exact ⟨List.forall_mem_singleton.mpr ⟨stands, spans.inside (by simp)⟩, List.pairwise_singleton ..⟩
  | @more ns ts s n us ss before statement separator others ih =>
    obtain ⟨stands, spans⟩ := statement.stands (part.sub ⟨ns, n :: us, rfl⟩)
    obtain ⟨others, ordered⟩ := ih (part.sub ⟨ns ++ ts ++ [n], [], by simp⟩)
    have first : Spans (ns ++ ts) s.span := spans.inside (by simp)
    have later (t : Statement) (member : t ∈ ss) : Spans (n :: us) t.span :=
      (others t member).2.inside (List.subset_cons_self n us)
    refine ⟨List.forall_mem_cons.mpr ⟨⟨stands, first.inside (by simp)⟩, fun t member => ?_⟩,
      .cons (fun t member => part.before first (later t member)) ordered⟩
    exact ⟨(others t member).1, (later t member).inside (by simp)⟩

theorem Part.starts (part : Part source ts) (member : t ∈ ts) (last : Token) :
    (startOf (ts ++ [last])).offset ≤ t.span.start.offset := by
  have ordered := part.ordered
  cases ts with
  | nil => cases member
  | cons first rest =>
    rcases List.mem_cons.mp member with rfl | member
    · exact Nat.le_refl _
    · have before := (List.pairwise_cons.mp ordered).1 t member
      exact Nat.le_trans (part.covers List.mem_cons_self).nonempty.le before

/- Every node of a script that was read covers some of its source, inside its parent and apart from
its siblings, and each sequence is what its own brackets and their contents read as. -/
theorem spansOfScript {source : Text} {s : Script} (read : script source = .ok s) :
    (∀ t ∈ s.statements, t.Stands source ∧ t.span.Within s.span) ∧
      s.statements.Pairwise fun t u => t.span.Before u.span := by
  obtain ⟨ts, last, lexed, lines⟩ := scriptDerived read
  have part : Part source ts := ⟨ts, last, lexed, List.infix_refl ts⟩
  have ends := (endOfTokens lexed).1
  obtain ⟨stand, ordered⟩ := lines.stands part
  have span : s.span = ⟨startOf (ts ++ [last]), last.span.stop⟩ := by
    have accepted := (scriptOfTokenized lexed).trans (scriptAccepted lines ends.kind)
    rw [read] at accepted
    exact congrArg Script.span (Except.ok.inj accepted)
  refine ⟨fun t member => ?_, ordered⟩
  obtain ⟨stands, spans⟩ := stand t member
  obtain ⟨first, inside, start⟩ := spans.start
  refine ⟨stands, ?_, ?_⟩
  · rw [span, ← start]
    exact part.starts inside last
  · rw [span, ends.stop]
    exact stands.covers.stop.offset

theorem nestedSpans :
    ∃ s, script (text "x = ((1, [-2, # two\n ()])) # and\nlen(x[(0)], [\\\n])") = .ok s ∧
      s.statements.length = 2 ∧
      (∀ t ∈ s.statements,
        t.Stands (text "x = ((1, [-2, # two\n ()])) # and\nlen(x[(0)], [\\\n])") ∧
          t.span.Within s.span) ∧
      s.statements.Pairwise fun t u => t.span.Before u.span := by
  obtain ⟨s, read⟩ := readIfOk (text "x = ((1, [-2, # two\n ()])) # and\nlen(x[(0)], [\\\n])")
    (by decide +kernel)
  have count : (script (text "x = ((1, [-2, # two\n ()])) # and\nlen(x[(0)], [\\\n])")).map
      (fun s => s.statements.length) = .ok 2 := by decide +kernel
  rw [read] at count
  exact ⟨s, read, Except.ok.inj count, spansOfScript read⟩

end Parser

end SeqScript
