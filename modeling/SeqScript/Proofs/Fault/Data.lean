import SeqScript.Proofs.Fault.Place
import SeqScript.Proofs.Number.Whole

/-! What a report keeps of what it was made from. Its identifier, its location and its context come
back from its data as they were given. Its message does as well, with one exception: when the
report has no location and the message ends like one, that end is taken for the location's and
is lost, to the data, to a report made from the data and to the line that is shown. -/
namespace SeqScript

namespace Report
open Text

def Kept (message : Text) (location : Option Location) : Prop :=
  location = none → ¬ message.EndsInPlace

theorem dataMessage (c : ReportClass) (d : ReportData) :
    (make c d).data.message = d.message ↔ Kept d.message d.location := by
  cases place : d.location with
  | none =>
    simp only [make, data, place, locationSuffix, List.append_nil, withoutSuffixKeeps, Kept,
      forall_const]
  | some l =>
    simp only [make, data, place, locationSuffix, withoutSuffixBehind, Kept, reduceCtorEq,
      false_implies]

theorem dataMessageCut (c : ReportClass) (d : ReportData) (lost : ¬ Kept d.message d.location) :
    d.message.PlaceBehind (make c d).data.message := by
  obtain ⟨noPlace, ends⟩ := Classical.not_imp.mp lost
  have cut : (make c d).data.message = withoutSuffix d.message := by
    simp [make, data, noPlace, locationSuffix]
  rw [cut]
  exact (withoutSuffixCases d.message).resolve_left fun same =>
    (withoutSuffixKeeps d.message).mp same (Classical.not_not.mp ends)

def lineAround (c : ReportClass) (d : ReportData) (shown : Text) : Text :=
  let place := match d.location with
    | some l => text " at line " ++ Text.ofNat l.line
    | none => []
  c.label ++ place ++ text ": " ++ shown ++ text " [" ++ d.id.code ++ text "]"

/-- What stands behind the message of a report, with its place in numbers of the language. -/
def PlacedBehind (location : Option Location) (message shown : Text) : Prop :=
  ∀ l, location = some l → shown = message ++ (text " at " ++ (Number.ofNat l.line).toText ++
    text ":" ++ (Number.ofNat l.column).toText)

def Countable (location : Option Location) : Prop :=
  ∀ l, location = some l → l.line < 2 ^ (53 : Nat) ∧ l.column < 2 ^ (53 : Nat)

theorem placedInNumbers (c : ReportClass) (d : ReportData) (countable : Countable d.location) :
    PlacedBehind d.location d.message (make c d).message := by
  intro l place
  obtain ⟨line, column⟩ := countable l place
  have shown : (make c d).message = d.message ++ l.suffix := by simp [make, place, locationSuffix]
  rw [shown, Number.wholeText line, Number.wholeText column]
  rfl

theorem lineShows (c : ReportClass) (d : ReportData) :
    (make c d).line = lineAround c d d.message ↔ (make c d).data.message = d.message := by
  have shape : (make c d).line = lineAround c d (make c d).data.message := rfl
  rw [shape]
  simp only [lineAround, List.append_assoc, List.append_cancel_left_eq,
    List.append_cancel_right_eq]

theorem makeAgain (c : ReportClass) (d : ReportData) :
    (make .general (make c d).data).message = (make c d).message ↔
      (make c d).data.message = d.message := by
  have again : (make .general (make c d).data).message =
    (make c d).data.message ++ locationSuffix d.location := rfl
  have first : (make c d).message = d.message ++ locationSuffix d.location := rfl
  rw [again, first, List.append_cancel_right_eq]

end Report

theorem ErrorId.ofCodeSelf (id : ErrorId) : ofCode? id.code = some id := by cases id <;> decide

def ReportClass.Carries (c : ReportClass) (id : ErrorId) : Prop :=
  ∀ category, c.category? = some category → id.category = category

namespace Report

theorem ofCodeCarried {c : ReportClass} {id : ErrorId} (carries : c.Carries id) (message : Text)
    (location : Option Location) (context : Option (Bindings Scalar)) :
    ofCode c id.code message location context = .ok (make c ⟨id, message, location, context⟩) := by
  have checked : checkId c id.code = .ok id := by
    unfold checkId
    rw [id.ofCodeSelf]
    cases own : c.category? with
    | none => rfl
    | some category => exact if_pos (carries category own)
  rw [ofCode, checked]
  rfl

/- A report of any class that may have the identifier is made, and from its data a general one is
made again. Identifier, location and context are those that were given. The message is, in the
data as in the new report and in the line that is shown, unless it ends like a place and there is
no location: then that end is missing from it. The place is written in digits, as all numbers are that
are exact; from `10 ^ 21` on a number has an exponent, and no place of a text is as far as that. -/
theorem dataAsGiven {c : ReportClass} {id : ErrorId} (carries : c.Carries id) (message : Text)
    (location : Option Location) (context : Option (Bindings Scalar)) :
    ∃ r again,
      ofCode c id.code message location context = .ok r ∧
      ofCode .general r.data.id.code r.data.message r.data.location r.data.context = .ok again ∧
      (r.data.id = id ∧ r.data.location = location ∧ r.data.context = context) ∧
      (r.data.message = message ↔ Kept message location) ∧
      (again.message = r.message ↔ Kept message location) ∧
      (r.line = lineAround c ⟨id, message, location, context⟩ message ↔ Kept message location) ∧
      (¬ Kept message location → message.PlaceBehind r.data.message) ∧
      (Countable location → PlacedBehind location message r.message) := by
  let given : ReportData := ⟨id, message, location, context⟩
  have general : ReportClass.Carries .general id := fun _ own => by cases own
  have kept := dataMessage c given
  refine ⟨make c given, make .general (make c given).data,
    ofCodeCarried carries message location context,
    ofCodeCarried general _ _ _, ⟨rfl, rfl, rfl⟩, kept, ?_, ?_,
    dataMessageCut c given, placedInNumbers c given⟩
  · exact (makeAgain c given).trans kept
  · exact (lineShows c given).trans kept

theorem placedDataAsGiven : ReportClass.Carries .parse .expectedToken ∧
    ∃ r, ofCode .parse (text "SKIFF-P002") (text "Expected ) at 1:2") (some ⟨3, 4, 20⟩) none =
        .ok r ∧
      r.data.message = text "Expected ) at 1:2" ∧
      r.line = text "Parse error at line 3: Expected ) at 1:2 [SKIFF-P002]" := by
  have carries : ReportClass.Carries .parse .expectedToken := fun _ own => by cases own; rfl
  have kept : Kept (text "Expected ) at 1:2") (some ⟨3, 4, 20⟩) := fun none => by cases none
  obtain ⟨r, again, made, -, -, message, -, line, -⟩ :=
    dataAsGiven carries (text "Expected ) at 1:2") (some ⟨3, 4, 20⟩) none
  exact ⟨carries, r, made, message.mpr kept, (line.mpr kept).trans (by decide)⟩

theorem ownPlaceLost : ∃ r again,
    ofCode .general (text "SKIFF-R004") (text "stopped at 1:2") none none = .ok r ∧
    ofCode .general r.data.id.code r.data.message r.data.location r.data.context = .ok again ∧
    r.data.message = text "stopped" ∧
    r.message = text "stopped at 1:2" ∧ again.message = text "stopped" ∧
    r.line = text "Error: stopped [SKIFF-R004]" :=
  ⟨_, _, rfl, rfl, by decide, by decide, by decide, by decide⟩

end Report

end SeqScript
