import Mathlib.Data.List.TakeWhile
import SeqScript.CommandLine

/-! What the arguments of the command line ask for. The first option before the end of the options
that is not the check decides alone; without one, the expressions are what is left, and the check
is asked for wherever it stands. -/
namespace SeqScript.CommandLine

def inFront (arguments : List Text) : List Text := arguments.takeWhile (· ≠ optionsEnd)

def behindEnd (arguments : List Text) : List Text :=
  (arguments.dropWhile (· ≠ optionsEnd)).drop 1

def decides (argument : Text) : Bool := isOption argument && argument ≠ checkOption

def expressions (front behind : List Text) : List Text :=
  front.filter (fun a => !isOption a) ++ behind

inductive Asks (front behind : List Text) : Except UsageFault Command → Prop
  | help (first : front.find? decides = some helpOption) : Asks front behind (.ok .help)
  | version (first : front.find? decides = some versionOption) : Asks front behind (.ok .version)
  | unknown {a : Text} (first : front.find? decides = some a) (noHelp : a ≠ helpOption)
      (noVersion : a ≠ versionOption) : Asks front behind (.error (.unknownOption a))
  | nothing (undecided : front.find? decides = none) (none : expressions front behind = []) :
      Asks front behind (.ok .help)
  | check {source : Text} (undecided : front.find? decides = none)
      (single : expressions front behind = [source]) (asked : checkOption ∈ front) :
      Asks front behind (.ok (.check source))
  | evaluate {source : Text} (undecided : front.find? decides = none)
      (single : expressions front behind = [source]) (unasked : checkOption ∉ front) :
      Asks front behind (.ok (.evaluate source))
  | unexpected {source extra : Text} {more : List Text} (undecided : front.find? decides = none)
      (several : expressions front behind = source :: extra :: more) :
      Asks front behind (.error (.unexpectedArgument extra))

variable {a : Text}

theorem inFrontEnd (rest : List Text) :
    inFront (optionsEnd :: rest) = [] ∧ behindEnd (optionsEnd :: rest) = rest := by
  simp [inFront, behindEnd]

theorem inFrontOther (other : a ≠ optionsEnd) (rest : List Text) :
    inFront (a :: rest) = a :: inFront rest ∧ behindEnd (a :: rest) = behindEnd rest := by
  simp [inFront, behindEnd, other]

def decided (a : Text) : Except UsageFault Command :=
  if a = helpOption then .ok .help
  else if a = versionOption then .ok .version
  else .error (.unknownOption a)

theorem parseEnd (check : Bool) (found rest : List Text) :
    parseFrom check found (optionsEnd :: rest) = ofExpressions check (found ++ rest) := rfl

theorem parsePlain (plain : isOption a = false) (check : Bool) (found rest : List Text) :
    parseFrom check found (a :: rest) = parseFrom check (found ++ [a]) rest := by
  simp [parseFrom, plain]

theorem parseCheck (check : Bool) (found rest : List Text) :
    parseFrom check found (checkOption :: rest) = parseFrom true found rest := rfl

theorem parseDecided (option : isOption a = true) (noEnd : a ≠ optionsEnd) (noCheck : a ≠ checkOption)
    (check : Bool) (found rest : List Text) :
    parseFrom check found (a :: rest) = decided a := by
  simp [parseFrom, decided, option, noEnd, noCheck]

/- What was found so far and what is left, put together: the induction is on the arguments left, with
one case for each kind of argument. -/
theorem parseFromFront (check : Bool) (found arguments : List Text) :
    parseFrom check found arguments =
      ((inFront arguments).find? decides).elim
        (ofExpressions (check || (inFront arguments).contains checkOption)
          (found ++ expressions (inFront arguments) (behindEnd arguments))) decided := by
  induction arguments generalizing check found with
  | nil => simp [parseFrom, inFront, behindEnd, expressions]
  | cons a rest ih =>
    by_cases ends : a = optionsEnd
    · subst ends
      simp [parseEnd, inFrontEnd, expressions]
    have split := inFrontOther ends rest
    rw [split.1, split.2]
    cases option : isOption a with
    | false =>
      have noCheck : checkOption ≠ a := by
        intro same
        subst same
        cases option
      simp [parsePlain option, ih, decides, expressions, option, noCheck]
    | true =>
      by_cases asks : a = checkOption
      · subst asks
        simp [parseCheck, ih, decides, expressions, option]
      · simp [parseDecided option ends asks, decides, option, asks]

def answer (front behind : List Text) : Except UsageFault Command :=
  (front.find? decides).elim
    (ofExpressions (front.contains checkOption) (expressions front behind)) decided

theorem parseAnswer (arguments : List Text) :
    parse arguments = answer (inFront arguments) (behindEnd arguments) := by
  have read := parseFromFront false [] arguments
  rw [Bool.false_or, List.nil_append] at read
  exact read

variable {front behind front' : List Text}

theorem answerAsks (front behind : List Text) : Asks front behind (answer front behind) := by
  unfold answer
  cases first : front.find? decides with
  | some a =>
    rw [Option.elim_some, decided]
    split
    · rename_i help
      exact .help (help ▸ first)
    split
    · rename_i version
      exact .version (version ▸ first)
    · rename_i noHelp noVersion
      exact .unknown first noHelp noVersion
  | none =>
    rw [Option.elim_none]
    cases left : expressions front behind with
    | nil => exact .nothing first left
    | cons source more =>
      cases more with
      | cons extra more => exact .unexpected first left
      | nil =>
        rw [ofExpressions]
        split
        · rename_i asked
          exact .check first left (List.contains_iff_mem.mp asked)
        · rename_i unasked
          exact .evaluate first left (mt List.contains_iff_mem.mpr unasked)

theorem Asks.answered {r : Except UsageFault Command} (asks : Asks front behind r) :
    answer front behind = r := by
  unfold answer
  cases asks with
  | help first => rw [first]; rfl
  | version first => rw [first]; rfl
  | unknown first noHelp noVersion => simp [first, decided, noHelp, noVersion]
  | nothing undecided none => rw [undecided, none]; rfl
  | check undecided single asked => simp [undecided, single, ofExpressions, asked]
  | evaluate undecided single unasked => simp [undecided, single, ofExpressions, unasked]
  | unexpected undecided several => rw [undecided, several]; rfl

theorem answerSame
    (others : front.filter (· ≠ checkOption) = front'.filter (· ≠ checkOption))
    (asked : checkOption ∈ front ↔ checkOption ∈ front') (behind : List Text) :
    answer front behind = answer front' behind := by
  have first (front : List Text) :
      (front.filter (· ≠ checkOption)).find? decides = front.find? decides := by
    rw [List.find?_filter]
    congr 1
    funext a
    by_cases same : a = checkOption <;> simp [same, decides]
  have left (front : List Text) : (front.filter (· ≠ checkOption)).filter (fun a => !isOption a) =
      front.filter (fun a => !isOption a) := by
    rw [List.filter_filter]
    congr 1
    funext a
    by_cases same : a = checkOption
    · subst same; rfl
    · simp [same]
  have present : front.contains checkOption = front'.contains checkOption :=
    Bool.eq_iff_iff.mpr (by simpa using asked)
  rw [answer, answer, expressions, expressions, ← first front, ← left front, others, first, left, present]

theorem inFrontAppend (options : optionsEnd ∉ front) (rest : List Text) :
    inFront (front ++ rest) = front ++ inFront rest ∧ behindEnd (front ++ rest) = behindEnd rest := by
  have inside : ∀ a ∈ front, decide (a ≠ optionsEnd) = true := by
    intro a member
    exact decide_eq_true fun ends => options (ends ▸ member)
  rw [inFront, behindEnd, List.takeWhile_append_of_pos inside, List.dropWhile_append_of_pos inside]
  exact ⟨rfl, rfl⟩

theorem parseWithCheck (options : optionsEnd ∉ front) (rest : List Text) :
    parse (front ++ checkOption :: rest) =
      answer (front ++ checkOption :: inFront rest) (behindEnd rest) := by
  have noEnd : checkOption ≠ optionsEnd := by decide
  rw [parseAnswer, (inFrontAppend options _).1, (inFrontAppend options _).2, (inFrontOther noEnd rest).1,
    (inFrontOther noEnd rest).2]

/- What is asked for is settled by the arguments before the end of the options and the expressions
behind it; asking for the check once more, or elsewhere before the end of the options, changes
nothing. -/
theorem argumentsAsk :
    (∀ arguments r, parse arguments = r ↔ Asks (inFront arguments) (behindEnd arguments) r) ∧
    (∀ front rest, optionsEnd ∉ front → checkOption ∈ inFront (front ++ rest) →
      parse (front ++ checkOption :: rest) = parse (front ++ rest)) ∧
    ∀ front between rest, optionsEnd ∉ front ++ between →
      parse (front ++ between ++ checkOption :: rest) =
        parse (front ++ checkOption :: (between ++ rest)) := by
  refine ⟨fun arguments r => ?_, fun front rest options asked => ?_,
    fun front between rest options => ?_⟩
  · rw [parseAnswer]
    exact ⟨fun same => same ▸ answerAsks _ _, Asks.answered⟩
  · rw [(inFrontAppend options rest).1] at asked
    rw [parseWithCheck options, parseAnswer, (inFrontAppend options rest).1, (inFrontAppend options rest).2]
    refine answerSame (by simp) (iff_of_true ?_ asked) _
    exact List.mem_append_right _ List.mem_cons_self
  · have before : optionsEnd ∉ front := fun member => options (List.mem_append_left _ member)
    have inside : optionsEnd ∉ between := fun member => options (List.mem_append_right _ member)
    rw [parseWithCheck options, parseWithCheck before, (inFrontAppend inside rest).1,
      (inFrontAppend inside rest).2]
    refine answerSame (by simp) (iff_of_true ?_ ?_) _
    · exact List.mem_append_right _ List.mem_cons_self
    · exact List.mem_append_right _ List.mem_cons_self

theorem checkAskedElsewhere :
    optionsEnd ∉ [checkOption] ∧ checkOption ∈ inFront ([checkOption] ++ [optionsEnd, helpOption]) ∧
      parse [checkOption, checkOption, optionsEnd, helpOption] =
        parse [checkOption, optionsEnd, helpOption] ∧
      parse [checkOption, optionsEnd, helpOption] = .ok (.check helpOption) ∧
      optionsEnd ∉ [] ++ [text "1"] ∧
      parse [text "1", checkOption, versionOption] = parse [checkOption, text "1", versionOption] := by
  obtain ⟨asks, again, moved⟩ := argumentsAsk
  have options : optionsEnd ∉ [checkOption] := by decide
  have expression : optionsEnd ∉ [] ++ [text "1"] := by decide
  have asked : checkOption ∈ inFront ([checkOption] ++ [optionsEnd, helpOption]) := by decide
  have checked : Asks [checkOption] [helpOption] (.ok (.check helpOption)) :=
    .check rfl rfl List.mem_cons_self
  exact ⟨options, asked, again _ _ options asked, (asks _ _).mpr checked, expression,
    moved [] _ [versionOption] expression⟩

end SeqScript.CommandLine
