import Mathlib.Data.List.Forall2
import NodeReshape.Config
import NodeReshape.Proofs.LevelNames

/-!
# Names that are no level

The name of a level may be given in small and capital letters of ASCII, and in no other letters,
however like them these are or become in lower case. Everything else is refused with one fault. It
quotes the name in lower case, where a capital sigma depends on the letters around it.
-/
namespace NodeReshape

/-- The character stands for this letter: it is the letter, or the capital letter of ASCII that
belongs to a small one. -/
def StandsFor (letter c : Char) : Prop :=
  c = letter ∨ 'a'.toNat ≤ letter.toNat ∧ letter.toNat ≤ 'z'.toNat ∧ c.toNat + 32 = letter.toNat

/-- The text is the name, letter by letter, in small letters or capitals of ASCII. -/
def SpelledAs (name t : Text) : Prop := List.Forall₂ StandsFor name t

section Spelling

theorem toNat_toLower_of_capital {c : Char} (h : 65 ≤ c.toNat ∧ c.toNat ≤ 90) :
    c.toLower.toNat = c.toNat + 32 := by
  have hall : ∀ n : Nat, n ≤ 90 → 65 ≤ n → (Char.ofNat n).toLower.toNat = n + 32 := by decide
  simpa using hall c.toNat h.2 h.1

/-- A letter that is not capital has the character that stands for it as its lower case. -/
theorem standsFor_iff {letter c : Char} (h : letter.toLower = letter) :
    StandsFor letter c ↔ c.toLower = letter := by
  by_cases hc : 65 ≤ c.toNat ∧ c.toNat ≤ 90
  · have hlower := toNat_toLower_of_capital hc
    constructor
    · rintro (rfl | ⟨-, -, hsum⟩)
      · exact h
      · rw [← Char.toNat_inj, hlower, hsum]
    · rintro rfl
      have ha : 'a'.toNat = 97 := rfl
      have hz : 'z'.toNat = 122 := rfl
      refine .inr ⟨?_, ?_, ?_⟩ <;> omega
  · have hsame := toLower_of_not_capital hc
    constructor
    · rintro (rfl | ⟨hlow, hhigh, hsum⟩)
      · exact h
      · have ha : 'a'.toNat = 97 := rfl
        have hz : 'z'.toNat = 122 := rfl
        omega
    · rintro rfl
      exact .inl hsame.symm

theorem spelledAs_iff {name t : Text} (h : ∀ letter ∈ name, letter.toLower = letter) :
    SpelledAs name t ↔ t.map Char.toLower = name := by
  induction name generalizing t with
  | nil => simp [SpelledAs]
  | cons letter name ih =>
    obtain ⟨hletter, hname⟩ := List.forall_mem_cons.mp h
    cases t with
    | nil => simp [SpelledAs]
    | cons c t =>
      rw [SpelledAs, List.forall₂_cons, standsFor_iff hletter, ← SpelledAs, ih hname,
        List.map_cons, List.cons.injEq]

theorem Level.toLower_of_mem_name (l : Level) : ∀ letter ∈ l.name, letter.toLower = letter := by
  have hall : (l.name.all fun letter => letter.toLower == letter) = true := by
    cases l <;> decide
  intro letter hletter
  simpa using List.all_eq_true.mp hall letter hletter

/-- A text that is not empty asks for the level it spells, whatever the environment is called. -/
theorem Environment.asks_iff {c : Char} {t : Text} {nodeEnv : Option Text} {l : Level} :
    Environment.Asks ⟨some (c :: t), nodeEnv⟩ l ↔ SpelledAs l.name (c :: t) := by
  rw [spelledAs_iff l.toLower_of_mem_name]
  constructor
  · rintro (hunset | ⟨_, _, ⟨⟩, hspelled⟩)
    · simp at hunset
    · exact hspelled
  · exact .named (c :: t) l rfl

end Spelling

section LowerCase

/-- Behind characters that are passed over, the text goes on with a letter that has case. -/
def MeetsCased (t : Text) : Prop :=
  ∃ skipped c rest, t = skipped ++ c :: rest ∧
    (∀ d ∈ skipped, inRanges passedOverRanges d = true) ∧
    inRanges passedOverRanges c = false ∧ inRanges casedRanges c = true

theorem casedNext_iff (t : Text) : casedNext t = true ↔ MeetsCased t := by
  induction t with
  | nil => simp [casedNext, MeetsCased]
  | cons c t ih =>
    rw [casedNext]
    split
    case isTrue hpassed =>
      rw [ih]
      constructor
      · rintro ⟨skipped, d, rest, rfl, hskipped, hd⟩
        exact ⟨c :: skipped, d, rest, rfl, List.forall_mem_cons.mpr ⟨hpassed, hskipped⟩, hd⟩
      · rintro ⟨skipped, d, rest, ht, hskipped, hd⟩
        cases skipped with
        | nil =>
          obtain ⟨rfl, -⟩ := List.cons.inj ht
          simp [hpassed] at hd
        | cons x skipped =>
          obtain ⟨-, rfl⟩ := List.cons.inj ht
          exact ⟨skipped, d, rest, rfl, (List.forall_mem_cons.mp hskipped).2, hd⟩
    case isFalse hpassed =>
      constructor
      · intro hcased
        exact ⟨[], c, t, rfl, by simp, by simpa using hpassed, hcased⟩
      · rintro ⟨skipped, d, rest, ht, hskipped, -, hcased⟩
        cases skipped with
        | nil =>
          obtain ⟨rfl, -⟩ := List.cons.inj ht
          exact hcased
        | cons x skipped =>
          obtain ⟨rfl, -⟩ := List.cons.inj ht
          exact absurd (List.forall_mem_cons.mp hskipped).1 hpassed

/-- What stands between these two texts is at the end of a word: a letter with case goes before it,
and none follows. -/
def EndsWord (before behind : Text) : Prop := MeetsCased before.reverse ∧ ¬ MeetsCased behind

/-- What a character between two texts becomes in lower case. -/
inductive Lowers (before behind : Text) : Char → Text → Prop
  | dotted : Lowers before behind '\u0130' ['i', '\u0307']
  | lastSigma (h : EndsWord before behind) : Lowers before behind '\u03A3' ['\u03C2']
  | sigma (h : ¬ EndsWord before behind) : Lowers before behind '\u03A3' ['\u03C3']
  | letter (c : Char) (hdotted : c ≠ '\u0130') (hsigma : c ≠ '\u03A3') :
    Lowers before behind c [lowerChar c]

/-- The text behind `before` becomes this in lower case, character by character. -/
inductive LowersFrom : Text → Text → Text → Prop
  | nil (before : Text) : LowersFrom before [] []
  | cons {before behind piece rest : Text} {c : Char} (first : Lowers before behind c piece)
    (others : LowersFrom (before ++ [c]) behind rest) :
    LowersFrom before (c :: behind) (piece ++ rest)

theorem endsWord_iff (before behind : Text) :
    (casedNext before.reverse && !casedNext behind) = true ↔ EndsWord before behind := by
  rw [Bool.and_eq_true, Bool.not_eq_true', ← Bool.not_eq_true, casedNext_iff, casedNext_iff,
    EndsWord]

theorem lowers_iff {before behind piece : Text} {c : Char} :
    Lowers before behind c piece ↔ piece =
      if c = '\u0130' then ['i', '\u0307']
      else if c = '\u03A3' then
        if casedNext before.reverse && !casedNext behind then ['\u03C2'] else ['\u03C3']
      else [lowerChar c] := by
  constructor
  · rintro (_ | h | h | ⟨c, hdotted, hsigma⟩)
    · rfl
    · rw [if_pos ((endsWord_iff before behind).mpr h)]
      rfl
    · rw [if_neg fun he => h ((endsWord_iff before behind).mp he)]
      rfl
    · rw [if_neg hdotted, if_neg hsigma]
  · rintro rfl
    by_cases hdotted : c = '\u0130'
    · rw [if_pos hdotted, hdotted]
      exact .dotted
    rw [if_neg hdotted]
    by_cases hsigma : c = '\u03A3'
    · rw [if_pos hsigma, hsigma]
      split
      case isTrue h => exact .lastSigma ((endsWord_iff before behind).mp h)
      case isFalse h => exact .sigma fun he => h ((endsWord_iff before behind).mpr he)
    · rw [if_neg hsigma]
      exact .letter c hdotted hsigma

theorem lowersFrom_iff {before t lowered : Text} :
    LowersFrom before t lowered ↔ lowered = lowerAfter before.reverse t := by
  induction t generalizing before lowered with
  | nil =>
    constructor
    · rintro ⟨⟩
      rfl
    · rintro rfl
      exact .nil before
  | cons c t ih =>
    have hbefore : (before ++ [c]).reverse = c :: before.reverse := by simp
    rw [lowerAfter, ← hbefore]
    constructor
    · rintro (_ | ⟨hfirst, hothers⟩)
      rw [lowers_iff.mp hfirst, ih.mp hothers]
    · rintro rfl
      exact .cons (lowers_iff.mpr rfl) (ih.mpr rfl)

end LowerCase

theorem resolveLevel_eq_ok_iff {env : Environment} {l : Level} :
    resolveLevel env = .ok l ↔ env.Asks l := by
  rw [← Environment.threshold_eq_ok_iff, resolveLevel]
  cases env.threshold <;> simp

/-- Whatever is refused is quoted in lower case. -/
theorem resolveLevel_of_error {c : Char} {t : Text} {nodeEnv : Option Text}
    {issues : List Config.Issue} (h : resolveLevel ⟨some (c :: t), nodeEnv⟩ = .error issues) :
    issues = [.unknownLevel (lowerCase (c :: t))] := by
  simp only [resolveLevel, Environment.threshold] at h
  cases hfound : Level.ofName? (lowerCase (c :: t)) with
  | some l => simp [hfound] at h
  | none => simpa [hfound, eq_comm] using h

/-- What is said of a name that is no level: all levels there are, and the name. -/
theorem text_unknownLevel (received : Text) : (Config.Issue.unknownLevel received).text =
    "LOG_LEVEL: Invalid enum value. Expected 'fatal' | 'error' | 'warn' | ".toList ++
      "'info' | 'debug' | 'trace' | 'silent', received '".toList ++ received ++ ['\''] := by
  have hlevels : "LOG_LEVEL: Invalid enum value. Expected ".toList ++
      Config.quotedNames " | ".toList (Level.all.map Level.name) ++ ", received '".toList =
      "LOG_LEVEL: Invalid enum value. Expected 'fatal' | 'error' | 'warn' | ".toList ++
        "'info' | 'debug' | 'trace' | 'silent', received '".toList := by decide +kernel
  exact congrArg (· ++ received ++ ['\'']) hlevels

/-- A name that is given and not empty gets the level it spells in small letters and capitals of
ASCII, and no other. When it spells none, one fault is raised that quotes it in lower case. How the
environment is called makes no difference. -/
theorem resolveLevel_named (c : Char) (t : Text) (nodeEnv : Option Text) :
    (∀ l, resolveLevel ⟨some (c :: t), nodeEnv⟩ = .ok l ↔ SpelledAs l.name (c :: t)) ∧
      ∀ raised, (resolveLevel ⟨some (c :: t), nodeEnv⟩).mapError Config.invalid = .error raised ↔
        (∀ l : Level, ¬ SpelledAs l.name (c :: t)) ∧
          ∃ lowered, LowersFrom [] (c :: t) lowered ∧ raised = .config
            ["LOG_LEVEL: Invalid enum value. Expected 'fatal' | 'error' | 'warn' | ".toList ++
              "'info' | 'debug' | 'trace' | 'silent', received '".toList ++ lowered ++ ['\'']] := by
  have hok : ∀ l, resolveLevel ⟨some (c :: t), nodeEnv⟩ = .ok l ↔ SpelledAs l.name (c :: t) := by
    intro l
    rw [resolveLevel_eq_ok_iff, Environment.asks_iff]
  refine ⟨hok, fun raised => ?_⟩
  simp only [← hok, ← text_unknownLevel, lowersFrom_iff, exists_eq_left]
  cases hanswer : resolveLevel ⟨some (c :: t), nodeEnv⟩ with
  | ok l => simp [Except.mapError]
  | error issues =>
    obtain rfl := resolveLevel_of_error hanswer
    simp [Except.mapError, Config.invalid, lowerCase, eq_comm]

/-- A long s and a dotted capital I are no letters of a level, and no blank is passed over. A
capital sigma is quoted as the letter it becomes at the end of a word. -/
example : ["ſilent", "İNFO", " info", "WARNΣ"].map (fun t => resolveLevel ⟨some t.toList, none⟩) =
    ["ſilent", "i\u0307nfo", " info", "warnς"].map fun t => .error [.unknownLevel t.toList] := by
  decide +kernel

end NodeReshape
