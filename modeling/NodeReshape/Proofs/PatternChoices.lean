import Mathlib.Data.List.Basic
import NodeReshape.Matcher

/-!
# The old shape as a pattern with choices

A part of a pattern may take more or less of a text, and a choice that fails later is taken back.
The old shape leaves nothing to choose: behind every repetition stands a character that it cannot
take, so one scan that never goes back finds the same as all choices together. Texts are lists over
any alphabet whose members have numbers; characters are one, and so are 16-bit units.
-/
namespace NodeReshape

/-- A part of a pattern: a word, any number of blanks, or a run of one or more members other than a
stop. What stands between `opening` and `closing` is captured. -/
inductive Part where
  | word (w : Text)
  | blanks
  | run (stop : Char)
  | opening
  | closing
  deriving DecidableEq

namespace Part

/-- The part as it is written in a regular expression. -/
def source : Part → Text
  | word w => w.flatMap fun c => if c = '(' ∨ c = ')' then ['\\', c] else [c]
  | blanks => "\\s*".toList
  | run stop => "[^".toList ++ stop :: "]+".toList
  | opening => "(".toList
  | closing => ")".toList

end Part

/-- A key, its quoted value and a comma. -/
def entryShape (key : Text) : List Part :=
  [.blanks, .word key, .blanks, .word ['"'], .opening, .run '"', .closing, .word ['"', ',']]

/-- The entry of `inner`, up to the first closing parenthesis. -/
def innerShape : List Part :=
  [.blanks, .word OldNode.innerKey, .blanks, .opening, .word ['('], .run ')', .word [')'], .closing]

def oldShape : List Part :=
  .word ['('] :: (entryShape OldNode.nameKey ++ (entryShape OldNode.tyKey ++ innerShape))

theorem source_oldShape : oldShape.flatMap Part.source = Matcher.source := by decide

variable {α β : Type}

/-- The ways to split off a beginning that satisfies a condition, the longest first. -/
def splits (p : α → Bool) : List α → List (List α × List α)
  | [] => [([], [])]
  | a :: t =>
    if p a then (splits p t).map (fun s => (a :: s.1, s.2)) ++ [([], a :: t)] else [([], a :: t)]

/-- The ways that lead on behind a split are those behind the longest one, when nothing leads on
from a member that could still be split off. -/
theorem flatMap_splits {p : α → Bool} {f : List α × List α → List β}
    (h : ∀ x a t, p a = true → f (x, a :: t) = []) (t : List α) :
    (splits p t).flatMap f = f (t.takeWhile p, t.dropWhile p) := by
  induction t generalizing f with
  | nil => simp [splits]
  | cons a t ih =>
    by_cases ha : p a = true
    · have hrest := ih (f := fun s => f (a :: s.1, s.2)) fun x b t hb => h (a :: x) b t hb
      simp only [splits, ha, if_true, List.flatMap_append, List.flatMap_map, hrest,
        List.flatMap_cons, List.flatMap_nil, List.append_nil, h [] a t ha,
        List.takeWhile_cons_of_pos, List.dropWhile_cons_of_pos]
    · simp [splits, ha]

section Alphabet

variable (number : α → ℕ)

/-- What follows a word, together with the word as it stands there. -/
def takeWord : Text → List α → Option (List α × List α)
  | [], t => some ([], t)
  | _ :: _, [] => none
  | c :: w, a :: t =>
    if number a = c.toNat then (takeWord w t).map fun s => (a :: s.1, s.2) else none

/-- The member is a blank character; a number that no character has is not one. -/
def isBlankMember (a : α) : Bool := isBlank (Char.ofNat (number a))

def differs (stop : Char) (a : α) : Bool := number a != stop.toNat

namespace Part

/-- What a part can take off the front of a text and what is left, the longest first. -/
def ways : Part → List α → List (List α × List α)
  | word w, t => (takeWord number w t).toList
  | blanks, t => splits (isBlankMember number) t
  | run _, [] => []
  | run stop, a :: t =>
    if differs number stop a then
      (splits (differs number stop) t).map fun s => (a :: s.1, s.2)
    else []
  | opening, t => [([], t)]
  | closing, t => [([], t)]

/-- The longest that a part can take off the front of a text, and what is left. -/
def longest? : Part → List α → Option (List α × List α)
  | word w, t => takeWord number w t
  | blanks, t => some (t.takeWhile (isBlankMember number), t.dropWhile (isBlankMember number))
  | run _, [] => none
  | run stop, a :: t =>
    if differs number stop a then
      some (a :: t.takeWhile (differs number stop), t.dropWhile (differs number stop))
    else none
  | opening, t => some ([], t)
  | closing, t => some ([], t)

end Part

/-- All ways to take the parts of a pattern off the front of a text, in the order in which they are
tried, each with what is left. -/
def choices : List Part → List α → List (List (List α) × List α)
  | [], t => [([], t)]
  | i :: p, t => (i.ways number t).flatMap fun s =>
    (choices p s.2).map fun r => (s.1 :: r.1, r.2)

/-- One scan in which every part takes the longest it can. -/
def greedy? : List Part → List α → Option (List (List α) × List α)
  | [], t => some ([], t)
  | i :: p, t => (i.longest? number t).bind fun s =>
    (greedy? p s.2).map fun r => (s.1 :: r.1, r.2)

end Alphabet

/-- The pattern goes on with a character whose number is not among these. -/
def GoesOnOutside (among : ℕ → Bool) : List Part → Bool
  | .word (c :: _) :: _ => !among c.toNat
  | .opening :: p => GoesOnOutside among p
  | .closing :: p => GoesOnOutside among p
  | _ => false

/-- Behind every repetition stands a character that it cannot take. -/
def Decisive : List Part → Bool
  | [] => true
  | .blanks :: p => GoesOnOutside (fun n => isBlank (Char.ofNat n)) p && Decisive p
  | .run stop :: p => GoesOnOutside (fun n => n != stop.toNat) p && Decisive p
  | _ :: p => Decisive p

theorem decisive_oldShape : Decisive oldShape = true := by decide

section Alphabet

variable {number : α → ℕ}

theorem choices_eq_nil {among : ℕ → Bool} {p : List Part} (h : GoesOnOutside among p = true)
    {a : α} (t : List α) (ha : among (number a) = true) : choices number p (a :: t) = [] := by
  induction p with
  | nil => simp [GoesOnOutside] at h
  | cons i p ih =>
    cases i with
    | word w =>
      cases w with
      | nil => simp [GoesOnOutside] at h
      | cons c w =>
        have hc : number a ≠ c.toNat := fun hc => by simp [GoesOnOutside, ← hc, ha] at h
        simp [choices, Part.ways, takeWord, hc]
    | blanks => simp [GoesOnOutside] at h
    | run stop => simp [GoesOnOutside] at h
    | opening => simp [choices, Part.ways, ih h]
    | closing => simp [choices, Part.ways, ih h]

/-- Nothing is lost when the first part of a decisive pattern takes the longest it can. -/
theorem flatMap_ways {i : Part} {p : List Part} (h : Decisive (i :: p) = true) (t : List α)
    {f : List α → List (List α) × List α → β} :
    (i.ways number t).flatMap (fun s => (choices number p s.2).map (f s.1)) =
      (i.longest? number t).toList.flatMap fun s => (choices number p s.2).map (f s.1) := by
  cases i with
  | word w => rfl
  | blanks =>
    simp only [Decisive, Bool.and_eq_true] at h
    have hstop : ∀ x a t, isBlankMember number a = true →
        (choices number p (a :: t)).map (f x) = [] := fun x a t ha => by
      rw [choices_eq_nil h.1 t ha, List.map_nil]
    rw [Part.ways, flatMap_splits hstop, Part.longest?]
    simp
  | run stop =>
    simp only [Decisive, Bool.and_eq_true] at h
    cases t with
    | nil => rfl
    | cons a t =>
      have hstop : ∀ x b t, differs number stop b = true →
          (choices number p (b :: t)).map (f (a :: x)) = [] := fun x b t hb => by
        rw [choices_eq_nil h.1 t hb, List.map_nil]
      rw [Part.ways, Part.longest?]
      split
      · rw [List.flatMap_map, flatMap_splits hstop]
        simp
      · rfl
  | opening => rfl
  | closing => rfl

/-- A decisive pattern has one choice at most, and a scan that never goes back finds it. -/
theorem choices_eq_greedy? {p : List Part} (h : Decisive p = true) (t : List α) :
    choices number p t = (greedy? number p t).toList := by
  induction p generalizing t with
  | nil => rfl
  | cons i p ih =>
    have hp : Decisive p = true := by
      cases i <;> simp_all [Decisive]
    refine (flatMap_ways h t (f := fun x r => (x :: r.1, r.2))).trans ?_
    simp only [greedy?, Option.toList_bind, Function.comp_def, Option.toList_map, ih hp]

end Alphabet

section Characters

theorem isBlankMember_char (c : Char) : isBlankMember Char.toNat c = isBlank c := by
  rw [isBlankMember, Char.ofNat_toNat]

theorem differs_char (stop c : Char) : differs Char.toNat stop c = (c != stop) := by
  rw [differs, Bool.eq_iff_iff]
  simp [Char.toNat_inj]

theorem takeWord_char (w t : Text) :
    takeWord Char.toNat w t = (after? w t).map fun rest => (w, rest) := by
  induction w generalizing t with
  | nil => rfl
  | cons c w ih =>
    cases t with
    | nil => rfl
    | cons a t =>
      by_cases h : c = a
      · subst h
        simp [takeWord, after?, ih, Function.comp_def]
      · have hne : a.toNat ≠ c.toNat := fun hn => h (Char.toNat_inj.mp hn).symm
        simp [takeWord, after?, h, hne]

theorem longest?_blanks_char (t : Text) :
    Part.blanks.longest? Char.toNat t = some (blanks t, skipBlanks t) := by
  have hb : isBlankMember Char.toNat = isBlank := funext isBlankMember_char
  rw [Part.longest?, hb, blanks, skipBlanks]

theorem longest?_run_char (stop : Char) (t : Text) :
    (Part.run stop).longest? Char.toNat t = untilChar? stop t := by
  have hd : differs Char.toNat stop = fun c => c != stop := funext (differs_char stop)
  cases t with
  | nil => rfl
  | cons a t => by_cases h : a = stop <;> simp [Part.longest?, untilChar?, hd, h]

theorem longest?_word_char (w t : Text) :
    (Part.word w).longest? Char.toNat t = (after? w t).map fun rest => (w, rest) :=
  takeWord_char w t

theorem longest?_opening_char (t : Text) : Part.opening.longest? Char.toNat t = some ([], t) := rfl

theorem longest?_closing_char (t : Text) : Part.closing.longest? Char.toNat t = some ([], t) := rfl

end Characters

theorem greedy?_append (number : α → ℕ) (p q : List Part) (t : List α) :
    greedy? number (p ++ q) t = (greedy? number p t).bind fun r =>
      (greedy? number q r.2).map fun r' => (r.1 ++ r'.1, r'.2) := by
  induction p generalizing t with
  | nil => simp [greedy?]
  | cons i p ih =>
    simp only [List.cons_append, greedy?, ih, Option.bind_assoc, Option.map_bind, Option.bind_map,
      Function.comp_def, Option.map_map]

/-- The texts that the parts of an entry take of it. -/
def QuotedEntry.pieces (key : Text) (e : QuotedEntry) : List Text :=
  [e.gap, key, e.valueGap, ['"'], [], e.value, [], ['"', ',']]

/-- The texts that the parts of the old shape take of a node. -/
def OldNode.pieces (n : OldNode) : List Text :=
  ['('] :: (n.nameEntry.pieces nameKey ++ (n.tyEntry.pieces tyKey ++
    [n.innerGap, innerKey, n.innerValueGap, [], ['('], n.body, [')'], []]))

theorem OldNode.flatten_pieces (n : OldNode) : n.pieces.flatten = n.spelling := by
  simp [pieces, QuotedEntry.pieces, spelling, QuotedEntry.spelling, inner]

theorem greedy?_entryShape (key t : Text) : greedy? Char.toNat (entryShape key) t =
    (QuotedEntry.read? key t).map fun r => (r.1.pieces key, r.2) := by
  simp only [entryShape, greedy?, longest?_blanks_char, longest?_word_char, longest?_run_char,
    longest?_opening_char, longest?_closing_char, Option.bind_some, Option.bind_map,
    Option.map_bind, Option.map_some, Function.comp_def, QuotedEntry.read?, Option.bind_eq_bind,
    Option.pure_def]
  rfl

theorem greedy?_oldShape (t : Text) :
    greedy? Char.toNat oldShape t = (OldNode.read? t).map fun r => (r.1.pieces, r.2) := by
  rw [oldShape, greedy?]
  simp only [greedy?_append, greedy?_entryShape, innerShape, greedy?, longest?_blanks_char,
    longest?_word_char, longest?_run_char, longest?_opening_char, longest?_closing_char,
    Option.bind_some, Option.bind_map, Option.map_bind, Option.map_some, Function.comp_def,
    OldNode.read?, Option.bind_eq_bind, Option.pure_def]
  rfl

end NodeReshape
