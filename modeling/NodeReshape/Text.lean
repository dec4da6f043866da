/-! Text as a list of Unicode characters, and the few cuts that reading it needs.
`after?` removes a given beginning, `untilChar?` takes a non-empty run up to a stop character. -/
namespace NodeReshape

/-- A document, a name, a path or a message, character by character. The text is well-formed: no
surrogate stands in it outside a pair. Texts in which one does are lists of units; decoding the
bytes of a file never gives one. -/
abbrev Text := List Char

/-- What follows `lead`, when the list begins with it. -/
def after? {α : Type} [DecidableEq α] : List α → List α → Option (List α)
  | [], t => some t
  | _ :: _, [] => none
  | a :: lead, c :: t => if a = c then after? lead t else none

theorem after?_append {α : Type} [DecidableEq α] (lead t : List α) :
    after? lead (lead ++ t) = some t := by
  induction lead with
  | nil => simp [after?]
  | cons a lead ih => simp [after?, ih]

theorem after?_eq_some_iff {α : Type} [DecidableEq α] {lead t rest : List α} :
    after? lead t = some rest ↔ t = lead ++ rest := by
  constructor
  · intro h
    induction lead generalizing t with
    | nil => simpa [after?] using h
    | cons a lead ih =>
      cases t with
      | nil => simp [after?] at h
      | cons c t =>
        by_cases hc : a = c
        · subst hc
          simp only [after?, if_true] at h
          simp [ih h]
        · simp [after?, hc] at h
  · rintro rfl
    exact after?_append lead rest

/-- The non-empty run in front of the first `stop`, or of the end when there is none, and the
rest. -/
def untilChar? (stop : Char) (t : Text) : Option (Text × Text) :=
  let run := t.takeWhile (· != stop)
  if run = [] then none else some (run, t.dropWhile (· != stop))

theorem untilChar?_append {stop : Char} {t run rest : Text}
    (h : untilChar? stop t = some (run, rest)) : t = run ++ rest := by
  simp only [untilChar?, Option.ite_none_left_eq_some, Option.some.injEq, Prod.mk.injEq] at h
  obtain ⟨_, rfl, rfl⟩ := h
  exact List.takeWhile_append_dropWhile.symm

theorem untilChar?_stop {stop : Char} {run : Text} (t : Text) (hne : run ≠ [])
    (hs : stop ∉ run) : untilChar? stop (run ++ stop :: t) = some (run, stop :: t) := by
  have h : ∀ c ∈ run, (c != stop) = true := fun c hc => by
    simpa using fun e : c = stop => hs (e ▸ hc)
  simp only [untilChar?, List.takeWhile_append_of_pos h, List.dropWhile_append_of_pos h,
    List.takeWhile_cons, List.dropWhile_cons, bne_self_eq_false, Bool.false_eq_true, if_false,
    List.append_nil, hne]

theorem mem_untilChar? {stop : Char} {t run rest : Text}
    (h : untilChar? stop t = some (run, rest)) : run ≠ [] ∧ stop ∉ run := by
  simp only [untilChar?, Option.ite_none_left_eq_some, Option.some.injEq, Prod.mk.injEq] at h
  obtain ⟨hne, rfl, _⟩ := h
  refine ⟨hne, fun hm => ?_⟩
  have := List.all_eq_true.mp List.all_takeWhile stop hm
  simp at this

/-- Lines one under another, with a line feed between neighbours. -/
def joinLines (lines : List Text) : Text := List.intercalate ['\n'] lines

/-- The text of a number in decimal notation. -/
def natText (n : Nat) : Text := Nat.toDigits 10 n

end NodeReshape
