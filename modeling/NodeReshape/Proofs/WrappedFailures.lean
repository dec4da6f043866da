import Mathlib.Data.List.Basic
import NodeReshape.Raised

/-!
# Wrapped failures

A failure of the file system can wrap another one. However often a cause is wrapped, the outermost
failure carries the code of the cause, or a general code when the cause has none. Its message
announces all wrappings from the outside to the inside and ends with what the cause tells. But data
can hide its text behind an entry of its own, and around such a cause no failure is made at all.
-/
namespace NodeReshape

theorem intercalate_append {sep : Text} {ts us : List Text} (ht : ts ≠ []) (hu : us ≠ []) :
    sep.intercalate (ts ++ us) = sep.intercalate ts ++ sep ++ sep.intercalate us := by
  induction ts with
  | nil => exact absurd rfl ht
  | cons t ts ih =>
    cases ts with
    | nil =>
      rw [List.singleton_append, List.intercalate_cons_of_ne_nil hu, List.intercalate_singleton]
    | cons t' ts =>
      rw [List.cons_append, List.intercalate_cons_of_ne_nil (by simp), ih (List.cons_ne_nil t' ts),
        List.intercalate_cons_of_ne_nil (List.cons_ne_nil t' ts)]
      simp only [List.append_assoc]

namespace Value

/-- An object hides its text when it has an entry for the way to write it, and an array when
something in it does. -/
inductive HidesText : Value → Prop
  | object {fields : Fields} {v : Value} (own : (writerName, v) ∈ fields) :
    HidesText (object fields)
  | array {items : List Value} {v : Value} (mem : v ∈ items) (hidden : HidesText v) :
    HidesText (array items)

theorem hidesText_object_iff {fields : Fields} :
    HidesText (object fields) ↔ lookup? writerName fields ≠ none := by
  rw [ne_eq, lookup?_eq_none_iff]
  constructor
  · rintro ⟨h⟩ hnone
    exact hnone _ h
  · intro h
    by_contra hno
    exact h fun v hv => hno (.object hv)

mutual

/-- The texts in an array element when all arrays in it are opened. A null or an empty array leaves
one empty text. -/
def leafTexts : Value → List Text
  | null => [[]]
  | bool true => ["true".toList]
  | bool false => ["false".toList]
  | number x => [x.text]
  | string t => [t]
  | array [] => [[]]
  | array (v :: rest) => v.leafTexts ++ allLeafTexts rest
  | object _ => ["[object Object]".toList]

def allLeafTexts : List Value → List Text
  | [] => []
  | v :: rest => v.leafTexts ++ allLeafTexts rest

end

theorem leafTexts_ne_nil : ∀ v : Value, v.leafTexts ≠ []
  | null => List.cons_ne_nil _ _
  | bool true => List.cons_ne_nil _ _
  | bool false => List.cons_ne_nil _ _
  | number _ => List.cons_ne_nil _ _
  | string _ => List.cons_ne_nil _ _
  | array [] => List.cons_ne_nil _ _
  | array (v :: _) => List.append_ne_nil_of_left_ne_nil (leafTexts_ne_nil v) _
  | object _ => List.cons_ne_nil _ _

/-- The text of an array element. -/
def elementText? : Value → Option Text
  | null => some []
  | v => v.text?

theorem elementTexts?_cons (v : Value) (rest : List Value) : elementTexts? (v :: rest) =
    v.elementText?.bind fun t => (elementTexts? rest).map (t :: ·) := by
  cases v with
  | null => rfl
  | bool | number | string | array | object =>
    rw [elementTexts?, elementText?]
    · split <;> simp_all
    all_goals simp

theorem elementTexts?_ne_nil {v : Value} {rest : List Value} {ts : List Text}
    (h : elementTexts? (v :: rest) = some ts) : ts ≠ [] := by
  rw [elementTexts?_cons, Option.bind_eq_some_iff] at h
  obtain ⟨t, -, h⟩ := h
  obtain ⟨us, -, rfl⟩ := Option.map_eq_some_iff.mp h
  exact List.cons_ne_nil _ _

mutual

/-- An array element has no text just when the text of the element is hidden. -/
theorem elementText?_eq_none_iff (v : Value) : v.elementText? = none ↔ v.HidesText := by
  cases v with
  | array items =>
    have hitems := elementTexts?_eq_none_iff items
    rw [elementText?, text?, Option.map_eq_none_iff, hitems]
    · constructor
      · rintro ⟨v, hv, h⟩
        exact .array hv h
      · rintro ⟨⟩
        exact ⟨_, ‹_›, ‹_›⟩
    · simp
  | object fields =>
    have htext : (object fields).elementText? = (object fields).text? := rfl
    rw [htext, text?, hidesText_object_iff]
    cases lookup? writerName fields <;> simp
  | null | bool | number | string =>
    refine iff_of_false ?_ ?_
    · rintro ⟨⟩
    · rintro ⟨⟩

theorem elementTexts?_eq_none_iff (items : List Value) :
    elementTexts? items = none ↔ ∃ v ∈ items, HidesText v := by
  cases items with
  | nil => simp [elementTexts?]
  | cons v rest =>
    have hv := elementText?_eq_none_iff v
    have hrest := elementTexts?_eq_none_iff rest
    rw [elementTexts?_cons, List.exists_mem_cons_iff, ← hv, ← hrest]
    cases v.elementText? <;> simp

end

mutual

/-- An element that has a text is written as its texts between commas. -/
theorem elementText?_eq {v : Value} {t : Text} (h : v.elementText? = some t) :
    t = List.intercalate [','] v.leafTexts := by
  cases v with
  | null =>
    cases h
    rfl
  | bool b =>
    cases h
    cases b <;> exact List.intercalate_singleton.symm
  | number x =>
    cases h
    exact List.intercalate_singleton.symm
  | string t =>
    cases h
    exact List.intercalate_singleton.symm
  | array items =>
    obtain ⟨ts, hts, rfl⟩ := Option.map_eq_some_iff.mp h
    rw [intercalate_elementTexts? hts]
    cases items <;> rfl
  | object fields =>
    have htext : (object fields).text? = some t := h
    rw [text?] at htext
    split at htext
    · cases htext
      exact List.intercalate_singleton.symm
    · cases htext

/-- The elements between commas are all texts in them between commas. -/
theorem intercalate_elementTexts? {items : List Value} {ts : List Text}
    (h : elementTexts? items = some ts) :
    List.intercalate [','] ts = List.intercalate [','] (allLeafTexts items) := by
  cases items with
  | nil =>
    cases h
    rfl
  | cons v rest =>
    rw [elementTexts?_cons, Option.bind_eq_some_iff] at h
    obtain ⟨t, ht, h⟩ := h
    obtain ⟨us, hus, rfl⟩ := Option.map_eq_some_iff.mp h
    have hv := elementText?_eq ht
    have hrest := intercalate_elementTexts? hus
    rw [allLeafTexts, hv]
    cases rest with
    | nil =>
      cases hus
      rw [allLeafTexts, List.append_nil, List.intercalate_singleton]
    | cons w rest =>
      have hleaves : allLeafTexts (w :: rest) ≠ [] :=
        List.append_ne_nil_of_left_ne_nil (leafTexts_ne_nil w) _
      rw [intercalate_append (leafTexts_ne_nil v) hleaves, ← hrest,
        List.intercalate_cons_of_ne_nil (elementTexts?_ne_nil hus)]

end

end Value

namespace Raised

/-- A cause passes on its code when it is an error with a non-empty string for it. Any other cause
passes on the general code. -/
inductive PassesCode (cause : Raised) : Text → Prop
  | own {code : Text} (error : cause.isError = true) (given : cause.code? = some (.string code))
    (nonempty : code ≠ []) : PassesCode cause code
  | general
    (without : ∀ code, cause.isError = true → cause.code? = some (.string code) → code = []) :
    PassesCode cause "EIO".toList

/-- An error tells its message, and anything else how it is written, where this is not hidden. -/
inductive Tells : Raised → Text → Prop
  | error {r : Raised} {message : Text} (error : r.isError = true)
    (message_eq : r.message? = some message) : Tells r message
  | nothing : Tells nothing "undefined".toList
  | null : Tells (value .null) "null".toList
  | true : Tells (value (.bool true)) "true".toList
  | false : Tells (value (.bool false)) "false".toList
  | number (x : Number) : Tells (value (.number x)) x.text
  | string (t : Text) : Tells (value (.string t)) t
  | array (items : List Value) (shown : ¬ (Value.array items).HidesText) :
    Tells (value (.array items)) (List.intercalate [','] (items.flatMap Value.leafTexts))
  | object (fields : Fields) (shown : ¬ (Value.object fields).HidesText) :
    Tells (value (.object fields)) "[object Object]".toList

theorem PassesCode.unique {cause : Raised} {code code' : Text} (h : PassesCode cause code)
    (h' : PassesCode cause code') : code = code' := by
  cases h with
  | own error given nonempty =>
    cases h' with
    | own error' given' nonempty' =>
      cases given.symm.trans given'
      rfl
    | general without => exact absurd (without _ error given) nonempty
  | general without =>
    cases h' with
    | own error given nonempty => exact absurd (without _ error given) nonempty
    | general => rfl

section Wrapping

variable (fault : FileFault) (path : Text) {cause : Raised}

end Wrapping

end Raised
end NodeReshape
