import Mathlib.Data.List.Basic
import NodeReshape.Units
import NodeReshape.Utf8

/-!
# Text as 16-bit units

A character up to U+FFFF is one unit, and a character above is a high surrogate with a low one
behind it. The unit texts in which every surrogate stands in such a pair are those of characters. An
offset is inside a pair when it parts the two; no offset where characters meet does.
-/
namespace NodeReshape

def isHigh (u : UInt16) : Bool := 0xD800 ≤ u.toNat && u.toNat < 0xDC00

def isLow (u : UInt16) : Bool := 0xDC00 ≤ u.toNat && u.toNat < 0xE000

/-- The one or two units of a character. -/
def unitsOf (c : Char) : List UInt16 :=
  if c.toNat < 0x10000 then [UInt16.ofNat c.toNat]
  else
    [UInt16.ofNat (0xD800 + (c.toNat - 0x10000) / 0x400),
      UInt16.ofNat (0xDC00 + (c.toNat - 0x10000) % 0x400)]

def toUnits (t : Text) : List UInt16 := t.flatMap unitsOf

/-- Every surrogate stands in a pair. -/
def Paired : List UInt16 → Bool
  | [] => true
  | [u] => !isHigh u && !isLow u
  | u :: v :: us => if isHigh u then isLow v && Paired us else !isLow u && Paired (v :: us)

/-- The characters of a unit text, with U+FFFD for every surrogate outside a pair. -/
def ofUnits : List UInt16 → Text
  | [] => []
  | [u] => [if isHigh u || isLow u then Utf8.replacement else Char.ofNat u.toNat]
  | u :: v :: us =>
    if isHigh u && isLow v then
      Char.ofNat (0x10000 + (u.toNat - 0xD800) * 0x400 + (v.toNat - 0xDC00)) :: ofUnits us
    else
      (if isHigh u || isLow u then Utf8.replacement else Char.ofNat u.toNat) :: ofUnits (v :: us)

/-- The offset parts a high surrogate from the low one behind it. -/
def InsidePair (us : List UInt16) (offset : ℕ) : Prop :=
  ∃ before high low behind, us = before ++ high :: low :: behind ∧
    offset = before.length + 1 ∧ isHigh high = true ∧ isLow low = true

theorem isHigh_iff {u : UInt16} : isHigh u = true ↔ 0xD800 ≤ u.toNat ∧ u.toNat < 0xDC00 := by
  simp [isHigh]

theorem isLow_iff {u : UInt16} : isLow u = true ↔ 0xDC00 ≤ u.toNat ∧ u.toNat < 0xE000 := by
  simp [isLow]

theorem toNat_unit {n : ℕ} (h : n < 0x10000) : (UInt16.ofNat n).toNat = n := by
  simp [UInt16.toNat_ofNat', Nat.mod_eq_of_lt h]

@[simp] theorem toUnits_nil : toUnits [] = [] := rfl

@[simp] theorem toUnits_cons (c : Char) (t : Text) :
    toUnits (c :: t) = unitsOf c ++ toUnits t := rfl

@[simp] theorem toUnits_append (a b : Text) : toUnits (a ++ b) = toUnits a ++ toUnits b :=
  List.flatMap_append

/-- A character is one unit with its own number, or a pair. -/
theorem unitsOf_cases (c : Char) :
    (∃ u, unitsOf c = [u] ∧ u.toNat = c.toNat ∧ isHigh u = false ∧ isLow u = false) ∨
      ∃ high low, unitsOf c = [high, low] ∧ isHigh high = true ∧ isLow low = true ∧
        c.toNat = 0x10000 + (high.toNat - 0xD800) * 0x400 + (low.toNat - 0xDC00) := by
  have hv := Utf8.toNat_valid c
  unfold unitsOf
  by_cases h : c.toNat < 0x10000
  · have hu := toNat_unit h
    refine .inl ⟨_, if_pos h, hu, ?_, ?_⟩
    · rw [← Bool.not_eq_true, isHigh_iff]
      omega
    · rw [← Bool.not_eq_true, isLow_iff]
      omega
  · have hhigh := toNat_unit (n := 0xD800 + (c.toNat - 0x10000) / 0x400) (by omega)
    have hlow := toNat_unit (n := 0xDC00 + (c.toNat - 0x10000) % 0x400) (by omega)
    refine .inr ⟨_, _, if_neg h, ?_, ?_, ?_⟩
    · rw [isHigh_iff]
      omega
    · rw [isLow_iff]
      omega
    · rw [hhigh, hlow]
      omega

theorem length_unitsOf (c : Char) : (unitsOf c).length = width c := by
  unfold unitsOf width
  split <;> rfl

theorem length_toUnits (t : Text) : (toUnits t).length = units t := by
  induction t with
  | nil => rfl
  | cons c t ih => rw [toUnits_cons, List.length_append, length_unitsOf, ih, units_cons]

theorem not_isLow_of_isHigh {u : UInt16} (h : isHigh u = true) : isLow u = false := by
  rw [isHigh_iff] at h
  rw [← Bool.not_eq_true, isLow_iff]
  omega

theorem paired_pair {u v : UInt16} (us : List UInt16) (hu : isHigh u = true)
    (hv : isLow v = true) : Paired (u :: v :: us) = Paired us := by
  simp [Paired, hu, hv]

theorem paired_cons {u : UInt16} (us : List UInt16) (hu : isHigh u = false)
    (hl : isLow u = false) : Paired (u :: us) = Paired us := by
  cases us <;> simp [Paired, hu, hl]

theorem ofUnits_pair {u v : UInt16} (us : List UInt16) (hu : isHigh u = true)
    (hv : isLow v = true) : ofUnits (u :: v :: us) =
      Char.ofNat (0x10000 + (u.toNat - 0xD800) * 0x400 + (v.toNat - 0xDC00)) :: ofUnits us := by
  simp [ofUnits, hu, hv]

theorem ofUnits_cons {u : UInt16} (us : List UInt16) (hu : isHigh u = false)
    (hl : isLow u = false) : ofUnits (u :: us) = Char.ofNat u.toNat :: ofUnits us := by
  cases us <;> simp [ofUnits, hu, hl]

theorem paired_toUnits (t : Text) : Paired (toUnits t) = true := by
  induction t with
  | nil => rfl
  | cons c t ih =>
    rw [toUnits_cons]
    rcases unitsOf_cases c with ⟨u, he, -, hu, hl⟩ | ⟨u, v, he, hu, hv, -⟩
    · rw [he, List.singleton_append, paired_cons _ hu hl, ih]
    · rw [he, List.cons_append, List.singleton_append, paired_pair _ hu hv, ih]

theorem ofUnits_toUnits (t : Text) : ofUnits (toUnits t) = t := by
  induction t with
  | nil => rfl
  | cons c t ih =>
    rw [toUnits_cons]
    rcases unitsOf_cases c with ⟨u, he, hn, hu, hl⟩ | ⟨u, v, he, hu, hv, hn⟩
    · rw [he, List.singleton_append, ofUnits_cons _ hu hl, ih, hn, Char.ofNat_toNat]
    · rw [he, List.cons_append, List.singleton_append, ofUnits_pair _ hu hv, ih, ← hn,
        Char.ofNat_toNat]

theorem toNat_ofNat_of_valid {n : ℕ} (h : n.isValidChar) : (Char.ofNat n).toNat = n := by
  rw [Char.ofNat, dif_pos h]
  rfl

theorem unitsOf_ofNat {u : UInt16} (hu : isHigh u = false) (hl : isLow u = false) :
    unitsOf (Char.ofNat u.toNat) = [u] := by
  have hlt := u.toNat_lt
  have hvalid : u.toNat.isValidChar := by
    rw [← Bool.not_eq_true, isHigh_iff] at hu
    rw [← Bool.not_eq_true, isLow_iff] at hl
    simp only [Nat.isValidChar]
    omega
  rw [unitsOf, toNat_ofNat_of_valid hvalid, if_pos u.toNat_lt, UInt16.ofNat_toNat]

theorem unitsOf_ofNat_pair {u v : UInt16} (hu : isHigh u = true) (hv : isLow v = true) :
    unitsOf (Char.ofNat (0x10000 + (u.toNat - 0xD800) * 0x400 + (v.toNat - 0xDC00))) = [u, v] := by
  rw [isHigh_iff] at hu
  rw [isLow_iff] at hv
  generalize hn : 0x10000 + (u.toNat - 0xD800) * 0x400 + (v.toNat - 0xDC00) = n
  have hvalid : n.isValidChar := by
    simp only [Nat.isValidChar]
    omega
  have hhigh : 0xD800 + (n - 0x10000) / 0x400 = u.toNat := by omega
  have hlow : 0xDC00 + (n - 0x10000) % 0x400 = v.toNat := by omega
  rw [unitsOf, toNat_ofNat_of_valid hvalid, if_neg (by omega), hhigh, hlow, UInt16.ofNat_toNat,
    UInt16.ofNat_toNat]

/-- A unit text with all surrogates in pairs is that of its characters. -/
theorem toUnits_ofUnits {us : List UInt16} (h : Paired us = true) : toUnits (ofUnits us) = us := by
  fun_induction ofUnits us with
  | case1 => rfl
  | case2 u =>
    simp only [Paired, Bool.and_eq_true, Bool.not_eq_true'] at h
    simp [h.1, h.2, unitsOf_ofNat h.1 h.2]
  | case3 u v us hpair ih =>
    rw [Bool.and_eq_true] at hpair
    rw [paired_pair us hpair.1 hpair.2] at h
    rw [toUnits_cons, unitsOf_ofNat_pair hpair.1 hpair.2, ih h]
    rfl
  | case4 u v us hpair ih =>
    have hu : isHigh u = false := by
      by_contra hu
      rw [Bool.not_eq_false] at hu
      simp_all [Paired]
    have hl : isLow u = false := by simp_all [Paired]
    rw [paired_cons _ hu hl] at h
    simp [hu, hl, unitsOf_ofNat hu hl, ih h]

/-- No pair is parted where characters meet. -/
theorem not_insidePair (a b : Text) : ¬ InsidePair (toUnits (a ++ b)) (units a) := by
  rintro ⟨before, high, low, behind, he, hn, hhigh, -⟩
  rw [toUnits_append, List.append_cons] at he
  have hlast : toUnits a = before ++ [high] := by
    refine (List.append_inj he ?_).1
    simp [length_toUnits, hn]
  rcases List.eq_nil_or_concat' a with rfl | ⟨a, c, rfl⟩
  · simp at hlast
  · rw [toUnits_append, toUnits_cons, toUnits_nil, List.append_nil] at hlast
    rcases unitsOf_cases c with ⟨u, hc, -, hu, -⟩ | ⟨u, v, hc, -, hv, -⟩
    · rw [hc] at hlast
      obtain rfl := List.singleton_inj.mp (List.append_inj' hlast rfl).2
      simp [hhigh] at hu
    · rw [hc, List.append_cons] at hlast
      obtain rfl := List.singleton_inj.mp (List.append_inj' hlast rfl).2
      simp [not_isLow_of_isHigh hhigh] at hv

end NodeReshape
