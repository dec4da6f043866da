import NodeReshape.Text

/-! Offsets and lengths count 16-bit units: a character takes one unit, or two above U+FFFF.
A cut at an offset inside a character is moved to the end of that character. -/
namespace NodeReshape

def width (c : Char) : Nat := if c.toNat < 0x10000 then 1 else 2

theorem width_pos (c : Char) : 0 < width c := by unfold width; split <;> decide

def units : Text → Nat
  | [] => 0
  | c :: t => width c + units t

@[simp] theorem units_nil : units [] = 0 := rfl
@[simp] theorem units_cons (c : Char) (t : Text) : units (c :: t) = width c + units t := rfl

@[simp] theorem units_append (a b : Text) : units (a ++ b) = units a + units b := by
  induction a with
  | nil => simp
  | cons c a ih => simp [ih, Nat.add_assoc]

theorem length_le_units (t : Text) : t.length ≤ units t := by
  induction t with
  | nil => simp
  | cons c t ih => have := width_pos c; simp only [List.length_cons, units_cons]; omega

/-- The first `n` units. -/
def takeUnits : Nat → Text → Text
  | 0, _ => []
  | _ + 1, [] => []
  | n + 1, c :: t => c :: takeUnits (n + 1 - width c) t

/-- All but the first `n` units. -/
def dropUnits : Nat → Text → Text
  | 0, t => t
  | _ + 1, [] => []
  | n + 1, c :: t => dropUnits (n + 1 - width c) t

theorem takeUnits_append_dropUnits (n : Nat) (t : Text) : takeUnits n t ++ dropUnits n t = t := by
  induction t generalizing n with
  | nil => cases n <;> simp [takeUnits, dropUnits]
  | cons c t ih => cases n <;> simp [takeUnits, dropUnits, ih]

theorem takeUnits_units (a b : Text) : takeUnits (units a) (a ++ b) = a := by
  induction a with
  | nil => cases b <;> rfl
  | cons c a ih =>
    obtain ⟨k, hk⟩ : ∃ k, units (c :: a) = k + 1 :=
      ⟨width c + units a - 1, by have := width_pos c; simp only [units_cons]; omega⟩
    have hs : k + 1 - width c = units a := by simp only [units_cons] at hk; omega
    rw [hk, List.cons_append, takeUnits, hs, ih]

theorem dropUnits_units (a b : Text) : dropUnits (units a) (a ++ b) = b := by
  have h := takeUnits_append_dropUnits (units a) (a ++ b)
  rw [takeUnits_units] at h
  exact List.append_cancel_left h

end NodeReshape
