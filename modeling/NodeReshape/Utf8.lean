import NodeReshape.Text

/-! Text as bytes in UTF-8, and back. Decoding never fails: a longest beginning of a character that
is not completed, and a byte that begins none, are each read as one U+FFFD. A byte order mark is
read as the character it is. Decoding undoes encoding on every text. -/
namespace NodeReshape

abbrev Bytes := List UInt8

namespace Utf8

/-- One byte that continues a character: the lowest six bits of `n`. -/
def continuation (n : Nat) : UInt8 := UInt8.ofNat (0x80 + n % 64)

/-- The one to four bytes of a character. -/
def encodeChar (c : Char) : Bytes :=
  let n := c.toNat
  if n < 0x80 then [UInt8.ofNat n]
  else if n < 0x800 then [UInt8.ofNat (0xC0 + n / 64), continuation n]
  else if n < 0x10000 then
    [UInt8.ofNat (0xE0 + n / 4096), continuation (n / 64), continuation n]
  else
    [UInt8.ofNat (0xF0 + n / 262144), continuation (n / 4096), continuation (n / 64),
      continuation n]

def encode (t : Text) : Bytes := t.flatMap encodeChar

/-- A character of which the last `missing` bytes are still to come. The next one must lie between
`low` and `high`, which rules out overlong forms, surrogates and numbers above U+10FFFF. -/
structure Partial where
  value : Nat
  missing : Nat
  low : Nat
  high : Nat

/-- Read in place of bytes that form no character. -/
def replacement : Char := '\uFFFD'

/-- What the first byte of a character begins: a character of its own, or a longer one. -/
def start (b : UInt8) : Char ⊕ Partial :=
  let n := b.toNat
  if n < 0x80 then .inl (Char.ofNat n)
  else if n < 0xC2 then .inl replacement
  else if n < 0xE0 then .inr ⟨n - 0xC0, 1, 0x80, 0xBF⟩
  else if n < 0xF0 then
    .inr ⟨n - 0xE0, 2, if n = 0xE0 then 0xA0 else 0x80, if n = 0xED then 0x9F else 0xBF⟩
  else if n < 0xF5 then
    .inr ⟨n - 0xF0, 3, if n = 0xF0 then 0x90 else 0x80, if n = 0xF4 then 0x8F else 0xBF⟩
  else .inl replacement

/-- The text of the bytes behind the beginning of a character. -/
def decodeFrom : Option Partial → Bytes → Text
  | none, [] => []
  | some _, [] => [replacement]
  | none, b :: rest =>
    match start b with
    | .inl c => c :: decodeFrom none rest
    | .inr p => decodeFrom (some p) rest
  | some p, b :: rest =>
    if p.low ≤ b.toNat ∧ b.toNat ≤ p.high then
      let value := p.value * 64 + b.toNat % 64
      if p.missing ≤ 1 then Char.ofNat value :: decodeFrom none rest
      else decodeFrom (some ⟨value, p.missing - 1, 0x80, 0xBF⟩) rest
    else
      match start b with
      | .inl c => replacement :: c :: decodeFrom none rest
      | .inr q => replacement :: decodeFrom (some q) rest

def decode (bytes : Bytes) : Text := decodeFrom none bytes

/-- The bytes are the encoding of a text, namely of the one they decode to. -/
def WellFormed (bytes : Bytes) : Prop := encode (decode bytes) = bytes

instance (bytes : Bytes) : Decidable (WellFormed bytes) :=
  inferInstanceAs (Decidable (_ = _))

def size (t : Text) : Nat := (encode t).length

theorem toNat_ofNat_of_lt {n : Nat} (h : n < 256) : (UInt8.ofNat n).toNat = n := by
  simp [UInt8.toNat_ofNat', Nat.mod_eq_of_lt h]

theorem toNat_continuation (n : Nat) : (continuation n).toNat = 0x80 + n % 64 :=
  toNat_ofNat_of_lt (by omega)

theorem toNat_valid (c : Char) : c.toNat < 0xD800 ∨ 0xDFFF < c.toNat ∧ c.toNat < 0x110000 := c.valid

theorem decodeFrom_last {p : Partial} {b : UInt8} (rest : Bytes) (h : p.missing ≤ 1)
    (hl : p.low ≤ b.toNat) (hh : b.toNat ≤ p.high) :
    decodeFrom (some p) (b :: rest) =
      Char.ofNat (p.value * 64 + b.toNat % 64) :: decodeFrom none rest := by
  simp [decodeFrom, h, hl, hh]

theorem decodeFrom_more {p : Partial} {b : UInt8} (rest : Bytes) (h : ¬ p.missing ≤ 1)
    (hl : p.low ≤ b.toNat) (hh : b.toNat ≤ p.high) :
    decodeFrom (some p) (b :: rest) =
      decodeFrom (some ⟨p.value * 64 + b.toNat % 64, p.missing - 1, 0x80, 0xBF⟩) rest := by
  simp [decodeFrom, h, hl, hh]

theorem decodeFrom_start {b : UInt8} {p : Partial} (rest : Bytes) (h : start b = .inr p) :
    decodeFrom none (b :: rest) = decodeFrom (some p) rest := by
  simp [decodeFrom, h]

theorem start_ascii {n : Nat} (h : n < 0x80) : start (UInt8.ofNat n) = .inl (Char.ofNat n) := by
  have hb := toNat_ofNat_of_lt (n := n) (by omega)
  simp [start, hb, h]

theorem start_two {k : Nat} (h : 2 ≤ k) (h' : k < 0x20) :
    start (UInt8.ofNat (0xC0 + k)) = .inr ⟨k, 1, 0x80, 0xBF⟩ := by
  have hb := toNat_ofNat_of_lt (n := 0xC0 + k) (by omega)
  have h1 : ¬ 0xC0 + k < 0x80 := by omega
  have h2 : ¬ 0xC0 + k < 0xC2 := by omega
  have h3 : 0xC0 + k < 0xE0 := by omega
  simp only [start, hb, h1, h2, h3, if_true, if_false]
  simp

theorem start_three {k : Nat} (h : k < 0x10) :
    start (UInt8.ofNat (0xE0 + k)) =
      .inr ⟨k, 2, if k = 0 then 0xA0 else 0x80, if k = 0xD then 0x9F else 0xBF⟩ := by
  have hb := toNat_ofNat_of_lt (n := 0xE0 + k) (by omega)
  have h1 : ¬ 0xE0 + k < 0x80 := by omega
  have h2 : ¬ 0xE0 + k < 0xC2 := by omega
  have h3 : ¬ 0xE0 + k < 0xE0 := by omega
  have h4 : 0xE0 + k < 0xF0 := by omega
  have e1 : (0xE0 + k = 0xE0) = (k = 0) := by simp
  have e2 : (0xE0 + k = 0xED) = (k = 0xD) := by apply propext; omega
  simp only [start, hb, h1, h2, h3, h4, if_true, if_false, e1, e2]
  simp

theorem start_four {k : Nat} (h : k < 5) :
    start (UInt8.ofNat (0xF0 + k)) =
      .inr ⟨k, 3, if k = 0 then 0x90 else 0x80, if k = 4 then 0x8F else 0xBF⟩ := by
  have hb := toNat_ofNat_of_lt (n := 0xF0 + k) (by omega)
  have h1 : ¬ 0xF0 + k < 0x80 := by omega
  have h2 : ¬ 0xF0 + k < 0xC2 := by omega
  have h3 : ¬ 0xF0 + k < 0xE0 := by omega
  have h4 : ¬ 0xF0 + k < 0xF0 := by omega
  have h5 : 0xF0 + k < 0xF5 := by omega
  have e1 : (0xF0 + k = 0xF0) = (k = 0) := by simp
  have e2 : (0xF0 + k = 0xF4) = (k = 4) := by apply propext; omega
  simp only [start, hb, h1, h2, h3, h4, h5, if_true, if_false, e1, e2]
  simp

theorem decodeFrom_encodeChar (c : Char) (rest : Bytes) :
    decodeFrom none (encodeChar c ++ rest) = c :: decodeFrom none rest := by
  have hv := toNat_valid c
  have hc : Char.ofNat c.toNat = c := Char.ofNat_toNat c
  unfold encodeChar
  generalize c.toNat = n at hv hc
  by_cases h1 : n < 0x80
  · simp [h1, decodeFrom, start_ascii h1, hc]
  by_cases h2 : n < 0x800
  · simp only [h1, h2, if_true, if_false, List.cons_append, List.nil_append]
    rw [decodeFrom_start _ (start_two (by omega) (by omega)),
      decodeFrom_last _ (by simp) (by simp [toNat_continuation])
        (by simp [toNat_continuation]; omega)]
    rw [toNat_continuation, ← hc]
    congr 2
    simp only
    omega
  by_cases h3 : n < 0x10000
  · simp only [h1, h2, h3, if_true, if_false, List.cons_append, List.nil_append]
    rw [decodeFrom_start _ (start_three (by omega)),
      decodeFrom_more _ (by simp)
        (by simp only [toNat_continuation]; split <;> omega)
        (by simp only [toNat_continuation]; split <;> omega),
      decodeFrom_last _ (by simp) (by simp [toNat_continuation])
        (by simp [toNat_continuation]; omega)]
    rw [toNat_continuation, toNat_continuation, ← hc]
    congr 2
    simp only
    omega
  · simp only [h1, h2, h3, if_false, List.cons_append, List.nil_append]
    rw [decodeFrom_start _ (start_four (by omega)),
      decodeFrom_more _ (by simp)
        (by simp only [toNat_continuation]; split <;> omega)
        (by simp only [toNat_continuation]; split <;> omega),
      decodeFrom_more _ (by simp) (by simp [toNat_continuation])
        (by simp [toNat_continuation]; omega),
      decodeFrom_last _ (by simp) (by simp [toNat_continuation])
        (by simp [toNat_continuation]; omega)]
    rw [toNat_continuation, toNat_continuation, toNat_continuation, ← hc]
    congr 2
    simp only
    omega

theorem decode_encode (t : Text) : decode (encode t) = t := by
  induction t with
  | nil => rfl
  | cons c t ih =>
    simp only [decode, encode, List.flatMap_cons] at ih ⊢
    rw [decodeFrom_encodeChar, ih]

theorem wellFormed_encode (t : Text) : WellFormed (encode t) := by
  rw [WellFormed, decode_encode]

end Utf8
end NodeReshape
