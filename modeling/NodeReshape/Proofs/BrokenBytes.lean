import NodeReshape.Proofs.UnitText

/-!
# Bytes that form no character

How any bytes are read, said without a decoder. A character is read from its own bytes. Where none
stands, the longest stretch that begins some character is passed over, or a single byte when there
is none, and U+FFFD is read in its place. Decoding reads all bytes in this way, and there is no
other.
-/
namespace NodeReshape
namespace Utf8

/-- Some character begins with these bytes. -/
def Begins (bytes : Bytes) : Prop := ∃ c more, encodeChar c = bytes ++ more

/-- The bytes in front of `rest` that are passed over together. No character stands there, and a
longer stretch begins none. -/
structure Broken (bytes rest : Bytes) : Prop where
  noCharacter : ∀ c more, bytes ++ rest ≠ encodeChar c ++ more
  ne_nil : bytes ≠ []
  begins : Begins bytes ∨ bytes.length = 1
  longest : ∀ front behind, bytes ++ rest = front ++ behind → Begins front →
    front.length ≤ bytes.length

/-- The bytes, piece by piece, are read as this text. -/
inductive ReadsAs : Bytes → Text → Prop
  | nil : ReadsAs [] []
  | char (c : Char) {rest : Bytes} {t : Text} (behind : ReadsAs rest t) :
    ReadsAs (encodeChar c ++ rest) (c :: t)
  | broken (bytes : Bytes) {rest : Bytes} {t : Text} (here : Broken bytes rest)
    (behind : ReadsAs rest t) : ReadsAs (bytes ++ rest) (replacement :: t)

@[simp] theorem encode_nil : encode [] = [] := rfl

@[simp] theorem encode_cons (c : Char) (t : Text) : encode (c :: t) = encodeChar c ++ encode t :=
  rfl

@[simp] theorem encode_append (a b : Text) : encode (a ++ b) = encode a ++ encode b :=
  List.flatMap_append

theorem encodeChar_ne_nil (c : Char) : encodeChar c ≠ [] := by
  unfold encodeChar
  dsimp only
  repeat' split
  all_goals simp

theorem encodeChar_replacement : encodeChar replacement = [0xEF, 0xBF, 0xBD] := by decide

theorem wellFormed_iff {bytes : Bytes} : WellFormed bytes ↔ ∃ t, bytes = encode t := by
  constructor
  · intro h
    exact ⟨decode bytes, h.symm⟩
  · rintro ⟨t, rfl⟩
    exact wellFormed_encode t

theorem decodeFrom_some_ne_nil (p : Partial) (bytes : Bytes) : decodeFrom (some p) bytes ≠ [] := by
  induction bytes generalizing p with
  | nil => simp [decodeFrom]
  | cons b rest ih =>
    simp only [decodeFrom]
    split
    · split
      · simp
      · exact ih _
    · split <;> simp

theorem eq_nil_of_decodeFrom {bytes : Bytes} (h : decodeFrom none bytes = []) : bytes = [] := by
  cases bytes with
  | nil => rfl
  | cons b rest =>
    simp only [decodeFrom] at h
    split at h
    · simp at h
    · exact absurd h (decodeFrom_some_ne_nil _ rest)

/-- A byte that does not go on with a character is read as if nothing were in front of it. -/
theorem decodeFrom_stop {p : Partial} {b : UInt8} (rest : Bytes)
    (h : ¬ (p.low ≤ b.toNat ∧ b.toNat ≤ p.high)) :
    decodeFrom (some p) (b :: rest) = replacement :: decodeFrom none (b :: rest) := by
  simp only [decodeFrom, if_neg h]
  split <;> rfl

/-- No character begins with another one. -/
theorem encodeChar_append_inj {c c' : Char} {more more' : Bytes}
    (h : encodeChar c ++ more = encodeChar c' ++ more') : c = c' ∧ more = more' := by
  have hread := congrArg (decodeFrom none) h
  rw [decodeFrom_encodeChar, decodeFrom_encodeChar] at hread
  obtain rfl := (List.cons.inj hread).1
  exact ⟨rfl, List.append_cancel_left h⟩

theorem eq_nil_of_encodeChar_eq {c c' : Char} {more : Bytes}
    (h : encodeChar c = encodeChar c' ++ more) : more = [] := by
  rw [← List.append_nil (encodeChar c)] at h
  exact (encodeChar_append_inj h).2.symm

/-- The bytes that complete a character, and the number of this character. -/
inductive Completes : Partial → Bytes → ℕ → Prop
  | last {p : Partial} {b : UInt8} (one : p.missing ≤ 1) (low : p.low ≤ b.toNat)
    (high : b.toNat ≤ p.high) : Completes p [b] (p.value * 64 + b.toNat % 64)
  | more {p : Partial} {b : UInt8} {bytes : Bytes} {n : ℕ} (several : ¬ p.missing ≤ 1)
    (low : p.low ≤ b.toNat) (high : b.toNat ≤ p.high)
    (behind : Completes ⟨p.value * 64 + b.toNat % 64, p.missing - 1, 0x80, 0xBF⟩ bytes n) :
    Completes p (b :: bytes) n

theorem Completes.ne_nil {p : Partial} {bytes : Bytes} {n : ℕ} (h : Completes p bytes n) :
    bytes ≠ [] := by
  cases h <;> simp

theorem Completes.of_one {p : Partial} {bytes : Bytes} {n : ℕ} (h : Completes p bytes n)
    (hm : p.missing ≤ 1) : ∃ b : UInt8, bytes = [b] ∧ p.low ≤ b.toNat ∧ b.toNat ≤ p.high ∧
      n = p.value * 64 + b.toNat % 64 := by
  cases h with
  | last _ low high => exact ⟨_, rfl, low, high, rfl⟩
  | more several => exact absurd hm several

theorem Completes.of_several {p : Partial} {bytes : Bytes} {n : ℕ} (h : Completes p bytes n)
    (hm : ¬ p.missing ≤ 1) : ∃ (b : UInt8) (more : Bytes), bytes = b :: more ∧ p.low ≤ b.toNat ∧
      b.toNat ≤ p.high ∧
      Completes ⟨p.value * 64 + b.toNat % 64, p.missing - 1, 0x80, 0xBF⟩ more n := by
  cases h with
  | last one => exact absurd one hm
  | more _ low high behind => exact ⟨_, _, rfl, low, high, behind⟩

theorem exists_byte {low high : ℕ} (h : low ≤ high) (hb : high < 256) :
    ∃ b : UInt8, low ≤ b.toNat ∧ b.toNat ≤ high := by
  have hlow : (UInt8.ofNat low).toNat = low := toNat_ofNat_of_lt (by omega)
  exact ⟨UInt8.ofNat low, by omega, by omega⟩

theorem exists_completes {p : Partial} (h : p.low ≤ p.high) (hb : p.high < 256) :
    ∃ bytes n, Completes p bytes n := by
  generalize hm : p.missing = m
  induction m generalizing p with
  | zero =>
    obtain ⟨b, hl, hh⟩ := exists_byte h hb
    exact ⟨_, _, .last (by omega) hl hh⟩
  | succ m ih =>
    obtain ⟨b, hl, hh⟩ := exists_byte h hb
    by_cases hone : p.missing ≤ 1
    · exact ⟨_, _, .last hone hl hh⟩
    · obtain ⟨bytes, n, hn⟩ := @ih ⟨p.value * 64 + b.toNat % 64, p.missing - 1, 0x80, 0xBF⟩
        (by simp) (by simp) (by simp [hm])
      exact ⟨_, _, .more hone hl hh hn⟩

/-- The bytes are the beginning of a character that is still to be completed. -/
structure Pending (bytes : Bytes) (p : Partial) : Prop where
  ne_nil : bytes ≠ []
  reads : ∀ rest, decodeFrom none (bytes ++ rest) = decodeFrom (some p) rest
  low_le_high : p.low ≤ p.high
  high_lt : p.high < 256
  completed : ∀ more n, Completes p more n → encodeChar (Char.ofNat n) = bytes ++ more

namespace Pending

variable {bytes rest : Bytes} {p : Partial} {b : UInt8}

theorem begins (h : Pending bytes p) : Begins bytes := by
  obtain ⟨more, n, hn⟩ := exists_completes h.low_le_high h.high_lt
  exact ⟨_, more, h.completed more n hn⟩

theorem more (h : Pending bytes p) (hm : ¬ p.missing ≤ 1) (hl : p.low ≤ b.toNat)
    (hh : b.toNat ≤ p.high) :
    Pending (bytes ++ [b]) ⟨p.value * 64 + b.toNat % 64, p.missing - 1, 0x80, 0xBF⟩ where
  ne_nil := by simp
  reads rest := by
    rw [List.append_assoc, h.reads]
    exact decodeFrom_more rest hm hl hh
  low_le_high := by simp
  high_lt := by simp
  completed more n hn := by
    rw [List.append_assoc]
    exact h.completed _ n (.more hm hl hh hn)

theorem last (h : Pending bytes p) (hm : p.missing ≤ 1) (hl : p.low ≤ b.toNat)
    (hh : b.toNat ≤ p.high) :
    encodeChar (Char.ofNat (p.value * 64 + b.toNat % 64)) = bytes ++ [b] :=
  h.completed _ _ (.last hm hl hh)

/-- A byte outside the range that is open to the next one begins no longer stretch. -/
theorem not_begins (h : Pending bytes p) (hb : ¬ (p.low ≤ b.toNat ∧ b.toNat ≤ p.high))
    (more : Bytes) : ¬ Begins (bytes ++ b :: more) := by
  rintro ⟨c, rest, hc⟩
  have hchar := decodeFrom_encodeChar c []
  rw [List.append_nil, hc, List.append_assoc, h.reads, List.cons_append, decodeFrom_stop _ hb]
    at hchar
  have hnone := (List.cons.inj hchar).2
  exact absurd (eq_nil_of_decodeFrom hnone) (by simp)

/-- When no byte follows that goes on with it, the beginning of a character is broken. -/
theorem broken (h : Pending bytes p)
    (hstop : ∀ b more, rest = b :: more → ¬ (p.low ≤ b.toNat ∧ b.toNat ≤ p.high)) :
    Broken bytes rest := by
  have hlonger : ∀ front behind, bytes ++ rest = front ++ behind → Begins front →
      front.length ≤ bytes.length := by
    intro front behind he hfront
    rcases List.append_eq_append_iff.mp he with ⟨x, rfl, hx⟩ | ⟨x, rfl, -⟩
    · cases x with
      | nil => simp
      | cons b x => exact absurd hfront (h.not_begins (hstop b _ hx) x)
    · simp
  refine ⟨?_, h.ne_nil, .inl h.begins, hlonger⟩
  intro c more he
  obtain ⟨x, hx⟩ : ∃ x, bytes = encodeChar c ++ x := by
    have hle := hlonger _ _ he ⟨c, [], by simp⟩
    exact List.prefix_of_prefix_length_le ⟨more, he.symm⟩ ⟨rest, rfl⟩ hle |>.imp fun _ h => h.symm
  obtain ⟨behind, n, hn⟩ := exists_completes h.low_le_high h.high_lt
  have hwhole := h.completed behind n hn
  rw [hx, List.append_assoc] at hwhole
  have hnil := eq_nil_of_encodeChar_eq hwhole
  exact hn.ne_nil (List.append_eq_nil_iff.mp hnil).2

end Pending

theorem continuation_of_toNat {b : UInt8} (hl : 0x80 ≤ b.toNat) (hh : b.toNat ≤ 0xBF) :
    continuation (b.toNat % 64) = b := by
  have hb : 0x80 + b.toNat % 64 % 64 = b.toNat := by omega
  rw [continuation, hb, UInt8.ofNat_toNat]

theorem continuation_add (k d : ℕ) : continuation (k * 64 + d) = continuation d := by
  rw [continuation, continuation, Nat.mul_add_mod_self_right]

section Number

variable {k d e f : ℕ}

theorem encodeChar_two (hk : 2 ≤ k) (hk' : k < 0x20) (hd : d < 64) :
    encodeChar (Char.ofNat (k * 64 + d)) = [UInt8.ofNat (0xC0 + k), continuation d] := by
  have hvalid : (k * 64 + d).isValidChar := .inl (by omega)
  have hlead : (k * 64 + d) / 64 = k := by omega
  simp only [encodeChar, toNat_ofNat_of_valid hvalid, hlead, continuation_add]
  rw [if_neg (by omega), if_pos (by omega)]

theorem encodeChar_three (hvalid : ((k * 64 + d) * 64 + e).isValidChar)
    (hlow : 0x800 ≤ (k * 64 + d) * 64 + e) (hk : k < 0x10) (hd : d < 64) (he : e < 64) :
    encodeChar (Char.ofNat ((k * 64 + d) * 64 + e)) =
      [UInt8.ofNat (0xE0 + k), continuation d, continuation e] := by
  have hlead : ((k * 64 + d) * 64 + e) / 4096 = k := by omega
  have hsecond : ((k * 64 + d) * 64 + e) / 64 = k * 64 + d := by omega
  simp only [encodeChar, toNat_ofNat_of_valid hvalid, hlead, hsecond, continuation_add]
  rw [if_neg (by omega), if_neg (by omega), if_pos (by omega)]

theorem encodeChar_four (hvalid : (((k * 64 + d) * 64 + e) * 64 + f).isValidChar)
    (hlow : 0x10000 ≤ ((k * 64 + d) * 64 + e) * 64 + f) (hd : d < 64) (he : e < 64)
    (hf : f < 64) : encodeChar (Char.ofNat (((k * 64 + d) * 64 + e) * 64 + f)) =
      [UInt8.ofNat (0xF0 + k), continuation d, continuation e, continuation f] := by
  have hlead : (((k * 64 + d) * 64 + e) * 64 + f) / 262144 = k := by omega
  have hsecond : (((k * 64 + d) * 64 + e) * 64 + f) / 4096 = k * 64 + d := by omega
  have hthird : (((k * 64 + d) * 64 + e) * 64 + f) / 64 = (k * 64 + d) * 64 + e := by omega
  simp only [encodeChar, toNat_ofNat_of_valid hvalid, hlead, hsecond, hthird, continuation_add]
  rw [if_neg (by omega), if_neg (by omega), if_neg (by omega)]

end Number

/-- A first byte that announces more announces one, two or three of them. -/
theorem start_eq_inr {b : UInt8} {p : Partial} (h : start b = .inr p) :
    (0xC2 ≤ b.toNat ∧ b.toNat < 0xE0 ∧ p = ⟨b.toNat - 0xC0, 1, 0x80, 0xBF⟩) ∨
    (0xE0 ≤ b.toNat ∧ b.toNat < 0xF0 ∧ p = ⟨b.toNat - 0xE0, 2,
      if b.toNat = 0xE0 then 0xA0 else 0x80, if b.toNat = 0xED then 0x9F else 0xBF⟩) ∨
    (0xF0 ≤ b.toNat ∧ b.toNat < 0xF5 ∧ p = ⟨b.toNat - 0xF0, 3,
      if b.toNat = 0xF0 then 0x90 else 0x80, if b.toNat = 0xF4 then 0x8F else 0xBF⟩) := by
  unfold start at h
  dsimp only at h
  split at h
  · simp at h
  split at h
  · simp at h
  split at h
  · exact .inl ⟨by omega, by omega, (Sum.inr.inj h).symm⟩
  split at h
  · exact .inr (.inl ⟨by omega, by omega, (Sum.inr.inj h).symm⟩)
  split at h
  · exact .inr (.inr ⟨by omega, by omega, (Sum.inr.inj h).symm⟩)
  · simp at h

/-- What the first byte of a longer character announces completes it. -/
theorem encodeChar_of_completes {b : UInt8} {p : Partial} {more : Bytes} {n : ℕ}
    (h : start b = .inr p) (hn : Completes p more n) : encodeChar (Char.ofNat n) = b :: more := by
  rcases start_eq_inr h with ⟨hb, hb', rfl⟩ | ⟨hb, hb', rfl⟩ | ⟨hb, hb', rfl⟩
  · obtain ⟨x, rfl, hl, hh, rfl⟩ := hn.of_one (by simp)
    dsimp only at hl hh ⊢
    have hlead : 0xC0 + (b.toNat - 0xC0) = b.toNat := by omega
    rw [encodeChar_two (by omega) (by omega) (by omega), hlead, UInt8.ofNat_toNat,
      continuation_of_toNat hl hh]
  · obtain ⟨x, _, rfl, hl, hh, hn⟩ := hn.of_several (by simp)
    obtain ⟨y, rfl, hl', hh', rfl⟩ := hn.of_one (by simp)
    dsimp only at hl hh hl' hh' ⊢
    have hlead : 0xE0 + (b.toNat - 0xE0) = b.toNat := by omega
    have hx : 0x80 ≤ x.toNat ∧ x.toNat ≤ 0xBF := by split at hl <;> split at hh <;> omega
    have hlow : 0x800 ≤ ((b.toNat - 0xE0) * 64 + x.toNat % 64) * 64 + y.toNat % 64 := by
      split at hl <;> omega
    have hvalid : (((b.toNat - 0xE0) * 64 + x.toNat % 64) * 64 + y.toNat % 64).isValidChar := by
      unfold Nat.isValidChar
      split at hh <;> omega
    rw [encodeChar_three hvalid hlow (by omega) (by omega) (by omega), hlead, UInt8.ofNat_toNat,
      continuation_of_toNat hx.1 hx.2, continuation_of_toNat hl' hh']
  · obtain ⟨x, _, rfl, hl, hh, hn⟩ := hn.of_several (by simp)
    obtain ⟨y, _, rfl, hl', hh', hn⟩ := hn.of_several (by simp)
    obtain ⟨z, rfl, hl'', hh'', rfl⟩ := hn.of_one (by simp)
    dsimp only at hl hh hl' hh' hl'' hh'' ⊢
    have hlead : 0xF0 + (b.toNat - 0xF0) = b.toNat := by omega
    have hx : 0x80 ≤ x.toNat ∧ x.toNat ≤ 0xBF := by split at hl <;> split at hh <;> omega
    have hlow : 0x10000 ≤ (((b.toNat - 0xF0) * 64 + x.toNat % 64) * 64 + y.toNat % 64) * 64 +
        z.toNat % 64 := by
      split at hl <;> omega
    have hvalid : ((((b.toNat - 0xF0) * 64 + x.toNat % 64) * 64 + y.toNat % 64) * 64 +
        z.toNat % 64).isValidChar := by
      unfold Nat.isValidChar
      split at hh <;> omega
    rw [encodeChar_four hvalid hlow (by omega) (by omega) (by omega), hlead, UInt8.ofNat_toNat,
      continuation_of_toNat hx.1 hx.2, continuation_of_toNat hl' hh',
      continuation_of_toNat hl'' hh'']

theorem pending_of_start {b : UInt8} {p : Partial} (h : start b = .inr p) : Pending [b] p := by
  have hrange : p.low ≤ p.high ∧ p.high < 256 := by
    rcases start_eq_inr h with ⟨-, -, rfl⟩ | ⟨-, -, rfl⟩ | ⟨-, -, rfl⟩
    · simp
    · dsimp only
      split <;> split <;> omega
    · dsimp only
      split <;> split <;> omega
  exact ⟨by simp, fun rest => decodeFrom_start rest h, hrange.1, hrange.2,
    fun more n hn => encodeChar_of_completes h hn⟩

theorem decodeFrom_single {b : UInt8} {c : Char} (rest : Bytes) (h : start b = .inl c) :
    decodeFrom none (b :: rest) = c :: decodeFrom none rest := by
  simp [decodeFrom, h]

/-- A byte on its own is a character, or no character begins with it. -/
theorem start_eq_inl {b : UInt8} {c : Char} (h : start b = .inl c) :
    encodeChar c = [b] ∨ c = replacement ∧ ∀ more, ¬ Begins (b :: more) := by
  have hc : (b.toNat < 0x80 ∧ c = Char.ofNat b.toNat) ∨ c = replacement := by
    unfold start at h
    dsimp only at h
    repeat' split at h
    · exact .inl ⟨by omega, (Sum.inl.inj h).symm⟩
    all_goals simp_all
  rcases hc with ⟨hb, rfl⟩ | rfl
  · left
    have hvalid : b.toNat.isValidChar := .inl (by omega)
    simp only [encodeChar, toNat_ofNat_of_valid hvalid]
    rw [if_pos hb, UInt8.ofNat_toNat]
  · refine .inr ⟨rfl, ?_⟩
    rintro more ⟨c, rest, hc⟩
    have hread := decodeFrom_encodeChar c []
    rw [List.append_nil, hc, List.cons_append, decodeFrom_single _ h] at hread
    obtain ⟨rfl, hnone⟩ := List.cons.inj hread
    rw [List.cons_append, eq_nil_of_decodeFrom hnone] at hc
    simp [encodeChar_replacement] at hc

theorem broken_single {b : UInt8} (h : ∀ more, ¬ Begins (b :: more)) (rest : Bytes) :
    Broken [b] rest where
  noCharacter c more he := by
    obtain ⟨x, bytes, hc⟩ := List.exists_cons_of_ne_nil (encodeChar_ne_nil c)
    rw [hc] at he
    obtain rfl := (List.cons.inj he).1
    exact h bytes ⟨c, [], by rw [hc, List.append_nil]⟩
  ne_nil := by simp
  begins := .inr rfl
  longest front behind he hfront := by
    cases front with
    | nil => simp
    | cons x front =>
      obtain rfl := (List.cons.inj he).1
      exact absurd hfront (h front)

/-- Decoding reads the bytes, also behind the beginning of a character. -/
theorem readsAs_decodeFrom (bytes : Bytes) : ReadsAs bytes (decodeFrom none bytes) ∧
    ∀ front p, Pending front p → ReadsAs (front ++ bytes) (decodeFrom (some p) bytes) := by
  induction bytes with
  | nil => exact ⟨.nil, fun front p h => .broken front (h.broken (by simp)) .nil⟩
  | cons b rest ih =>
    obtain ⟨hrest, hpending⟩ := ih
    have hhere : ReadsAs (b :: rest) (decodeFrom none (b :: rest)) := by
      cases hs : start b with
      | inl c =>
        rw [decodeFrom_single rest hs]
        rcases start_eq_inl hs with hc | ⟨rfl, hb⟩
        · have hchar := ReadsAs.char c hrest
          rwa [hc] at hchar
        · exact .broken [b] (broken_single hb rest) hrest
      | inr p =>
        rw [decodeFrom_start rest hs]
        exact hpending [b] p (pending_of_start hs)
    refine ⟨hhere, fun front p h => ?_⟩
    by_cases hb : p.low ≤ b.toNat ∧ b.toNat ≤ p.high
    · by_cases hone : p.missing ≤ 1
      · rw [decodeFrom_last rest hone hb.1 hb.2, List.append_cons, ← h.last hone hb.1 hb.2]
        exact .char _ hrest
      · rw [decodeFrom_more rest hone hb.1 hb.2, List.append_cons]
        exact hpending _ _ (h.more hone hb.1 hb.2)
    · rw [decodeFrom_stop rest hb]
      refine .broken front (h.broken ?_) hhere
      rintro _ _ ⟨⟩
      exact hb

theorem Broken.length_le {bytes rest bytes' rest' : Bytes} (h : Broken bytes rest)
    (h' : Broken bytes' rest') (he : bytes ++ rest = bytes' ++ rest') :
    bytes.length ≤ bytes'.length := by
  rcases h.begins with hb | hone
  · exact h'.longest bytes rest he.symm hb
  · have hpos := List.length_pos_iff.mpr h'.ne_nil
    omega

theorem ReadsAs.unique {bytes : Bytes} {t t' : Text} (h : ReadsAs bytes t) (h' : ReadsAs bytes t') :
    t = t' := by
  induction h generalizing t' with
  | nil =>
    generalize hb : ([] : Bytes) = bytes at h'
    cases h' with
    | nil => rfl
    | char c behind => exact absurd (List.append_eq_nil_iff.mp hb.symm).1 (encodeChar_ne_nil c)
    | broken bytes here behind => exact absurd (List.append_eq_nil_iff.mp hb.symm).1 here.ne_nil
  | @char c rest t behind ih =>
    generalize hb : encodeChar c ++ rest = bytes at h'
    cases h' with
    | nil => exact absurd (List.append_eq_nil_iff.mp hb).1 (encodeChar_ne_nil c)
    | char c' behind' =>
      obtain ⟨rfl, rfl⟩ := encodeChar_append_inj hb
      rw [ih behind']
    | broken bytes here behind' => exact absurd hb.symm (here.noCharacter c rest)
  | @broken front rest t here behind ih =>
    generalize hb : front ++ rest = bytes at h'
    cases h' with
    | nil => exact absurd (List.append_eq_nil_iff.mp hb).1 here.ne_nil
    | char c' behind' => exact absurd hb (here.noCharacter c' _)
    | broken front' here' behind' =>
      have hlength := Nat.le_antisymm (here.length_le here' hb) (here'.length_le here hb.symm)
      obtain ⟨-, rfl⟩ := List.append_inj hb hlength
      rw [ih behind']

/-- Decoding is the only way to read the bytes. -/
theorem readsAs_iff {bytes : Bytes} {t : Text} : ReadsAs bytes t ↔ decode bytes = t := by
  have hread := (readsAs_decodeFrom bytes).1
  constructor
  · exact fun h => hread.unique h
  · rintro rfl
    exact hread

end Utf8
end NodeReshape
