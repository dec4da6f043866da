import NodeReshape.Level
import NodeReshape.Proofs.UnitText

/-!
# Which names ask for a log level

The name of a level is looked for in lower case, and lower case is that of Unicode. Few letters
outside ASCII have a lower case in ASCII: the kelvin sign, whose `k` is in no name of a level, and a
capital `I` with a dot, which becomes more than a letter. So a name asks for a level when it is
spelled like it but for the case of its ASCII letters.
-/
namespace NodeReshape

/-- The characters of the names of levels are such that no other text has them in lower case. -/
def IsNameLetter (c : Char) : Prop := c.toNat < 128 ∧ c ≠ 'k'

section Letters

variable {c d : Char}

theorem toLower_of_not_capital (h : ¬ (65 ≤ c.toNat ∧ c.toNat ≤ 90)) : c.toLower = c := by
  unfold Char.toLower
  exact dif_neg h

theorem toLower_of_not_ascii (h : ¬ c.toNat < 128) : c.toLower = c := by
  apply toLower_of_not_capital
  omega

/-- The first range has all capital letters of ASCII, and the others are outside. -/
theorem find?_lowerRanges {n : Nat} (h : n < 128) :
    lowerRanges.find? (fun r => r.first ≤ n && n ≤ r.last) =
      if 65 ≤ n ∧ n ≤ 90 then some ⟨65, 90, 1, 32⟩ else none := by
  have houtside : ∀ r ∈ lowerRanges.tail, 128 ≤ r.first := by decide +kernel
  have hnone : lowerRanges.tail.find? (fun r => r.first ≤ n && n ≤ r.last) = none := by
    rw [List.find?_eq_none]
    intro r hr
    have hr := houtside r hr
    simp only [Bool.and_eq_true, decide_eq_true_eq]
    omega
  have hcons : lowerRanges = ⟨65, 90, 1, 32⟩ :: lowerRanges.tail := rfl
  rw [hcons, List.find?_cons, hnone]
  by_cases hn : 65 ≤ n ∧ n ≤ 90
  · simp [hn]
  · have hnot : (decide (65 ≤ n) && decide (n ≤ 90)) = false := by
      rw [← Bool.decide_and, decide_eq_false hn]
    rw [hnot, if_neg hn]

theorem lowerChar_of_ascii (h : c.toNat < 128) : lowerChar c = c.toLower := by
  rw [lowerChar, find?_lowerRanges h]
  by_cases hc : 65 ≤ c.toNat ∧ c.toNat ≤ 90
  · have hall : ∀ n : Nat, n ≤ 90 → 65 ≤ n →
        Char.ofNat ((n : Int) + 32).toNat = (Char.ofNat n).toLower := by decide
    rw [if_pos hc]
    simpa [Nat.mod_one] using hall c.toNat hc.2 hc.1
  · rw [if_neg hc, toLower_of_not_capital hc]

/-- The letters outside ASCII that become one letter stay outside, save the kelvin sign. -/
theorem lowerRanges_outside : ∀ r ∈ lowerRanges, 128 ≤ r.last → r.first ≠ 0x212A →
    128 ≤ (r.first : Int) + r.shift ∧ ((r.last : Int) + r.shift < 0xD800 ∨
      0xE000 ≤ (r.first : Int) + r.shift ∧ (r.last : Int) + r.shift < 0x110000) := by
  decide +kernel

theorem lowerRanges_kelvin :
    ∀ r ∈ lowerRanges, r.first = 0x212A → r.last = 0x212A ∧ r.shift = -8383 := by
  decide +kernel

theorem not_isNameLetter_lowerChar (h : ¬ c.toNat < 128) : ¬ IsNameLetter (lowerChar c) := by
  unfold lowerChar
  split
  · rename_i r hr
    have hmem := List.mem_of_find?_eq_some hr
    have hin := List.find?_some hr
    simp only [Bool.and_eq_true, decide_eq_true_eq] at hin
    split
    · by_cases hk : r.first = 0x212A
      · obtain ⟨hlast, hshift⟩ := lowerRanges_kelvin r hmem hk
        have hc : c.toNat = 0x212A := by omega
        rw [hc, hshift]
        rintro ⟨-, hne⟩
        exact hne (by decide)
      · obtain ⟨hlow, hvalid⟩ := lowerRanges_outside r hmem (by omega) hk
        rintro ⟨hascii, -⟩
        rw [toNat_ofNat_of_valid (by simp only [Nat.isValidChar]; omega)] at hascii
        omega
    · exact fun hn => h hn.1
  · exact fun hn => h hn.1

/-- Both ways to lower the case of a character agree on such letters. -/
theorem lowerChar_eq_iff (hd : IsNameLetter d) : lowerChar c = d ↔ c.toLower = d := by
  by_cases h : c.toNat < 128
  · rw [lowerChar_of_ascii h]
  · constructor
    · rintro rfl
      exact absurd hd (not_isNameLetter_lowerChar h)
    · intro hl
      rw [toLower_of_not_ascii h] at hl
      exact absurd (hl ▸ hd.1) h

end Letters

theorem lowerAfter_eq_iff (before t : Text) {name : Text} (hn : ∀ d ∈ name, IsNameLetter d) :
    lowerAfter before t = name ↔ t.map Char.toLower = name := by
  induction t generalizing before name with
  | nil => rfl
  | cons c t ih =>
    -- A letter that becomes another one outside ASCII is not in the name in either case.
    have hout (lowered : Text) (d : Char) (hd : d ∈ lowered) (hascii : ¬ d.toNat < 128)
        (hc : ¬ c.toNat < 128) : lowered ++ lowerAfter (c :: before) t = name ↔
          (c :: t).map Char.toLower = name := by
      constructor
      · rintro rfl
        exact absurd (hn d (List.mem_append_left _ hd)).1 hascii
      · rintro rfl
        rw [List.map_cons, toLower_of_not_ascii hc] at hn
        exact absurd (hn c List.mem_cons_self).1 hc
    rw [lowerAfter]
    by_cases hi : c = '\u0130'
    · rw [if_pos hi]
      exact hout _ '\u0307' (by simp) (by decide) (by rw [hi]; decide)
    rw [if_neg hi]
    by_cases hsigma : c = '\u03A3'
    · rw [if_pos hsigma]
      have hc : ¬ c.toNat < 128 := by rw [hsigma]; decide
      split
      · exact hout _ '\u03C2' (by simp) (by decide) hc
      · exact hout _ '\u03C3' (by simp) (by decide) hc
    rw [if_neg hsigma, List.singleton_append, List.map_cons]
    cases name with
    | nil => simp
    | cons d name =>
      obtain ⟨hd, hrest⟩ := List.forall_mem_cons.mp hn
      rw [List.cons.injEq, List.cons.injEq, lowerChar_eq_iff hd, ih _ hrest]

theorem isNameLetter_of_mem_name (l : Level) : ∀ d ∈ l.name, IsNameLetter d := by
  have hall : (l.name.all fun d => d.toNat < 128 && d != 'k') = true := by
    cases l <;> decide
  intro d hd
  have hletter := List.all_eq_true.mp hall d hd
  simpa [IsNameLetter] using hletter

/-- A text has the name of a level in lower case when it is spelled like it but for case. -/
theorem lowerCase_eq_name_iff {t : Text} {l : Level} :
    lowerCase t = l.name ↔ t.map Char.toLower = l.name :=
  lowerAfter_eq_iff [] t (isNameLetter_of_mem_name l)

theorem Level.name_ne_nil (l : Level) : l.name ≠ [] := by
  cases l <;> decide

theorem Level.ofName?_eq_some_iff {t : Text} {l : Level} : ofName? t = some l ↔ t = l.name := by
  constructor
  · intro h
    have hname := List.find?_some h
    simpa [eq_comm] using hname
  · rintro rfl
    exact ofName?_name l

/-- The environment asks for a level by its name in any case. Without a name it asks for silence in
tests, and else for everything from `info` up. -/
inductive Environment.Asks (env : Environment) : Level → Prop
  | unset (h : env.logLevel = none ∨ env.logLevel = some []) :
    Asks env (if env.nodeEnv = some "test".toList then .silent else .info)
  | named (t : Text) (l : Level) (h : env.logLevel = some t)
    (spelled : t.map Char.toLower = l.name) : Asks env l

/-- The environment gets the level that it asks for, and no other. -/
theorem Environment.threshold_eq_ok_iff {env : Environment} {l : Level} :
    env.threshold = .ok l ↔ env.Asks l := by
  obtain ⟨logLevel, nodeEnv⟩ := env
  constructor
  · intro h
    rcases logLevel with _ | _ | ⟨c, t⟩
    · cases h
      exact .unset (.inl rfl)
    · cases h
      exact .unset (.inr rfl)
    · simp only [threshold] at h
      split at h
      · rename_i found hfound
        cases h
        rw [Level.ofName?_eq_some_iff, lowerCase_eq_name_iff] at hfound
        exact .named (c :: t) l rfl hfound
      · simp at h
  · rintro (hunset | ⟨t, l, rfl, hspelled⟩)
    · rcases hunset with rfl | rfl <;> rfl
    · cases t with
      | nil => exact absurd hspelled.symm l.name_ne_nil
      | cons c t =>
        have hfound := Level.ofName?_eq_some_iff.mpr (lowerCase_eq_name_iff.mpr hspelled)
        simp only [threshold, hfound]

end NodeReshape
