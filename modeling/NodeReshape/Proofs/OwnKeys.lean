import Mathlib.Data.List.Perm.Basic
import Mathlib.Data.List.Nodup
import Mathlib.Data.List.Induction
import Mathlib.Order.Basic
import NodeReshape.Value

/-!
# The keys of an object

Keys may be assigned more than once. A key keeps the place of its first assignment and the value of
its last one. The keys are listed in an order of their own: array indices come first, by number,
and the others follow as they came.
-/
namespace NodeReshape

/-- The key is a number below 4294967295 in decimal notation. -/
def IsIndex (key : Text) (n : ℕ) : Prop := key = natText n ∧ n < 4294967295

theorem arrayIndex?_eq_some_iff {key : Text} {n : ℕ} :
    arrayIndex? key = some n ↔ IsIndex key n := by
  have hvalue : (natText n).foldl (fun n c => 10 * n + (c.toNat - 48)) 0 = n :=
    Nat.ofDigitChars_eq_foldl.symm.trans Nat.ofDigitChars_ten_toDigits
  have hdigits : (natText n).all Char.isDigit = true :=
    List.all_eq_true.mpr fun c hc => Nat.isDigit_of_mem_toDigits (by decide) (by decide) hc
  constructor
  · intro h
    simp only [arrayIndex?] at h
    split_ifs at h with _ hindex
    obtain rfl := Option.some.inj h
    exact ⟨hindex.1.symm, hindex.2⟩
  · rintro ⟨rfl, hlt⟩
    have hne : natText n ≠ [] := Nat.toDigits_ne_nil
    rw [arrayIndex?, if_pos ⟨hne, hdigits⟩, hvalue]
    exact if_pos ⟨rfl, hlt⟩

theorem arrayIndex?_eq_none_iff {key : Text} :
    arrayIndex? key = none ↔ ∀ n, ¬ IsIndex key n := by
  simp only [Option.eq_none_iff_forall_ne_some, ne_eq, arrayIndex?_eq_some_iff]

/-- One key is listed before another, given the keys in the order in which they came. -/
inductive ListedBefore (came : List Text) : Text → Text → Prop
  | lower {a b : Text} {n m : ℕ} (ha : IsIndex a n) (hb : IsIndex b m) (h : n < m) :
    ListedBefore came a b
  | index {a b : Text} {n : ℕ} (ha : IsIndex a n) (hb : ∀ m, ¬ IsIndex b m) : ListedBefore came a b
  | sooner {a b : Text} (ha : ∀ n, ¬ IsIndex a n) (hb : ∀ m, ¬ IsIndex b m)
    (h : came.idxOf a < came.idxOf b) : ListedBefore came a b

theorem ListedBefore.asymm {came : List Text} {a b : Text} (h : ListedBefore came a b) :
    ¬ ListedBefore came b a := by
  intro h'
  cases h with
  | lower ha hb hlt =>
    cases h' with
    | lower hb' ha' hlt' =>
      have hn := arrayIndex?_eq_some_iff.mpr ha
      have hm := arrayIndex?_eq_some_iff.mpr hb
      rw [arrayIndex?_eq_some_iff.mpr ha', Option.some.injEq] at hn
      rw [arrayIndex?_eq_some_iff.mpr hb', Option.some.injEq] at hm
      omega
    | index _ ha' => exact ha' _ ha
    | sooner hb' _ _ => exact hb' _ hb
  | index ha hb =>
    cases h' with
    | lower hb' _ _ => exact hb _ hb'
    | index hb' _ => exact hb _ hb'
    | sooner _ ha' _ => exact ha' _ ha
  | sooner ha hb hlt =>
    cases h' with
    | lower hb' _ _ => exact hb _ hb'
    | index hb' _ => exact hb _ hb'
    | sooner _ _ hlt' => omega

instance (came : List Text) : Std.Asymm (ListedBefore came) := ⟨fun _ _ => ListedBefore.asymm⟩

theorem insertByIndex_perm (n : ℕ) (key : Text) (entries : List (ℕ × Text)) :
    (insertByIndex n key entries).Perm ((n, key) :: entries) := by
  induction entries with
  | nil => exact List.Perm.refl _
  | cons e rest ih =>
    rw [insertByIndex]
    split_ifs
    · exact List.Perm.refl _
    · exact (ih.cons e).trans (List.Perm.swap _ _ _)

theorem insertByIndex_pairwise {n : ℕ} {key : Text} {entries : List (ℕ × Text)}
    (h : entries.Pairwise fun e f => e.1 ≤ f.1) :
    (insertByIndex n key entries).Pairwise fun e f => e.1 ≤ f.1 := by
  induction entries with
  | nil => exact List.pairwise_singleton _ _
  | cons e rest ih =>
    obtain ⟨he, hrest⟩ := List.pairwise_cons.mp h
    rw [insertByIndex]
    split_ifs with hle
    · refine List.pairwise_cons.mpr ⟨?_, h⟩
      rintro f (_ | ⟨_, hf⟩)
      · exact hle
      · exact Nat.le_trans hle (he f hf)
    · refine List.pairwise_cons.mpr ⟨?_, ih hrest⟩
      intro f hf
      rcases List.mem_cons.mp ((insertByIndex_perm n key rest).mem_iff.mp hf) with rfl | hf
      · exact Nat.le_of_not_le hle
      · exact he f hf

theorem indexedKeys_pairwise (keys : List Text) :
    (indexedKeys keys).Pairwise fun e f => e.1 ≤ f.1 := by
  induction keys with
  | nil => exact List.Pairwise.nil
  | cons key rest ih =>
    rw [indexedKeys]
    split
    · exact insertByIndex_pairwise ih
    · exact ih

theorem isIndex_of_mem_indexedKeys {keys : List Text} {e : ℕ × Text} (h : e ∈ indexedKeys keys) :
    IsIndex e.2 e.1 := by
  induction keys with
  | nil => simp [indexedKeys] at h
  | cons key rest ih =>
    rw [indexedKeys] at h
    split at h
    · rename_i n hn
      rcases List.mem_cons.mp ((insertByIndex_perm n key _).mem_iff.mp h) with rfl | h
      · exact arrayIndex?_eq_some_iff.mp hn
      · exact ih h
    · exact ih h

theorem map_indexedKeys_perm (keys : List Text) :
    ((indexedKeys keys).map Prod.snd).Perm (keys.filter fun k => (arrayIndex? k).isSome) := by
  induction keys with
  | nil => exact List.Perm.refl _
  | cons key rest ih =>
    rw [indexedKeys]
    split
    · rename_i n hn
      rw [List.filter_cons_of_pos (by simp [hn])]
      exact ((insertByIndex_perm n key _).map Prod.snd).trans (ih.cons key)
    · rename_i hn
      rw [List.filter_cons_of_neg (by simp [hn])]
      exact ih

/-- Listing loses no key and invents none. -/
theorem ownKeys_perm (keys : List Text) : (ownKeys keys).Perm keys := by
  have hsplit := List.filter_append_perm (fun k => (arrayIndex? k).isSome) keys
  refine ((map_indexedKeys_perm keys).append_right _).trans ?_
  simpa [← Option.not_isSome] using hsplit

theorem ownKeys_pairwise {came keys : List Text}
    (h : keys.Pairwise fun a b => came.idxOf a < came.idxOf b) :
    (ownKeys keys).Pairwise (ListedBefore came) := by
  have hnodup : keys.Nodup := h.imp fun hlt he => by
    rw [he] at hlt
    exact Nat.lt_irrefl _ hlt
  have hindex : ((indexedKeys keys).map Prod.snd).Nodup :=
    (map_indexedKeys_perm keys).nodup_iff.mpr (hnodup.filter _)
  refine List.pairwise_append.mpr ⟨?_, ?_, ?_⟩
  · -- Different keys have different indices, so the ascending indices ascend strictly.
    refine List.pairwise_map.mpr ?_
    refine ((indexedKeys_pairwise keys).and (List.pairwise_map.mp hindex)).imp_of_mem ?_
    rintro e f he hf ⟨hle, hne⟩
    have ie := isIndex_of_mem_indexedKeys he
    have jf := isIndex_of_mem_indexedKeys hf
    refine .lower ie jf (Nat.lt_of_le_of_ne hle fun heq => hne ?_)
    rw [ie.1, jf.1, heq]
  · refine (h.filter _).imp_of_mem ?_
    intro a b ha hb hlt
    have na := Option.isNone_iff_eq_none.mp (List.mem_filter.mp ha).2
    have nb := Option.isNone_iff_eq_none.mp (List.mem_filter.mp hb).2
    exact .sooner (arrayIndex?_eq_none_iff.mp na) (arrayIndex?_eq_none_iff.mp nb) hlt
  · intro a ha b hb
    obtain ⟨e, he, rfl⟩ := List.mem_map.mp ha
    have nb := Option.isNone_iff_eq_none.mp (List.mem_filter.mp hb).2
    exact .index (isIndex_of_mem_indexedKeys he) (arrayIndex?_eq_none_iff.mp nb)

section Assignments

variable {α : Type}

theorem ofAssignments_concat (entries : List (Text × α)) (e : Text × α) :
    ofAssignments (entries ++ [e]) = assign e.1 e.2 (ofAssignments entries) := by
  rw [ofAssignments, List.foldl_append]
  rfl

theorem keys_assign (key : Text) (a : α) (entries : List (Text × α)) :
    (assign key a entries).map Prod.fst =
      if key ∈ entries.map Prod.fst then entries.map Prod.fst
      else entries.map Prod.fst ++ [key] := by
  induction entries with
  | nil => rfl
  | cons e rest ih =>
    by_cases he : e.1 = key
    · simp [assign, he]
    · have hne : key ≠ e.1 := Ne.symm he
      rw [assign, if_neg he, List.map_cons, ih, List.map_cons]
      simp only [List.mem_cons, hne, false_or]
      split_ifs <;> rfl

theorem mem_keys_ofAssignments {entries : List (Text × α)} {key : Text} :
    key ∈ (ofAssignments entries).map Prod.fst ↔ key ∈ entries.map Prod.fst := by
  induction entries using List.reverseRecOn with
  | nil => rfl
  | append_singleton front e ih =>
    rw [ofAssignments_concat, keys_assign, List.map_append, List.mem_append, ← ih]
    split_ifs with hmem
    · refine ⟨.inl, fun h => h.elim id fun hk => ?_⟩
      rwa [List.mem_singleton.mp hk]
    · exact List.mem_append

/-- Every key once, in the order of the first assignments. -/
theorem keys_ofAssignments_pairwise (entries : List (Text × α)) :
    ((ofAssignments entries).map Prod.fst).Pairwise fun a b =>
      (entries.map Prod.fst).idxOf a < (entries.map Prod.fst).idxOf b := by
  induction entries using List.reverseRecOn with
  | nil => exact List.Pairwise.nil
  | append_singleton front e ih =>
    have hstay : ∀ a ∈ (ofAssignments front).map Prod.fst,
        ((front ++ [e]).map Prod.fst).idxOf a = (front.map Prod.fst).idxOf a := by
      intro a ha
      rw [List.map_append]
      exact List.idxOf_append_of_mem (mem_keys_ofAssignments.mp ha)
    have hfront : ((ofAssignments front).map Prod.fst).Pairwise fun a b =>
        ((front ++ [e]).map Prod.fst).idxOf a < ((front ++ [e]).map Prod.fst).idxOf b := by
      refine ih.imp_of_mem ?_
      intro a b ha hb hlt
      rwa [hstay a ha, hstay b hb]
    rw [ofAssignments_concat, keys_assign]
    split_ifs with hmem
    · exact hfront
    · refine List.pairwise_append.mpr ⟨hfront, List.pairwise_singleton _ _, ?_⟩
      intro a ha b hb
      obtain rfl := List.mem_singleton.mp hb
      rw [hstay a ha, List.map_append,
        List.idxOf_append_of_notMem (mt mem_keys_ofAssignments.mpr hmem)]
      have hlt := List.idxOf_lt_length_of_mem (mem_keys_ofAssignments.mp ha)
      omega

/-- This is the last value assigned to the key. -/
def LastAssigned (entries : List (Text × α)) (key : Text) (a : α) : Prop :=
  ∃ front behind, entries = front ++ (key, a) :: behind ∧ key ∉ behind.map Prod.fst

theorem lastAssigned_concat {entries : List (Text × α)} {e : Text × α} {key : Text} {a : α} :
    LastAssigned (entries ++ [e]) key a ↔
      e.1 = key ∧ e.2 = a ∨ e.1 ≠ key ∧ LastAssigned entries key a := by
  constructor
  · rintro ⟨front, behind, he, hk⟩
    rcases List.eq_nil_or_concat' behind with rfl | ⟨behind, f, rfl⟩
    · obtain ⟨-, hlast⟩ := List.append_inj' he rfl
      obtain rfl := List.cons.inj hlast |>.1
      exact .inl ⟨rfl, rfl⟩
    · rw [← List.cons_append, ← List.append_assoc] at he
      obtain ⟨rfl, hlast⟩ := List.append_inj' he rfl
      obtain rfl := List.cons.inj hlast |>.1
      rw [List.map_append, List.mem_append, not_or] at hk
      exact .inr ⟨fun h => hk.2 (by simp [h]), front, behind, rfl, hk.1⟩
  · rintro (⟨rfl, rfl⟩ | ⟨hne, front, behind, rfl, hk⟩)
    · exact ⟨entries, [], rfl, by simp⟩
    · refine ⟨front, behind ++ [e], by rw [List.append_assoc, List.cons_append], ?_⟩
      simpa [Ne.symm hne] using hk

theorem lookup?_ofAssignments_eq_some_iff {entries : List (Text × α)} {key : Text} {a : α} :
    lookup? key (ofAssignments entries) = some a ↔ LastAssigned entries key a := by
  induction entries using List.reverseRecOn with
  | nil => simp [ofAssignments, lookup?, LastAssigned]
  | append_singleton before e ih =>
    rw [ofAssignments_concat, lookup?_assign, lastAssigned_concat, ← ih]
    split_ifs with he
    · simp [he]
    · simp [he]

end Assignments

end NodeReshape
