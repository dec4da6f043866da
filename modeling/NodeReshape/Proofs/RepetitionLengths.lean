import Mathlib.Data.List.Forall2
import NodeReshape.Proofs.UnitMatching

/-!
# How long the repetitions of the old shape are

Six gaps and three runs of the old shape may be of any length. A choice of nine lengths says how
much of a text each of them takes; most choices fail. At every offset of a text, surrogates outside
pairs included, one choice at most does not fail, and one scan that never goes back makes it.
-/
namespace NodeReshape

/-- The part may take more or less of a text. -/
def Part.repeats : Part → Bool
  | .blanks => true
  | .run _ => true
  | _ => false

section Alphabet

variable {α : Type} (number : α → ℕ)

/-- The part fits this piece of a text. -/
def Part.Fits : Part → List α → Prop
  | .word w, s => s.map number = w.map Char.toNat
  | .blanks, s => ∀ a ∈ s, isBlankMember number a = true
  | .run stop, s => s ≠ [] ∧ ∀ a ∈ s, differs number stop a = true
  | .opening, s => s = []
  | .closing, s => s = []

/-- With these lengths for its repetitions, from left to right, the parts of a pattern take these
pieces off the front of a text and leave the rest. -/
inductive Chosen : List Part → List ℕ → List α → List (List α) → List α → Prop
  | nil (t : List α) : Chosen [] [] t [] t
  | fixed {i p ks s t pieces rest} : i.repeats = false → i.Fits number s →
      Chosen p ks t pieces rest → Chosen (i :: p) ks (s ++ t) (s :: pieces) rest
  | repetition {i p ks s t pieces rest} : i.repeats = true → i.Fits number s →
      Chosen p ks t pieces rest → Chosen (i :: p) (s.length :: ks) (s ++ t) (s :: pieces) rest

variable {number}

/-- An empty piece leaves everything. -/
theorem eq_nil_pair_iff {t x rest : List α} :
    (x, rest) = ([], t) ↔ t = x ++ rest ∧ x = [] := by
  constructor
  · rintro ⟨⟩
    exact ⟨rfl, rfl⟩
  · rintro ⟨rfl, rfl⟩
    rfl

theorem cons_mem_map_iff {a b : α} {x rest : List α} {l : List (List α × List α)} :
    (b :: x, rest) ∈ l.map (fun s => (a :: s.1, s.2)) ↔ a = b ∧ (x, rest) ∈ l := by
  simp only [List.mem_map, Prod.exists, Prod.mk.injEq, List.cons.injEq]
  constructor
  · rintro ⟨x, rest, hm, ⟨rfl, rfl⟩, rfl⟩
    exact ⟨rfl, hm⟩
  · rintro ⟨rfl, hm⟩
    exact ⟨x, rest, hm, ⟨rfl, rfl⟩, rfl⟩

theorem mem_splits_iff {q : α → Bool} {t x rest : List α} :
    (x, rest) ∈ splits q t ↔ t = x ++ rest ∧ ∀ a ∈ x, q a = true := by
  induction t generalizing x with
  | nil =>
    rw [splits, List.mem_singleton, eq_nil_pair_iff]
    refine and_congr_right fun h => ?_
    have hx : x = [] := (List.append_eq_nil_iff.mp h.symm).1
    simp [hx]
  | cons a t ih =>
    cases x with
    | nil =>
      rw [splits]
      split <;> simp [eq_comm (a := rest)]
    | cons b x =>
      rw [splits]
      split
      case isTrue ha =>
        rw [List.mem_append, cons_mem_map_iff, ih, List.mem_singleton, List.forall_mem_cons]
        simp only [List.cons_append, List.cons.injEq, Prod.mk.injEq, reduceCtorEq, false_and,
          or_false, and_assoc]
        constructor
        · rintro ⟨rfl, ht, hx⟩
          exact ⟨rfl, ht, ha, hx⟩
        · rintro ⟨rfl, ht, -, hx⟩
          exact ⟨rfl, ht, hx⟩
      case isFalse ha =>
        rw [List.mem_singleton, List.forall_mem_cons]
        simp only [List.cons_append, List.cons.injEq, Prod.mk.injEq, reduceCtorEq, false_and,
          false_iff]
        rintro ⟨⟨rfl, -⟩, hb, -⟩
        exact ha hb

theorem takeWord_eq_some_iff {w : Text} {t x rest : List α} :
    takeWord number w t = some (x, rest) ↔ t = x ++ rest ∧ x.map number = w.map Char.toNat := by
  induction w generalizing t x with
  | nil =>
    rw [takeWord, Option.some_inj, eq_comm, eq_nil_pair_iff, List.map_nil, List.map_eq_nil_iff]
  | cons c w ih =>
    cases x with
    | nil => cases t <;> simp [takeWord]
    | cons b x =>
      cases t with
      | nil => simp [takeWord]
      | cons a t =>
        rw [takeWord, Option.ite_none_right_eq_some, ← Option.mem_toList, Option.toList_map,
          cons_mem_map_iff, Option.mem_toList, ih, List.map_cons, List.map_cons,
          List.cons.injEq, List.cons_append, List.cons.injEq]
        constructor
        · rintro ⟨hn, rfl, ht, hx⟩
          exact ⟨⟨rfl, ht⟩, hn, hx⟩
        · rintro ⟨⟨rfl, ht⟩, hn, hx⟩
          exact ⟨hn, rfl, ht, hx⟩

/-- The ways of a part are all the beginnings of a text that fit it. -/
theorem mem_ways_iff {i : Part} {t x rest : List α} :
    (x, rest) ∈ i.ways number t ↔ t = x ++ rest ∧ i.Fits number x := by
  cases i with
  | word w => rw [Part.ways, Option.mem_toList, takeWord_eq_some_iff, Part.Fits]
  | blanks => exact mem_splits_iff
  | run stop =>
    cases t with
    | nil =>
      simp only [Part.ways, List.not_mem_nil, Part.Fits, false_iff]
      rintro ⟨h, hx, -⟩
      exact hx (List.append_eq_nil_iff.mp h.symm).1
    | cons a t =>
      cases x with
      | nil => by_cases ha : differs number stop a = true <;> simp [Part.ways, Part.Fits, ha]
      | cons b x =>
        rw [Part.ways, List.mem_ite_nil_right, cons_mem_map_iff, mem_splits_iff, Part.Fits,
          List.forall_mem_cons, List.cons_append, List.cons.injEq]
        constructor
        · rintro ⟨ha, rfl, ht, hx⟩
          exact ⟨⟨rfl, ht⟩, by simp, ha, hx⟩
        · rintro ⟨⟨rfl, ht⟩, -, ha, hx⟩
          exact ⟨ha, rfl, ht, hx⟩
  | opening => rw [Part.ways, List.mem_singleton, eq_nil_pair_iff, Part.Fits]
  | closing => rw [Part.ways, List.mem_singleton, eq_nil_pair_iff, Part.Fits]

/-- What a search that takes failed choices back goes through are the choices of lengths that do
not fail. -/
theorem mem_choices_iff {p : List Part} {t rest : List α} {pieces : List (List α)} :
    (pieces, rest) ∈ choices number p t ↔ ∃ ks, Chosen number p ks t pieces rest := by
  induction p generalizing t pieces with
  | nil =>
    simp only [choices, List.mem_singleton, Prod.mk.injEq]
    constructor
    · rintro ⟨rfl, rfl⟩
      exact ⟨[], .nil _⟩
    · rintro ⟨ks, ⟨⟩⟩
      exact ⟨rfl, rfl⟩
  | cons i p ih =>
    simp only [choices, List.mem_flatMap, List.mem_map, Prod.exists, mem_ways_iff, Prod.mk.injEq]
    constructor
    · rintro ⟨s, t, ⟨rfl, hs⟩, pieces, rest, hm, rfl, rfl⟩
      obtain ⟨ks, hks⟩ := ih.mp hm
      cases hi : i.repeats with
      | false => exact ⟨ks, .fixed hi hs hks⟩
      | true => exact ⟨s.length :: ks, .repetition hi hs hks⟩
    · rintro ⟨ks, h⟩
      cases h with
      | fixed hi hs hks => exact ⟨_, _, ⟨rfl, hs⟩, _, _, ih.mpr ⟨_, hks⟩, rfl, rfl⟩
      | repetition hi hs hks => exact ⟨_, _, ⟨rfl, hs⟩, _, _, ih.mpr ⟨_, hks⟩, rfl, rfl⟩

/-- There are lengths that do not fail when every part has a piece that fits it. -/
theorem exists_chosen_iff {p : List Part} {t rest : List α} {pieces : List (List α)} :
    (∃ ks, Chosen number p ks t pieces rest) ↔
      List.Forall₂ (Part.Fits number) p pieces ∧ t = pieces.flatten ++ rest := by
  constructor
  · rintro ⟨ks, h⟩
    induction h with
    | nil t => exact ⟨.nil, rfl⟩
    | fixed _ hs _ ih => exact ⟨.cons hs ih.1, by rw [ih.2, List.flatten_cons, List.append_assoc]⟩
    | repetition _ hs _ ih =>
      exact ⟨.cons hs ih.1, by rw [ih.2, List.flatten_cons, List.append_assoc]⟩
  · rintro ⟨h, rfl⟩
    induction h with
    | nil => exact ⟨[], .nil rest⟩
    | @cons i s p pieces hs _ ih =>
      obtain ⟨ks, hks⟩ := ih
      rw [List.flatten_cons, List.append_assoc]
      cases hi : i.repeats with
      | false => exact ⟨ks, .fixed hi hs hks⟩
      | true => exact ⟨s.length :: ks, .repetition hi hs hks⟩

namespace Chosen

variable {p : List Part} {ks ks' : List ℕ} {t t' rest rest' : List α}
  {pieces pieces' : List (List α)}

/-- There is a length for every repetition. -/
theorem length_eq (h : Chosen number p ks t pieces rest) : ks.length = p.countP Part.repeats := by
  induction h with
  | nil => rfl
  | fixed hi _ _ ih => rw [ih, List.countP_cons_of_neg (by simp [hi])]
  | repetition hi _ _ ih => rw [List.length_cons, ih, List.countP_cons_of_pos hi]

/-- What was taken tells the lengths. -/
theorem lengths_eq (h : Chosen number p ks t pieces rest)
    (h' : Chosen number p ks' t' pieces rest') : ks = ks' := by
  induction h generalizing ks' t' with
  | nil =>
    cases h'
    rfl
  | fixed hi _ _ ih =>
    cases h' with
    | fixed _ _ h' => exact ih h'
    | repetition hi' _ _ => simp [hi] at hi'
  | repetition hi _ _ ih =>
    cases h' with
    | fixed hi' _ _ => simp [hi] at hi'
    | repetition _ _ h' => rw [ih h']

/-- A decisive pattern leaves one choice of lengths at most. -/
theorem unique (hp : Decisive p = true) (h : Chosen number p ks t pieces rest)
    (h' : Chosen number p ks' t pieces' rest') : ks = ks' := by
  have hm := mem_choices_iff.mpr ⟨ks, h⟩
  have hm' := mem_choices_iff.mpr ⟨ks', h'⟩
  rw [choices_eq_greedy? hp, Option.mem_toList] at hm hm'
  obtain ⟨rfl, rfl⟩ := Prod.mk.inj (Option.some.inj (hm.symm.trans hm'))
  exact h.lengths_eq h'

end Chosen

theorem greedy?_eq_some_iff {p : List Part} (hp : Decisive p = true) {t rest : List α}
    {pieces : List (List α)} :
    greedy? number p t = some (pieces, rest) ↔ ∃ ks, Chosen number p ks t pieces rest := by
  rw [← mem_choices_iff, choices_eq_greedy? hp, Option.mem_toList]

end Alphabet

/-- The node that one scan which never goes back finds at an offset of a unit text. -/
def scanUnits? (us : List UInt16) (start : ℕ) : Option UnitFragment :=
  (greedy? UInt16.toNat oldShape (us.drop start)).map fun r => (UnitMatch.mk start r.1).fragment

/-- The node read at an offset of a document. None begins inside a character. -/
def OldNode.readAt? (document : Text) (start : ℕ) : Option OldNode :=
  if units (takeUnits start document) = start then
    (read? (dropUnits start document)).map Prod.fst
  else none

theorem scanUnits?_append (before t : Text) :
    scanUnits? (toUnits (before ++ t)) (units before) =
      (OldNode.read? t).map fun r => (r.1.fragment (units before)).inUnits := by
  have hdrop : (toUnits (before ++ t)).drop (units before) = toUnits t := by
    rw [toUnits_append, ← length_toUnits before, List.drop_left]
  rw [scanUnits?, hdrop, greedy?_toUnits (by decide), greedy?_oldShape, Option.map_map,
    Option.map_map]
  congr 1
  funext r
  exact r.1.fragment_unitMatch (units before)

/-- Behind an offset inside a character stands the second half of it. -/
theorem drop_toUnits_of_inside {t : Text} {start : ℕ} (h : units (takeUnits start t) ≠ start) :
    (toUnits t).drop start = [] ∨
      ∃ low us, (toUnits t).drop start = low :: us ∧ isLow low = true := by
  induction t generalizing start with
  | nil => exact .inl (List.drop_nil ..)
  | cons c t ih =>
    cases start with
    | zero => exact absurd rfl h
    | succ n =>
      have hlen := length_unitsOf c
      rw [takeUnits, units_cons, ← hlen] at h
      rw [toUnits_cons]
      rcases unitsOf_cases c with ⟨u, he, -⟩ | ⟨u, v, he, -, hv, -⟩
      · rw [he, List.length_singleton, Nat.add_sub_cancel] at h
        rw [he]
        exact ih (by omega)
      · rw [he, List.length_cons, List.length_singleton] at h
        rw [he]
        cases n with
        | zero => exact .inr ⟨v, toUnits t, rfl, hv⟩
        | succ n =>
          rw [show n + 1 + 1 - (1 + 1) = n by omega] at h
          exact ih (by omega)

theorem scanUnits?_of_inside {t : Text} {start : ℕ} (h : units (takeUnits start t) ≠ start) :
    scanUnits? (toUnits t) start = none := by
  rw [scanUnits?, Option.map_eq_none_iff]
  rcases drop_toUnits_of_inside h with hnil | ⟨low, us, hcons, hlow⟩
  · rw [hnil]
    rfl
  · have hchoices := choices_of_isLow hlow us
    rw [choices_eq_greedy? decisive_oldShape, Option.toList_eq_nil_iff] at hchoices
    rw [hcons, hchoices]

theorem scanUnits?_toUnits (document : Text) (start : ℕ) :
    scanUnits? (toUnits document) start =
      (OldNode.readAt? document start).map fun n => (n.fragment start).inUnits := by
  unfold OldNode.readAt?
  split
  case isTrue h =>
    have hscan := scanUnits?_append (takeUnits start document) (dropUnits start document)
    rw [takeUnits_append_dropUnits, h] at hscan
    rw [hscan, Option.map_map]
    rfl
  case isFalse h => exact scanUnits?_of_inside h

/-- Nine lengths, for six gaps and three runs, with which the old shape does not fail at an offset
of a unit text, and the node that it then takes there. -/
def FoundBy (ks : List ℕ) (us : List UInt16) (start : ℕ) (f : UnitFragment) : Prop :=
  ∃ pieces rest, Chosen UInt16.toNat oldShape ks (us.drop start) pieces rest ∧
    f = (UnitMatch.mk start pieces).fragment

theorem scanUnits?_eq_some_iff {us : List UInt16} {start : ℕ} {f : UnitFragment} :
    scanUnits? us start = some f ↔ ∃ ks, FoundBy ks us start f := by
  simp only [scanUnits?, Option.map_eq_some_iff, Prod.exists,
    greedy?_eq_some_iff decisive_oldShape, FoundBy]
  constructor
  · rintro ⟨pieces, rest, ⟨ks, h⟩, rfl⟩
    exact ⟨ks, pieces, rest, h, rfl⟩
  · rintro ⟨ks, pieces, rest, h, rfl⟩
    exact ⟨pieces, rest, ⟨ks, h⟩, rfl⟩

/-- Of all choices of lengths for its nine repetitions, the old shape has one at most that does not
fail at an offset. The scan that never goes back finds a node exactly when there is one, and the
same node; on the units of a document it is the node read there. -/
theorem scanUnits?_eq_some_iff_foundBy (us : List UInt16) (start : ℕ) :
    (∀ ks f, FoundBy ks us start f → ks.length = 9) ∧
      (∀ ks ks' f f', FoundBy ks us start f → FoundBy ks' us start f' → ks = ks' ∧ f = f') ∧
      (∀ f, scanUnits? us start = some f ↔ ∃ ks, FoundBy ks us start f) ∧
      ∀ document, scanUnits? (toUnits document) start =
        (OldNode.readAt? document start).map fun n => (n.fragment start).inUnits := by
  refine ⟨?_, ?_, fun f => scanUnits?_eq_some_iff,
    fun document => scanUnits?_toUnits document start⟩
  · rintro ks f ⟨pieces, rest, h, -⟩
    exact h.length_eq
  · intro ks ks' f f' h h'
    have hf := scanUnits?_eq_some_iff.mpr ⟨ks, h⟩
    have hf' := scanUnits?_eq_some_iff.mpr ⟨ks', h'⟩
    obtain ⟨pieces, rest, hc, -⟩ := h
    obtain ⟨pieces', rest', hc', -⟩ := h'
    exact ⟨hc.unique decisive_oldShape hc', Option.some.inj (hf.symm.trans hf')⟩

/-- Half of a character in front of a node, and behind the node one whose body is empty. -/
def loneSurrogate : List UInt16 :=
  0xD83D :: toUnits ("(name: \"x\", ty:\t\"a\", inner: (1))".toList ++
    "(name: \"x\", ty: \"a\", inner: ())".toList)

theorem foundBy_loneSurrogate :
    (∃ ks, FoundBy ks loneSurrogate 1 ⟨[0x78], [0x61], [0x28, 0x31, 0x29], 1, 31⟩ ∧
      ks.length = 9) ∧ ∀ ks f, ¬ FoundBy ks loneSurrogate 33 f := by
  have hnode : scanUnits? loneSurrogate 1 =
      some ⟨[0x78], [0x61], [0x28, 0x31, 0x29], 1, 31⟩ := by decide
  have hnone : scanUnits? loneSurrogate 33 = none := by decide
  obtain ⟨hnine, -, hfound, -⟩ := scanUnits?_eq_some_iff_foundBy loneSurrogate 1
  obtain ⟨ks, hks⟩ := (hfound _).mp hnode
  refine ⟨⟨ks, hks, hnine ks _ hks⟩, fun ks f hf => ?_⟩
  have hsome := ((scanUnits?_eq_some_iff_foundBy loneSurrogate 33).2.2.1 f).mpr ⟨ks, hf⟩
  rw [hnone] at hsome
  simp at hsome

end NodeReshape
