import NodeReshape.OldNode
import NodeReshape.Units

/-! The old-shape nodes of a document. `OccursAt` says where a node stands, overlapping ones
included; `findFragments` lists the ones to reshape, leftmost first and without overlap. -/
namespace NodeReshape

/-- A node found in a document. Its place and length count units, and `inner` keeps its
parentheses. -/
structure Fragment where
  name : Text
  ty : Text
  inner : Text
  index : Nat
  length : Nat
  deriving DecidableEq

def Fragment.stop (f : Fragment) : Nat := f.index + f.length

/-- The fragment of a node that begins at this offset. -/
def OldNode.fragment (n : OldNode) (index : Nat) : Fragment :=
  ⟨n.name, n.ty, n.inner, index, units n.spelling⟩

/-- A node in the old shape stands in the document at this offset. -/
def OccursAt (document : Text) (index : Nat) (n : OldNode) : Prop :=
  n.WellFormed ∧ ∃ before behind : Text,
    document = before ++ (n.spelling ++ behind) ∧ units before = index

theorem occursAt_of_read? {before t rest : Text} {n : OldNode}
    (h : OldNode.read? t = some (n, rest)) : OccursAt (before ++ t) (units before) n := by
  obtain ⟨hw, rfl⟩ := OldNode.eq_spelling_of_read? h
  exact ⟨hw, before, rest, rfl, rfl⟩

/-- The node at every offset of a text that begins at `offset`, overlapping ones included. -/
def occurrencesFrom (offset : Nat) : Text → List Fragment
  | [] => []
  | c :: t =>
    match OldNode.read? (c :: t) with
    | some (n, _) => n.fragment offset :: occurrencesFrom (offset + width c) t
    | none => occurrencesFrom (offset + width c) t

/-- All old-shape nodes of a document, overlapping ones included, from left to right. -/
def occurrences (document : Text) : List Fragment := occurrencesFrom 0 document

theorem mem_occurrencesFrom_iff {before t : Text} {f : Fragment} :
    f ∈ occurrencesFrom (units before) t ↔
      ∃ a b n rest, t = a ++ b ∧ OldNode.read? b = some (n, rest) ∧
        f = n.fragment (units before + units a) := by
  induction t generalizing before with
  | nil =>
    simp only [occurrencesFrom, List.not_mem_nil, false_iff]
    rintro ⟨a, b, n, rest, hab, hr, _⟩
    obtain ⟨rfl, rfl⟩ := List.append_eq_nil_iff.mp hab.symm
    simp [OldNode.read?, after?] at hr
  | cons c t ih =>
    have hs : units before + width c = units (before ++ [c]) := by simp
    have later : f ∈ occurrencesFrom (units before + width c) t ↔
        ∃ a b n rest, c :: t = (c :: a) ++ b ∧ OldNode.read? b = some (n, rest) ∧
          f = n.fragment (units before + units (c :: a)) := by
      rw [hs, ih]
      simp [Nat.add_assoc]
    cases h : OldNode.read? (c :: t) with
    | none =>
      simp only [occurrencesFrom, h, later]
      constructor
      · rintro ⟨a, b, n, rest, hab, hr, hf⟩
        exact ⟨c :: a, b, n, rest, hab, hr, hf⟩
      · rintro ⟨a, b, n, rest, hab, hr, hf⟩
        cases a with
        | nil => rw [List.nil_append] at hab; rw [← hab, h] at hr; exact absurd hr (by simp)
        | cons x a =>
          obtain ⟨rfl, _⟩ := List.cons.inj hab
          exact ⟨a, b, n, rest, hab, hr, hf⟩
    | some r =>
      obtain ⟨n, rest⟩ := r
      simp only [occurrencesFrom, h, List.mem_cons, later]
      constructor
      · rintro (rfl | ⟨a, b, m, rest', hab, hr, hf⟩)
        · exact ⟨[], c :: t, n, rest, rfl, h, by simp⟩
        · exact ⟨c :: a, b, m, rest', hab, hr, hf⟩
      · rintro ⟨a, b, m, rest', hab, hr, hf⟩
        cases a with
        | nil =>
          rw [List.nil_append] at hab
          rw [← hab, h] at hr
          obtain ⟨rfl, _⟩ := Prod.mk.inj (Option.some.inj hr)
          exact Or.inl (by simpa using hf)
        | cons x a =>
          obtain ⟨rfl, _⟩ := List.cons.inj hab
          exact Or.inr ⟨a, b, m, rest', hab, hr, hf⟩

/-- The occurrences are the nodes that stand in the document. -/
theorem mem_occurrences_iff {document : Text} {f : Fragment} :
    f ∈ occurrences document ↔ ∃ n index, OccursAt document index n ∧ f = n.fragment index := by
  have h : f ∈ occurrencesFrom (units []) document ↔ _ := mem_occurrencesFrom_iff
  rw [occurrences, ← units_nil, h]
  constructor
  · rintro ⟨a, b, n, rest, rfl, hr, rfl⟩
    exact ⟨n, units a, occursAt_of_read? hr, by simp⟩
  · rintro ⟨n, _, ⟨hw, before, behind, rfl, rfl⟩, rfl⟩
    exact ⟨before, n.spelling ++ behind, n, behind, rfl, OldNode.read?_spelling hw behind, by simp⟩

/-- The fragments of a text that begins at `offset`, of which the first `pending` characters belong
to a fragment already listed. -/
def scan (pending offset : Nat) : Text → List Fragment
  | [] => []
  | c :: t =>
    match pending with
    | k + 1 => scan k (offset + width c) t
    | 0 =>
      match OldNode.read? (c :: t) with
      | some (n, _) => n.fragment offset :: scan (n.spelling.length - 1) (offset + width c) t
      | none => scan 0 (offset + width c) t

/-- The old-shape nodes of a document, leftmost first and without overlap. -/
def findFragments (document : Text) : List Fragment := scan 0 0 document

theorem scan_nil (pending offset : Nat) : scan pending offset [] = [] := rfl

theorem scan_pending (t rest : Text) (offset : Nat) :
    scan t.length offset (t ++ rest) = scan 0 (offset + units t) rest := by
  induction t generalizing offset with
  | nil => simp
  | cons c t ih =>
    simp only [List.length_cons, List.cons_append, scan, ih, units_cons, Nat.add_assoc]

theorem scan_eq_of_read?_eq_none {c : Char} {t : Text} (offset : Nat)
    (h : OldNode.read? (c :: t) = none) :
    scan 0 offset (c :: t) = scan 0 (offset + width c) t := by
  rw [scan, h]

theorem scan_spelling {n : OldNode} (h : n.WellFormed) (offset : Nat) (rest : Text) :
    scan 0 offset (n.spelling ++ rest) =
      n.fragment offset :: scan 0 (offset + units n.spelling) rest := by
  have hr := OldNode.read?_spelling h rest
  obtain ⟨t, ht⟩ : ∃ t, n.spelling = '(' :: t := ⟨_, rfl⟩
  have hp := scan_pending t rest (offset + width '(')
  rw [ht, List.cons_append] at hr ⊢
  rw [scan, hr]
  simp only [ht, List.length_cons, Nat.add_sub_cancel, hp, units_cons, Nat.add_assoc]

end NodeReshape
