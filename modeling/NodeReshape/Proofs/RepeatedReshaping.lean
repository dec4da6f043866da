import Mathlib.Algebra.BigOperators.Group.List.Lemmas
import Mathlib.Logic.Function.Iterate
import NodeReshape.Proofs.NestedNodes

/-!
# Reshaping over and over

A pass turns the fragments into renderings and carries every other node along with the capture in
which it starts. So each pass uses up as many nodes as it reports, and the passes come to an end
when every node of the document has been a fragment once.
-/
namespace NodeReshape

/-- A node starts in a capture of a fragment of the text, and another one starts in the rewritten
text at the same character of this capture. -/
def CarriedFrom (offset offset' : ℕ) (t : Text) (a b : Fragment) : Prop :=
  ∃ (done : List Fragment) (f : Fragment) (rest : List Fragment) (before : Text) (n : OldNode)
    (behind : Text) (c : Capture) (v : Text) (x : Char) (u : Text),
    scan 0 offset t = done ++ f :: rest ∧ n.WellFormed ∧ t = before ++ (n.spelling ++ behind) ∧
    f = n.fragment (offset + units before) ∧ n.capture c = v ++ x :: u ∧
    a.index = offset + units before + units (n.frame.lead n.name n.ty c) + units v ∧
    (b.index : ℤ) = offset' + units before + shift done +
      units (newFrame.lead n.name n.ty c) + units v

/-- Two texts hold a node each, with equally many parentheses in front of it and in it. -/
def SameParens (offset offset' : ℕ) (t t' : Text) (a b : Fragment) : Prop :=
  ∃ (w w' : Text) (m m' : OldNode) (rest rest' : Text), t = w ++ (m.spelling ++ rest) ∧
    t' = w' ++ (m'.spelling ++ rest') ∧ a = m.fragment (offset + units w) ∧
    b = m'.fragment (offset' + units w') ∧ parens w = parens w' ∧
    parens m.spelling = parens m'.spelling

theorem shift_append (fs gs : List Fragment) : shift (fs ++ gs) = shift fs + shift gs := by
  simp [shift]

section Prefix

variable {offset offset' : ℕ} {w w' t t' : Text} {a b : Fragment}

theorem CarriedFrom.append {fs : List Fragment}
    (hs : scan 0 offset (w ++ t) = fs ++ scan 0 (offset + units w) t)
    (hu : (units w' : ℤ) = units w + shift fs)
    (h : CarriedFrom (offset + units w) (offset' + units w') t a b) :
    CarriedFrom offset offset' (w ++ t) a b := by
  obtain ⟨done, f, rest, before, n, behind, c, v, x, u, hd, hn, rfl, rfl, hc, ha, hb⟩ := h
  refine ⟨fs ++ done, n.fragment (offset + units (w ++ before)), rest, w ++ before, n, behind, c, v,
    x, u, ?_, hn, ?_, rfl, hc, ?_, ?_⟩
  · rw [hs, hd, List.append_assoc, units_append, Nat.add_assoc]
  · rw [List.append_assoc]
  · rw [ha, units_append, Nat.add_assoc offset]
  · rw [hb, shift_append, units_append]
    push_cast
    linarith

theorem SameParens.append (hp : parens w = parens w')
    (h : SameParens (offset + units w) (offset' + units w') t t' a b) :
    SameParens offset offset' (w ++ t) (w' ++ t') a b := by
  obtain ⟨v, v', m, m', rest, rest', rfl, rfl, rfl, rfl, hv, hm⟩ := h
  refine ⟨w ++ v, w' ++ v', m, m', rest, rest', ?_, ?_, ?_, ?_, ?_, hm⟩
  · rw [List.append_assoc]
  · rw [List.append_assoc]
  · rw [units_append, Nat.add_assoc]
  · rw [units_append, Nat.add_assoc]
  · rw [parens_append, parens_append, hp, hv]

end Prefix

theorem Frame.Neat.parens_lead {F F' : Frame} (hF : F.Neat) (hF' : F'.Neat) (name ty : Text)
    (c : Capture) : parens (F.lead name ty c) = parens (F'.lead name ty c) := by
  have hq : ∀ t : Text, parens ('"' :: t) = parens t := fun t => by simp [parens]
  have hb : ∀ t : Text, parens ('(' :: t) = 1 + parens t := parens_cons '('
  cases c <;> simp only [lead, hb, hq, parens_append, parens_nil, hF.beforeName.parens_eq_zero,
    hF.beforeTy.parens_eq_zero, hF.beforeInner.parens_eq_zero, hF'.beforeName.parens_eq_zero,
    hF'.beforeTy.parens_eq_zero, hF'.beforeInner.parens_eq_zero]

theorem OldNode.parens_render {n : OldNode} (hn : n.WellFormed) :
    parens n.render = parens n.spelling := by
  rw [spelling_eq_write, render, renderNode_eq_write, (neat_frame hn).parens_write,
    neat_newFrame.parens_write]

theorem OldNode.spelling_eq_lead_append (n : OldNode) (c : Capture) :
    n.spelling = n.frame.lead n.name n.ty c ++ (n.capture c ++ n.frame.trail n.ty n.inner c) := by
  rw [spelling_eq_write, Frame.write_eq_lead_append _ _ _ _ c, capture]

theorem OldNode.render_eq_lead_append (n : OldNode) (c : Capture) :
    n.render = newFrame.lead n.name n.ty c ++ (n.capture c ++ newFrame.trail n.ty n.inner c) := by
  rw [render, renderNode_eq_write, Frame.write_eq_lead_append _ _ _ _ c, capture]

section FirstNode

variable {n : OldNode} {offset offset' : ℕ} {r : Text} {c : Capture} {a b : Fragment}

theorem SameStart.carriedFrom (hn : n.WellFormed)
    (h : SameStart (offset + units (n.frame.lead n.name n.ty c))
      (offset' + units (newFrame.lead n.name n.ty c)) (n.capture c)
      (n.frame.trail n.ty n.inner c ++ r) (newFrame.trail n.ty n.inner c ++ stream r) a b) :
    CarriedFrom offset offset' (n.spelling ++ r) a b := by
  obtain ⟨v, x, u, m, m', rest, rest', hc, _, _, rfl, rfl, _⟩ := h
  refine ⟨[], n.fragment offset, scan 0 (offset + units n.spelling) r, [], n, r, c, v, x, u,
    scan_spelling hn offset r, hn, rfl, by simp, hc, by simp, by simp [shift]⟩

theorem SameStart.sameParens (hn : n.WellFormed)
    (h : SameStart (offset + units (n.frame.lead n.name n.ty c))
      (offset' + units (newFrame.lead n.name n.ty c)) (n.capture c)
      (n.frame.trail n.ty n.inner c ++ r) (newFrame.trail n.ty n.inner c ++ stream r) a b) :
    SameParens offset offset' (n.spelling ++ r) (n.render ++ stream r) a b := by
  obtain ⟨v, x, u, m, m', rest, rest', hc, hm, hm', rfl, rfl, hp⟩ := h
  refine ⟨n.frame.lead n.name n.ty c ++ v, newFrame.lead n.name n.ty c ++ v, m, m', rest, rest',
    ?_, ?_, ?_, ?_, ?_, hp⟩
  · rw [n.spelling_eq_lead_append c, hc, ← hm]
    simp only [List.append_assoc]
  · rw [n.render_eq_lead_append c, hc, ← hm']
    simp only [List.append_assoc]
  · rw [units_append, Nat.add_assoc]
  · rw [units_append, Nat.add_assoc]
  · rw [parens_append, parens_append, (OldNode.neat_frame hn).parens_lead neat_newFrame]

end FirstNode

/-- The nodes of a rewritten text are, in order, the nested nodes of the text. -/
theorem forall₂_nestedFrom (t : Text) (offset offset' : ℕ) :
    List.Forall₂ (fun a b =>
        CarriedFrom offset offset' t a b ∧ SameParens offset offset' t (stream t) a b)
      (nestedFrom offset t) (occurrencesFrom offset' (stream t)) := by
  induction t using document_induction generalizing offset offset' with
  | empty => exact .nil
  | node n r hn ih =>
    rw [nestedFrom_spelling hn, stream_spelling hn, occurrencesFrom_append, startsIn_render hn]
    refine List.rel_append ?_ ?_
    · refine (forall₂_startsInCaptures hn offset offset' r).imp ?_
      rintro a b ⟨c, h⟩
      exact ⟨h.carriedFrom hn, h.sameParens hn⟩
    · refine (ih (offset + units n.spelling) (offset' + units n.render)).imp ?_
      rintro a b ⟨h, hp⟩
      have hu : (units n.render : ℤ) = units n.spelling + shift [n.fragment offset] := by
        rw [units_render n offset]
        simp [shift]
      exact ⟨h.append (scan_spelling hn offset r) hu, hp.append (OldNode.parens_render hn).symm⟩
  | plain c t hr ih =>
    rw [nestedFrom_cons hr, stream_cons hr, occurrencesFrom_cons (read?_cons_stream hr)]
    refine (ih (offset + width c) (offset' + width c)).imp ?_
    rintro a b ⟨h, hp⟩
    have hs : scan 0 offset ([c] ++ t) = [] ++ scan 0 (offset + units [c]) t :=
      scan_eq_of_read?_eq_none offset hr
    have hu : (units [c] : ℤ) = units [c] + shift [] := (Int.add_zero _).symm
    have hc : parens [c] = parens [c] := rfl
    exact ⟨h.append hs hu, hp.append hc⟩

/-- A node starts at a character of the name, the type or the inner text of a fragment, and another
one starts at the same character of this text in the rendering of the fragment. -/
def Carried (document : Text) (a b : Fragment) : Prop :=
  ∃ (done : List Fragment) (f : Fragment) (rest : List Fragment) (n : OldNode) (c : Capture)
    (v : Text) (x : Char) (u : Text),
    findFragments document = done ++ f :: rest ∧ OccursAt document f.index n ∧
    f = n.fragment f.index ∧ n.capture c = v ++ x :: u ∧
    a.index = f.index + units (n.frame.lead n.name n.ty c) + units v ∧
    (b.index : ℤ) = f.index + shift done + units (newFrame.lead n.name n.ty c) + units v

theorem CarriedFrom.carried {document : Text} {a b : Fragment}
    (h : CarriedFrom 0 0 document a b) : Carried document a b := by
  obtain ⟨done, f, rest, before, n, behind, c, v, x, u, hd, hn, he, rfl, hc, ha, hb⟩ := h
  rw [Nat.zero_add] at hd ha
  refine ⟨done, n.fragment (units before), rest, n, c, v, x, u, hd, ⟨hn, before, behind, he, rfl⟩,
    rfl, hc, ha, ?_⟩
  rw [hb, OldNode.index_fragment, Nat.cast_zero, Int.zero_add]

theorem forall₂_nested (document : Text) :
    List.Forall₂ (fun a b => Carried document a b ∧
        SameParens 0 0 document (transform document) a b)
      (nested document) (occurrences (transform document)) := by
  rw [transform_eq_stream]
  exact (forall₂_nestedFrom document 0 0).imp fun _ _ h => ⟨h.1.carried, h.2⟩

theorem length_occurrences_transform (document : Text) :
    (occurrences (transform document)).length + (findFragments document).length =
      (occurrences document).length := by
  rw [← (forall₂_nested document).length_eq, ← List.length_append]
  exact (nested_append_findFragments_perm document).length_eq

/-- A document without fragments has no nodes at all, nested ones included. -/
theorem findFragments_eq_nil_iff (document : Text) :
    findFragments document = [] ↔ occurrences document = [] := by
  have hl := length_occurrences_transform document
  constructor
  · intro hf
    refine List.eq_nil_iff_forall_not_mem.mpr ?_
    intro a ha
    obtain ⟨n, index, ho, _⟩ := mem_occurrences_iff.mp ha
    obtain ⟨f, hm, _⟩ := (leftmostListing_findFragments document).complete index n ho
    simp [hf] at hm
  · intro ho
    rw [ho, List.length_nil] at hl
    exact List.length_eq_zero_iff.mp (by omega)

theorem transform_of_findFragments_eq_nil {document : Text} (h : findFragments document = []) :
    transform document = document := by
  rw [transform, reshape, h]

theorem transform_eq_self_iff (document : Text) :
    transform document = document ↔ findFragments document = [] := by
  constructor
  · intro h
    have hl := length_occurrences_transform document
    rw [h] at hl
    exact List.length_eq_zero_iff.mp (by omega)
  · exact transform_of_findFragments_eq_nil

/-- Every pass on a document that still has nodes leaves fewer of them. -/
theorem length_occurrences_iterate (n : ℕ) (document : Text) :
    (occurrences (transform^[n] document)).length ≤ (occurrences document).length - n := by
  induction n with
  | zero => exact Nat.le_refl _
  | succ n ih =>
    have hl := length_occurrences_transform (transform^[n] document)
    rw [Function.iterate_succ_apply']
    cases hf : findFragments (transform^[n] document) with
    | nil =>
      have ho := (findFragments_eq_nil_iff _).mp hf
      rw [ho, List.length_nil] at hl
      omega
    | cons f fs =>
      rw [hf, List.length_cons] at hl
      omega

theorem findFragments_iterate_eq_nil {n : ℕ} {document : Text}
    (h : (occurrences document).length ≤ n) : findFragments (transform^[n] document) = [] := by
  have hl := length_occurrences_iterate n document
  exact (findFragments_eq_nil_iff _).mpr (List.length_eq_zero_iff.mp (by omega))

/-- The nodes left behind some passes are those of the document less the fragments reported. -/
theorem passes_sum (n : ℕ) (document : Text) :
    ((passes n document).map fun r => r.fragments.length).sum +
      (occurrences (transform^[n] document)).length = (occurrences document).length := by
  induction n generalizing document with
  | zero => simp [passes]
  | succ n ih =>
    have hi := ih (transform document)
    have hl := length_occurrences_transform document
    rw [passes, List.map_cons, List.sum_cons, fragments_reshape, Function.iterate_succ_apply]
    omega

theorem occurrences_pairwise (document : Text) :
    (occurrences document).Pairwise fun a b => a.index < b.index :=
  occurrencesFrom_pairwise 0 document

/-- The nodes of the output are the nodes of the document that are not fragments, each carried with
the capture in which it starts, and with enough passes all nodes are reported and replaced. -/
theorem occurrences_transform_carried (document : Text) :
    List.Forall₂ (Carried document) (nested document) (occurrences (transform document)) ∧
      (nested document).Pairwise (fun a b => a.index < b.index) ∧
      (occurrences (transform document)).Pairwise (fun a b => a.index < b.index) ∧
      (occurrences (transform document)).length + (findFragments document).length =
        (occurrences document).length ∧
      ∀ n, (occurrences document).length ≤ n →
        transform (transform^[n] document) = transform^[n] document ∧
        ((passes n document).map fun r => r.fragments.length).sum =
          (occurrences document).length := by
  refine ⟨(forall₂_nested document).imp fun _ _ h => h.1, (occurrences_pairwise document).filter _,
    occurrences_pairwise _, length_occurrences_transform document, ?_⟩
  intro n hn
  have hf := findFragments_iterate_eq_nil hn
  have hs := passes_sum n document
  rw [(findFragments_eq_nil_iff _).mp hf, List.length_nil, Nat.add_zero] at hs
  exact ⟨transform_of_findFragments_eq_nil hf, hs⟩

end NodeReshape
