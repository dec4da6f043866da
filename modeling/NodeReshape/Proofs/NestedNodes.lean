import Mathlib.Data.List.Forall2
import NodeReshape.Proofs.PendingNode

/-!
# The nodes that a rewriting leaves

A node that starts inside a fragment is not replaced together with it. It starts in one of the
three captures, which are copied, and in the output it is still a node: the nodes of the output
are exactly these, one for one and in the same order.
-/
namespace NodeReshape

open Pattern

/-- The nodes that start in the first of two texts when the second follows it. -/
def startsIn (offset : ℕ) : Text → Text → List Fragment
  | [], _ => []
  | c :: w, r =>
    match OldNode.read? (c :: (w ++ r)) with
    | some (n, _) => n.fragment offset :: startsIn (offset + width c) w r
    | none => startsIn (offset + width c) w r

theorem occurrencesFrom_append (offset : ℕ) (w r : Text) :
    occurrencesFrom offset (w ++ r) =
      startsIn offset w r ++ occurrencesFrom (offset + units w) r := by
  induction w generalizing offset with
  | nil => rfl
  | cons c w ih =>
    rw [List.cons_append, occurrencesFrom, startsIn, units_cons, ← Nat.add_assoc, ih]
    cases OldNode.read? (c :: (w ++ r)) <;> rfl

theorem startsIn_append (offset : ℕ) (w v r : Text) :
    startsIn offset (w ++ v) r =
      startsIn offset w (v ++ r) ++ startsIn (offset + units w) v r := by
  induction w generalizing offset with
  | nil => rfl
  | cons c w ih =>
    rw [List.cons_append, startsIn, startsIn, units_cons, ← Nat.add_assoc, ih, List.append_assoc]
    cases OldNode.read? (c :: (w ++ (v ++ r))) <;> rfl

theorem startsIn_eq_nil {w : Text} (h : '(' ∉ w) (offset : ℕ) (r : Text) :
    startsIn offset w r = [] := by
  induction w generalizing offset with
  | nil => rfl
  | cons c w ih =>
    obtain ⟨hc, hw⟩ := not_or.mp (mt List.mem_cons.mpr h)
    have hr : OldNode.read? (c :: (w ++ r)) = none := by
      simp [OldNode.read?, after?, hc]
    rw [startsIn, hr]
    exact ih hw _

theorem mem_startsIn {offset : ℕ} {w r : Text} {a : Fragment} (h : a ∈ startsIn offset w r) :
    offset ≤ a.index ∧ a.index < offset + units w := by
  induction w generalizing offset with
  | nil => simp [startsIn] at h
  | cons c w ih =>
    have hw := width_pos c
    have later : a ∈ startsIn (offset + width c) w r →
        offset ≤ a.index ∧ a.index < offset + units (c :: w) := by
      intro h
      have := ih h
      rw [units_cons]
      omega
    rw [startsIn] at h
    cases hr : OldNode.read? (c :: (w ++ r)) with
    | none =>
      rw [hr] at h
      exact later h
    | some m =>
      rw [hr] at h
      rcases List.mem_cons.mp h with rfl | h
      · rw [OldNode.index_fragment, units_cons]
        omega
      · exact later h

/-- Two nodes start at the same character of a text, whatever follows the text in either case, and
both run over equally many parentheses. -/
def SameStart (offset offset' : ℕ) (w r r' : Text) (a b : Fragment) : Prop :=
  ∃ (v : Text) (x : Char) (u : Text) (m m' : OldNode) (rest rest' : Text), w = v ++ x :: u ∧
    x :: u ++ r = m.spelling ++ rest ∧ x :: u ++ r' = m'.spelling ++ rest' ∧
    a = m.fragment (offset + units v) ∧ b = m'.fragment (offset' + units v) ∧
    parens m.spelling = parens m'.spelling

theorem SameStart.cons {offset offset' : ℕ} {c : Char} {w r r' : Text} {a b : Fragment}
    (h : SameStart (offset + width c) (offset' + width c) w r r' a b) :
    SameStart offset offset' (c :: w) r r' a b := by
  obtain ⟨v, x, u, m, m', rest, rest', rfl, hm, hm', rfl, rfl, hp⟩ := h
  refine ⟨c :: v, x, u, m, m', rest, rest', rfl, hm, hm', ?_, ?_, hp⟩
  · rw [units_cons, Nat.add_assoc]
  · rw [units_cons, Nat.add_assoc]

theorem forall₂_startsIn {w r r' : Text} (offset offset' : ℕ)
    (h : ∀ v x u, w = v ++ x :: u →
      reach nodePattern (x :: u ++ r) = reach nodePattern (x :: u ++ r')) :
    List.Forall₂ (SameStart offset offset' w r r') (startsIn offset w r)
      (startsIn offset' w r') := by
  induction w generalizing offset offset' with
  | nil => exact List.Forall₂.nil
  | cons c w ih =>
    have later := (ih (offset + width c) (offset' + width c) fun v x u hw =>
      h (c :: v) x u (by rw [hw, List.cons_append])).imp fun _ _ => SameStart.cons
    have here := h [] c w rfl
    rw [reach_nodePattern, reach_nodePattern, List.cons_append, List.cons_append] at here
    rw [startsIn, startsIn]
    cases hr : OldNode.read? (c :: (w ++ r)) with
    | none =>
      rw [hr] at here
      rw [Option.map_eq_none_iff.mp here.symm]
      exact later
    | some m =>
      rw [hr] at here
      obtain ⟨m', hr', hp⟩ := Option.map_eq_some_iff.mp here.symm
      obtain ⟨_, he⟩ := OldNode.eq_spelling_of_read? hr
      obtain ⟨_, he'⟩ := OldNode.eq_spelling_of_read? hr'
      rw [hr']
      exact .cons ⟨[], c, w, m.1, m'.1, m.2, m'.2, rfl, he, he', rfl, rfl, hp.symm⟩ later

/-- The nodes that start in the captures of a node spelled in a frame. -/
def startsInCaptures (offset : ℕ) (F : Frame) (n : OldNode) (r : Text) : List Fragment :=
  [Capture.name, Capture.ty, Capture.inner].flatMap fun c =>
    startsIn (offset + units (F.lead n.name n.ty c)) (n.capture c) (F.trail n.ty n.inner c ++ r)

/-- Nothing starts in a neat frame but at its first character. -/
theorem startsIn_write {F : Frame} (hF : F.Neat) (n : OldNode) (offset : ℕ) (r : Text) :
    ∃ t, F.write n.name n.ty n.inner ++ r = '(' :: t ∧
      startsIn offset (F.write n.name n.ty n.inner) r =
        startsIn offset ['('] t ++ startsInCaptures offset F n r := by
  have hw : F.write n.name n.ty n.inner = ['('] ++ (F.beforeName ++ (['"'] ++ (n.name ++ (['"'] ++
      (F.beforeTy ++ (['"'] ++ (n.ty ++ (['"'] ++ (F.beforeInner ++ (n.inner ++ F.behind)))))))))) := by
    simp [Frame.write]
  have hq : ∀ o r, startsIn o ['"'] r = [] := startsIn_eq_nil (by simp)
  refine ⟨_, by rw [hw, List.append_assoc, List.cons_append, List.nil_append], ?_⟩
  rw [hw]
  iterate 11 rw [startsIn_append]
  simp only [startsIn_eq_nil hF.beforeName.unopened,
    startsIn_eq_nil hF.beforeTy.unopened, startsIn_eq_nil hF.beforeInner.unopened,
    startsIn_eq_nil hF.behind.unopened, hq, List.nil_append, List.append_nil, startsInCaptures,
    List.flatMap_cons, List.flatMap_nil, OldNode.capture, Capture.pick, Frame.lead, Frame.trail,
    units_cons, units_append, units_nil, List.append_assoc, List.cons_append, Nat.add_assoc,
    Nat.add_zero]

theorem startsIn_spelling {n : OldNode} (hn : n.WellFormed) (offset : ℕ) (r : Text) :
    startsIn offset n.spelling r = n.fragment offset :: startsInCaptures offset n.frame n r := by
  obtain ⟨t, ht, hs⟩ := startsIn_write (OldNode.neat_frame hn) n offset r
  rw [← OldNode.spelling_eq_write] at ht hs
  have hr := OldNode.read?_spelling hn r
  rw [ht] at hr
  rw [hs, startsIn, List.nil_append, hr]
  rfl

theorem startsIn_render {n : OldNode} (hn : n.WellFormed) (offset : ℕ) (r : Text) :
    startsIn offset n.render r = startsInCaptures offset newFrame n r := by
  obtain ⟨t, ht, hs⟩ := startsIn_write neat_newFrame n offset r
  rw [← renderNode_eq_write] at ht hs
  have hr := OldNode.read?_render hn r
  rw [OldNode.render, ht] at hr
  rw [OldNode.render, hs, startsIn, List.nil_append, hr]
  rfl

/-- What has started in front of a document reads the document and its rewriting alike. -/
theorem alike_stream (t : Text) : Alike atName t (stream t) := by
  induction t using document_induction with
  | empty => exact fun _ _ => rfl
  | node n rest hn _ =>
    rw [stream_spelling hn, OldNode.spelling_eq_write, OldNode.render, renderNode_eq_write]
    exact OldNode.alike_in_frames hn (OldNode.neat_frame hn) neat_newFrame rest (stream rest)
  | plain c t hr ih =>
    rw [stream_cons hr]
    exact ih.append [c]

/-- No node starts anew at a character outside the fragments. -/
theorem read?_cons_stream {c : Char} {t : Text} (h : OldNode.read? (c :: t) = none) :
    OldNode.read? (c :: stream t) = none := by
  have hr := (alike_stream t).reach_cons c
  rw [reach_nodePattern, reach_nodePattern, h] at hr
  exact Option.map_eq_none_iff.mp hr.symm

/-- The nodes that start in the captures of a node start at the same characters of its
rendering. -/
theorem forall₂_startsInCaptures {n : OldNode} (hn : n.WellFormed) (offset offset' : ℕ) (r : Text) :
    List.Forall₂ (fun a b => ∃ c, SameStart (offset + units (n.frame.lead n.name n.ty c))
        (offset' + units (newFrame.lead n.name n.ty c)) (n.capture c)
        (n.frame.trail n.ty n.inner c ++ r) (newFrame.trail n.ty n.inner c ++ stream r) a b)
      (startsInCaptures offset n.frame n r) (startsInCaptures offset' newFrame n (stream r)) := by
  have reach_eq : ∀ c v x u, n.capture c = v ++ x :: u →
      reach nodePattern (x :: u ++ (n.frame.trail n.ty n.inner c ++ r)) =
        reach nodePattern (x :: u ++ (newFrame.trail n.ty n.inner c ++ stream r)) := by
    intro c v x u hw
    exact reach_of_capture n.body (OldNode.neat_frame hn) neat_newFrame hn.nameEntry.unquoted
      hn.tyEntry.unquoted (alike_stream r) c hw
  simp only [startsInCaptures, List.flatMap_cons, List.flatMap_nil, List.append_nil]
  refine List.rel_append ?_ (List.rel_append ?_ ?_)
  · exact (forall₂_startsIn _ _ (reach_eq .name)).imp fun _ _ h => ⟨.name, h⟩
  · exact (forall₂_startsIn _ _ (reach_eq .ty)).imp fun _ _ h => ⟨.ty, h⟩
  · exact (forall₂_startsIn _ _ (reach_eq .inner)).imp fun _ _ h => ⟨.inner, h⟩

theorem le_index_of_mem_occurrencesFrom {offset : ℕ} {t : Text} {a : Fragment}
    (h : a ∈ occurrencesFrom offset t) : offset ≤ a.index := by
  have ht := occurrencesFrom_append offset t []
  rw [List.append_nil, occurrencesFrom, List.append_nil] at ht
  rw [ht] at h
  exact (mem_startsIn h).1

theorem occurrencesFrom_pairwise (offset : ℕ) (t : Text) :
    (occurrencesFrom offset t).Pairwise fun a b => a.index < b.index := by
  induction t generalizing offset with
  | nil => exact List.Pairwise.nil
  | cons c t ih =>
    rw [occurrencesFrom]
    cases OldNode.read? (c :: t) with
    | none => exact ih _
    | some m =>
      refine List.pairwise_cons.mpr ⟨?_, ih _⟩
      intro b hb
      have hw := width_pos c
      have hi := le_index_of_mem_occurrencesFrom hb
      rw [OldNode.index_fragment]
      omega

theorem occurrencesFrom_spelling {n : OldNode} (hn : n.WellFormed) (offset : ℕ) (r : Text) :
    occurrencesFrom offset (n.spelling ++ r) = n.fragment offset ::
      (startsInCaptures offset n.frame n r ++ occurrencesFrom (offset + units n.spelling) r) := by
  rw [occurrencesFrom_append, startsIn_spelling hn, List.cons_append]

theorem occurrencesFrom_cons {c : Char} {t : Text} (h : OldNode.read? (c :: t) = none)
    (offset : ℕ) : occurrencesFrom offset (c :: t) = occurrencesFrom (offset + width c) t := by
  rw [occurrencesFrom, h]

/-- The nodes of a text that are not among its fragments. -/
def nestedFrom (offset : ℕ) (t : Text) : List Fragment :=
  (occurrencesFrom offset t).filter fun a => a.index ∉ (scan 0 offset t).map Fragment.index

/-- The nodes of a document that are not among its fragments. -/
def nested (document : Text) : List Fragment :=
  (occurrences document).filter fun a => a.index ∉ (findFragments document).map Fragment.index

theorem nestedFrom_spelling {n : OldNode} (hn : n.WellFormed) (offset : ℕ) (r : Text) :
    nestedFrom offset (n.spelling ++ r) =
      startsInCaptures offset n.frame n r ++ nestedFrom (offset + units n.spelling) r := by
  have hpos := n.units_spelling_pos
  have hsort := occurrencesFrom_pairwise offset (n.spelling ++ r)
  rw [occurrencesFrom_spelling hn, List.pairwise_cons] at hsort
  have hstop : ∀ a ∈ startsInCaptures offset n.frame n r, a.index < offset + units n.spelling := by
    intro a ha
    have hm : a ∈ startsIn offset n.spelling r := by
      rw [startsIn_spelling hn]
      exact List.mem_cons_of_mem _ ha
    exact (mem_startsIn hm).2
  have hscan : ∀ i < offset + units n.spelling,
      i ∉ (scan 0 (offset + units n.spelling) r).map Fragment.index := by
    intro i hi hm
    obtain ⟨f, hf, rfl⟩ := List.mem_map.mp hm
    have := le_index_of_mem_scan hf
    omega
  rw [nestedFrom, nestedFrom, occurrencesFrom_spelling hn, scan_spelling hn, List.map_cons,
    List.filter_cons_of_neg (by simp), List.filter_append]
  congr 1
  · refine List.filter_eq_self.mpr ?_
    intro a ha
    have hlt := hsort.1 a (List.mem_append_left _ ha)
    rw [OldNode.index_fragment] at hlt
    have hne : a.index ≠ offset := by omega
    simpa [hne] using hscan a.index (hstop a ha)
  · refine List.filter_congr ?_
    intro a ha
    have hle := le_index_of_mem_occurrencesFrom ha
    have hne : a.index ≠ offset := by omega
    simp [hne]

theorem nestedFrom_cons {c : Char} {t : Text} (h : OldNode.read? (c :: t) = none) (offset : ℕ) :
    nestedFrom offset (c :: t) = nestedFrom (offset + width c) t := by
  rw [nestedFrom, nestedFrom, occurrencesFrom_cons h, scan_eq_of_read?_eq_none offset h]

/-- The nodes of a text are its fragments and the nested ones. -/
theorem nestedFrom_append_scan_perm (t : Text) (offset : ℕ) :
    (nestedFrom offset t ++ scan 0 offset t).Perm (occurrencesFrom offset t) := by
  induction t using document_induction generalizing offset with
  | empty => exact List.Perm.refl _
  | node n r hn ih =>
    have hi := ih (offset + units n.spelling)
    rw [nestedFrom_spelling hn, scan_spelling hn, occurrencesFrom_spelling hn]
    refine List.perm_middle.trans ?_
    rw [List.append_assoc]
    exact (hi.append_left _).cons _
  | plain c t hr ih =>
    rw [nestedFrom_cons hr, scan_eq_of_read?_eq_none offset hr, occurrencesFrom_cons hr]
    exact ih _

theorem nested_append_findFragments_perm (document : Text) :
    (nested document ++ findFragments document).Perm (occurrences document) :=
  nestedFrom_append_scan_perm document 0

end NodeReshape
