import Mathlib.Data.Finset.Max
import Mathlib.Data.Finset.Lattice.Fold
import Mathlib.Order.Lattice.Nat
import NodeReshape.Proofs.RepeatedReshaping

/-!
# How many passes a document takes

The nesting of a document is the greatest number of nodes over one offset. It is reached where a
node starts, and every such offset lies in exactly one fragment. So a pass takes one node away
there, and since it keeps the order in which nodes start and stop, the nesting falls by one.
-/
namespace NodeReshape

structure Span where
  start : ℕ
  stop : ℕ
  deriving DecidableEq

/-- The number of spans over an offset. -/
def covering (spans : List Span) (x : ℕ) : ℕ := spans.countP fun s => s.start ≤ x ∧ x < s.stop

/-- The greatest number of spans over the start of one of them. -/
def peak (spans : List Span) : ℕ := (spans.map Span.start).toFinset.sup (covering spans)

theorem covering_le_peak (spans : List Span) (x : ℕ) : covering spans x ≤ peak spans := by
  let above := spans.filter fun s => s.start ≤ x ∧ x < s.stop
  have hlen : covering spans x = above.length := List.countP_eq_length_filter
  rcases List.eq_nil_or_concat above with hnil | ⟨_, s₀, hcon⟩
  · rw [hlen, hnil]
    exact Nat.zero_le _
  · -- All spans over `x` are over the start of the one that starts last.
    have hne : above.toFinset.Nonempty := ⟨s₀, by simp [hcon]⟩
    obtain ⟨s, hs, hmax⟩ := Finset.exists_max_image above.toFinset Span.start hne
    have hs' : s ∈ spans ∧ s.start ≤ x ∧ x < s.stop := by simpa [above] using hs
    have hle : covering spans x ≤ covering spans s.start := by
      refine List.countP_mono_left ?_
      intro r hr hx
      have hx' : r.start ≤ x ∧ x < r.stop := by simpa using hx
      have hrs : r.start ≤ s.start := hmax r (by simpa [above] using ⟨hr, hx'⟩)
      have hst : s.start < r.stop := by omega
      simpa using ⟨hrs, hst⟩
    refine hle.trans (Finset.le_sup (f := covering spans) ?_)
    exact List.mem_toFinset.mpr (List.mem_map_of_mem hs'.1)

theorem exists_covering_eq_peak {spans : List Span} (h : spans ≠ []) :
    ∃ s ∈ spans, covering spans s.start = peak spans := by
  obtain ⟨s, hs⟩ := List.exists_mem_of_ne_nil _ h
  have hne : (spans.map Span.start).toFinset.Nonempty :=
    ⟨s.start, List.mem_toFinset.mpr (List.mem_map_of_mem hs)⟩
  obtain ⟨x, hx, he⟩ := Finset.exists_mem_eq_sup _ hne (covering spans)
  obtain ⟨r, hr, rfl⟩ := List.mem_map.mp (List.mem_toFinset.mp hx)
  exact ⟨r, hr, he.symm⟩

/-- The peak is the maximum over all offsets of a text in which the spans lie. -/
theorem sup_covering {spans : List Span} {size : ℕ}
    (h : ∀ s ∈ spans, s.start < s.stop ∧ s.stop ≤ size) :
    (Finset.range size).sup (covering spans) = peak spans := by
  refine Nat.le_antisymm (Finset.sup_le fun x _ => covering_le_peak spans x) ?_
  refine Finset.sup_le ?_
  intro x hx
  obtain ⟨s, hs, rfl⟩ := List.mem_map.mp (List.mem_toFinset.mp hx)
  have hlt := h s hs
  exact Finset.le_sup (f := covering spans) (Finset.mem_range.mpr (by omega))

/-- Counting offsets otherwise keeps the peak, as long as everything behind a start is counted
higher than the start. -/
theorem peak_map {spans : List Span} {count : ℕ → ℕ} (hmono : Monotone count)
    (hstart : ∀ s ∈ spans, ∀ x, s.start < x → count s.start < count x) :
    peak (spans.map fun s => ⟨count s.start, count s.stop⟩) = peak spans := by
  have hcov : ∀ s ∈ spans,
      covering (spans.map fun s => ⟨count s.start, count s.stop⟩) (count s.start) =
        covering spans s.start := by
    intro s hs
    rw [covering, List.countP_map]
    refine List.countP_congr ?_
    intro r hr
    have h1 : count r.start ≤ count s.start ↔ r.start ≤ s.start := by
      refine ⟨fun hle => ?_, fun hle => hmono hle⟩
      by_contra hlt
      have := hstart s hs r.start (by omega)
      omega
    have h2 : count s.start < count r.stop ↔ s.start < r.stop := by
      refine ⟨fun hlt => ?_, hstart s hs r.stop⟩
      by_contra hle
      have := hmono (Nat.le_of_not_lt hle)
      omega
    simp [h1, h2]
  have hstarts : ((spans.map fun s => (⟨count s.start, count s.stop⟩ : Span)).map
      Span.start).toFinset = (spans.map Span.start).toFinset.image count := by
    ext x
    simp
  rw [peak, peak, hstarts, Finset.sup_image]
  refine Finset.sup_congr rfl ?_
  intro x hx
  obtain ⟨s, hs, rfl⟩ := List.mem_map.mp (List.mem_toFinset.mp hx)
  exact hcov s hs

/-- At an offset in one of several spans that are apart, one span stands over it. -/
theorem covering_eq_one {spans : List Span} {x : ℕ} (hpos : ∀ s ∈ spans, s.start < s.stop)
    (apart : spans.Pairwise fun s r => s.stop ≤ r.start)
    (hx : ∃ s ∈ spans, s.start ≤ x ∧ x < s.stop) : covering spans x = 1 := by
  induction spans with
  | nil => simp at hx
  | cons s spans ih =>
    obtain ⟨hs, apart'⟩ := List.pairwise_cons.mp apart
    rw [covering, List.countP_cons]
    by_cases h : s.start ≤ x ∧ x < s.stop
    · have hzero : spans.countP (fun r => r.start ≤ x ∧ x < r.stop) = 0 := by
        refine List.countP_eq_zero.mpr ?_
        intro r hr hover
        have hover' : r.start ≤ x ∧ x < r.stop := by simpa using hover
        have := hs r hr
        omega
      rw [hzero, if_pos (decide_eq_true h)]
    · have hx' : ∃ r ∈ spans, r.start ≤ x ∧ x < r.stop := by
        obtain ⟨r, hr, hover⟩ := hx
        rcases List.mem_cons.mp hr with rfl | hr
        · exact absurd hover h
        · exact ⟨r, hr, hover⟩
      have hi := ih (fun r hr => hpos r (List.mem_cons_of_mem _ hr)) apart' hx'
      rw [covering] at hi
      rw [hi, if_neg (by simpa using h)]

theorem covering_append (spans spans' : List Span) (x : ℕ) :
    covering (spans ++ spans') x = covering spans x + covering spans' x :=
  List.countP_append

def Fragment.span (f : Fragment) : Span := ⟨f.index, f.stop⟩

@[simp] theorem Fragment.start_span (f : Fragment) : f.span.start = f.index := rfl

@[simp] theorem Fragment.stop_span (f : Fragment) : f.span.stop = f.stop := rfl

/-- The greatest number of nodes, nested ones included, over one offset of a document. -/
def nesting (document : Text) : ℕ :=
  (Finset.range (units document)).sup (covering ((occurrences document).map Fragment.span))

theorem occursAt_of_mem_occurrences {document : Text} {f : Fragment}
    (h : f ∈ occurrences document) : ∃ n, OccursAt document f.index n ∧ f = n.fragment f.index := by
  obtain ⟨n, index, ho, rfl⟩ := mem_occurrences_iff.mp h
  exact ⟨n, ho, rfl⟩

theorem nesting_eq_peak (document : Text) :
    nesting document = peak ((occurrences document).map Fragment.span) := by
  refine sup_covering ?_
  intro s hs
  obtain ⟨f, hf, rfl⟩ := List.mem_map.mp hs
  obtain ⟨n, ho, he⟩ := occursAt_of_mem_occurrences hf
  have hpos := n.units_spelling_pos
  have hstop : f.stop = f.index + units n.spelling := by rw [he, OldNode.stop_fragment]; rfl
  have hinside := ho.stop_le_units
  rw [← he] at hinside
  rw [Fragment.start_span, Fragment.stop_span]
  omega

/-- Where a node starts, one fragment stands over it. -/
theorem covering_findFragments {document : Text} {f : Fragment} (h : f ∈ occurrences document) :
    covering ((findFragments document).map Fragment.span) f.index = 1 := by
  have hl := leftmostListing_findFragments document
  obtain ⟨n, ho, _⟩ := occursAt_of_mem_occurrences h
  refine covering_eq_one ?_ (List.pairwise_map.mpr hl.apart) ?_
  · intro s hs
    obtain ⟨g, hg, rfl⟩ := List.mem_map.mp hs
    exact hl.index_lt_stop hg
  · obtain ⟨g, hg, hover⟩ := hl.complete _ _ ho
    exact ⟨g.span, List.mem_map_of_mem hg, hover⟩

theorem covering_occurrences {document : Text} {f : Fragment} (h : f ∈ occurrences document) :
    covering ((occurrences document).map Fragment.span) f.index =
      covering ((nested document).map Fragment.span) f.index + 1 := by
  have hp := (nested_append_findFragments_perm document).map Fragment.span
  rw [List.map_append] at hp
  rw [covering, ← hp.countP_eq, ← covering, covering_append, covering_findFragments h]

/-- Replacing the fragments takes one node away over every offset where the most nodes are. -/
theorem peak_nested {document : Text} (h : occurrences document ≠ []) :
    peak ((nested document).map Fragment.span) + 1 = nesting document := by
  rw [nesting_eq_peak]
  apply Nat.le_antisymm
  · by_cases hn : nested document = []
    · obtain ⟨f, hf⟩ := List.exists_mem_of_ne_nil _ h
      have hc := covering_occurrences hf
      have hle := covering_le_peak ((occurrences document).map Fragment.span) f.index
      rw [hn] at hc ⊢
      have hz : peak (List.map Fragment.span []) = 0 := rfl
      omega
    · have hne : (nested document).map Fragment.span ≠ [] := mt List.map_eq_nil_iff.mp hn
      obtain ⟨s, hs, he⟩ := exists_covering_eq_peak hne
      obtain ⟨f, hf, rfl⟩ := List.mem_map.mp hs
      have hc := covering_occurrences (List.mem_of_mem_filter hf)
      have hle := covering_le_peak ((occurrences document).map Fragment.span) f.index
      rw [Fragment.start_span] at he
      omega
  · have hne : (occurrences document).map Fragment.span ≠ [] := mt List.map_eq_nil_iff.mp h
    obtain ⟨s, hs, he⟩ := exists_covering_eq_peak hne
    obtain ⟨f, hf, rfl⟩ := List.mem_map.mp hs
    have hc := covering_occurrences hf
    have hle := covering_le_peak ((nested document).map Fragment.span) f.index
    rw [Fragment.start_span] at he
    omega

theorem takeUnits_mono {k m : ℕ} (h : k ≤ m) (t : Text) : takeUnits k t <+: takeUnits m t := by
  induction t generalizing k m with
  | nil => cases k <;> simp [takeUnits]
  | cons c t ih =>
    cases k with
    | zero => exact List.nil_prefix
    | succ k =>
      obtain ⟨m, rfl⟩ : ∃ j, m = j + 1 := ⟨m - 1, by omega⟩
      rw [takeUnits, takeUnits]
      exact (List.prefix_cons_inj c).mpr (ih (by omega))

/-- The parentheses in front of an offset. -/
def parensBefore (document : Text) (x : ℕ) : ℕ := parens (takeUnits x document)

theorem parensBefore_mono (document : Text) : Monotone (parensBefore document) := by
  intro x y h
  exact (takeUnits_mono h document).sublist.countP_le

theorem parensBefore_lt {document : Text} {index x : ℕ} {n : OldNode}
    (h : OccursAt document index n) (hx : index < x) :
    parensBefore document index < parensBefore document x := by
  obtain ⟨_, before, behind, rfl, rfl⟩ := h
  obtain ⟨t, ht⟩ : ∃ t, n.spelling = '(' :: t := ⟨_, rfl⟩
  have hsplit : before ++ (n.spelling ++ behind) = (before ++ ['(']) ++ (t ++ behind) := by
    rw [ht, List.append_assoc, List.cons_append, List.cons_append, List.nil_append]
  have hopen : units (before ++ ['(']) ≤ x := by
    have hw : width '(' = 1 := rfl
    rw [units_append, units_cons, hw, units_nil]
    omega
  have hp : parens ['('] = 1 := rfl
  have hle := parensBefore_mono (before ++ (n.spelling ++ behind)) hopen
  rw [parensBefore, parensBefore, hsplit, takeUnits_units, parens_append, hp] at hle
  rw [parensBefore, takeUnits_units, hsplit, parensBefore]
  omega

/-- The peak of some nodes of a document is found from the parentheses alone. -/
theorem peak_parensBefore {document : Text} {fs : List Fragment}
    (h : ∀ f ∈ fs, f ∈ occurrences document) :
    peak (fs.map fun f =>
      ⟨parensBefore document f.index, parensBefore document f.stop⟩) =
        peak (fs.map Fragment.span) := by
  have hstart : ∀ s ∈ fs.map Fragment.span, ∀ x, s.start < x →
      parensBefore document s.start < parensBefore document x := by
    intro s hs x hx
    obtain ⟨f, hf, rfl⟩ := List.mem_map.mp hs
    obtain ⟨n, ho, _⟩ := occursAt_of_mem_occurrences (h f hf)
    exact parensBefore_lt ho hx
  rw [← peak_map (parensBefore_mono document) hstart, List.map_map]
  rfl

theorem SameParens.span_eq {document output : Text} {a b : Fragment}
    (h : SameParens 0 0 document output a b) :
    (⟨parensBefore document a.index, parensBefore document a.stop⟩ : Span) =
      ⟨parensBefore output b.index, parensBefore output b.stop⟩ := by
  obtain ⟨w, w', m, m', rest, rest', rfl, rfl, rfl, rfl, hw, hm⟩ := h
  have hbefore : ∀ (w : Text) (m : OldNode) (rest : Text),
      parensBefore (w ++ (m.spelling ++ rest)) (m.fragment (0 + units w)).index = parens w ∧
        parensBefore (w ++ (m.spelling ++ rest)) (m.fragment (0 + units w)).stop =
          parens w + parens m.spelling := by
    intro w m rest
    rw [Nat.zero_add, OldNode.index_fragment, OldNode.stop_fragment, ← units_append]
    refine ⟨?_, ?_⟩
    · rw [parensBefore, takeUnits_units]
    · rw [parensBefore, ← List.append_assoc, takeUnits_units, parens_append]
  rw [(hbefore w m rest).1, (hbefore w m rest).2, (hbefore w' m' rest').1,
    (hbefore w' m' rest').2, hw, hm]

/-- The nodes of the output are nested as they were in the document. -/
theorem nesting_transform_eq_peak (document : Text) :
    nesting (transform document) = peak ((nested document).map Fragment.span) := by
  have hmap : (nested document).map (fun f =>
      (⟨parensBefore document f.index, parensBefore document f.stop⟩ : Span)) =
        (occurrences (transform document)).map fun f =>
          ⟨parensBefore (transform document) f.index, parensBefore (transform document) f.stop⟩ := by
    rw [← List.forall₂_eq_eq_eq, List.forall₂_map_left_iff, List.forall₂_map_right_iff]
    exact (forall₂_nested document).imp fun a b h => h.2.span_eq
  have hmem : ∀ f ∈ nested document, f ∈ occurrences document :=
    fun f hf => List.mem_of_mem_filter hf
  rw [nesting_eq_peak, ← peak_parensBefore fun f hf => hf, ← hmap, peak_parensBefore hmem]

theorem nesting_eq_zero_iff (document : Text) :
    nesting document = 0 ↔ findFragments document = [] := by
  rw [findFragments_eq_nil_iff]
  constructor
  · intro h
    by_contra hne
    have := peak_nested hne
    omega
  · intro h
    rw [nesting_eq_peak, h]
    rfl

theorem nesting_transform (document : Text) :
    nesting (transform document) = nesting document - 1 := by
  by_cases h : occurrences document = []
  · have hf := (findFragments_eq_nil_iff document).mpr h
    rw [transform_of_findFragments_eq_nil hf, (nesting_eq_zero_iff document).mpr hf]
  · rw [nesting_transform_eq_peak, ← peak_nested h, Nat.add_sub_cancel]

theorem nesting_iterate (n : ℕ) (document : Text) :
    nesting (transform^[n] document) = nesting document - n := by
  induction n with
  | zero => rfl
  | succ n ih => rw [Function.iterate_succ_apply', nesting_transform, ih, Nat.sub_sub]

theorem findFragments_iterate_ne_nil_iff (n : ℕ) (document : Text) :
    findFragments (transform^[n] document) ≠ [] ↔ n < nesting document := by
  rw [ne_eq, ← nesting_eq_zero_iff, nesting_iterate]
  omega

theorem countP_passes (n : ℕ) (document : Text) :
    ((passes n document).countP fun r => r.fragments ≠ []) = min n (nesting document) := by
  induction n generalizing document with
  | zero => simp [passes]
  | succ n ih =>
    have hz := nesting_eq_zero_iff document
    rw [passes, List.countP_cons, ih, nesting_transform, fragments_reshape]
    by_cases hf : findFragments document = []
    · have hn := hz.mpr hf
      simp [hf, hn]
    · have hn : nesting document ≠ 0 := mt hz.mp hf
      simp only [ne_eq, hf, not_false_eq_true, decide_true, if_true]
      omega

/-- Nothing is left nested in a document where no node starts inside another one. -/
theorem nested_eq_nil_iff (document : Text) :
    nested document = [] ↔ ∀ f ∈ occurrences document, ∀ g ∈ occurrences document,
      f.index < g.index → f.stop ≤ g.index := by
  have hl := leftmostListing_findFragments document
  constructor
  · intro h f hf g hg hlt
    have hp := nested_append_findFragments_perm document
    rw [h, List.nil_append] at hp
    exact hl.stop_le_index (hp.mem_iff.mpr hf) (hp.mem_iff.mpr hg) hlt
  · intro h
    refine List.filter_eq_nil_iff.mpr ?_
    intro g hg
    obtain ⟨n, ho, _⟩ := occursAt_of_mem_occurrences hg
    obtain ⟨f, hf, hle, hlt⟩ := hl.complete _ _ ho
    obtain ⟨m, hm, he⟩ := occursAt_of_mem_findFragments hf
    have hmem : f ∈ occurrences document := mem_occurrences_iff.mpr ⟨m, f.index, hm, he⟩
    have heq : f.index = g.index := by
      by_contra hne
      have := h f hmem g hg (by omega)
      omega
    simpa using ⟨f, hf, heq⟩

theorem transform_transform_eq_iff (document : Text) :
    transform (transform document) = transform document ↔
      ∀ f ∈ occurrences document, ∀ g ∈ occurrences document,
        f.index < g.index → f.stop ≤ g.index := by
  rw [transform_eq_self_iff, findFragments_eq_nil_iff, ← nested_eq_nil_iff,
    ← List.length_eq_zero_iff, ← (forall₂_nested document).length_eq, List.length_eq_zero_iff]

/-- As many passes rewrite something as there are nodes over one offset of the document. One pass
is enough when no two nodes overlap. -/
theorem passes_nesting (document : Text) :
    (∀ n, ((passes n document).countP fun r => r.fragments ≠ []) = min n (nesting document)) ∧
      (∀ n, findFragments (transform^[n] document) ≠ [] ↔ n < nesting document) ∧
      (∀ n, nesting (transform^[n] document) = nesting document - n) ∧
      (transform (transform document) = transform document ↔
        ∀ f ∈ occurrences document, ∀ g ∈ occurrences document,
          f.index < g.index → f.stop ≤ g.index) := by
  refine ⟨?_, ?_, ?_, transform_transform_eq_iff document⟩
  · exact fun n => countP_passes n document
  · exact fun n => findFragments_iterate_ne_nil_iff n document
  · exact fun n => nesting_iterate n document

end NodeReshape
