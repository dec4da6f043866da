import NodeReshape.Proofs.DocumentCut
import NodeReshape.Proofs.PendingNode

/-!
# The blanks inside a node

Blanks may stand at six places of a node, and none of them is kept in its new shape. Other blanks in
their places move everything behind them, but a node that has started before reads on as it did, so
the same nodes are found and the same output is written.
-/
namespace NodeReshape

/-- A text of blanks, which may be empty. -/
abbrev Gap := { t : Text // ∀ c ∈ t, isBlank c = true }

/-- Blanks for the places in front of the three keys of a node and of their values. -/
structure Spacing where
  name : Gap
  nameValue : Gap
  ty : Gap
  tyValue : Gap
  inner : Gap
  innerValue : Gap

namespace OldNode

/-- The node with other blanks. -/
def respaced (n : OldNode) (s : Spacing) : OldNode where
  nameEntry := ⟨s.name, s.nameValue, n.name⟩
  tyEntry := ⟨s.ty, s.tyValue, n.ty⟩
  innerGap := s.inner
  innerValueGap := s.innerValue
  body := n.body

variable {n : OldNode}

theorem WellFormed.respaced (h : n.WellFormed) (s : Spacing) : (n.respaced s).WellFormed where
  nameEntry := ⟨s.name.2, s.nameValue.2, h.nameEntry.value, h.nameEntry.unquoted⟩
  tyEntry := ⟨s.ty.2, s.tyValue.2, h.tyEntry.value, h.tyEntry.unquoted⟩
  innerGap := s.inner.2
  innerValueGap := s.innerValue.2
  body := h.body
  unclosed := h.unclosed

theorem render_respaced (n : OldNode) (s : Spacing) : (n.respaced s).render = n.render := rfl

/-- The blanks of a node. -/
def spacing (h : n.WellFormed) : Spacing where
  name := ⟨n.nameEntry.gap, h.nameEntry.gap⟩
  nameValue := ⟨n.nameEntry.valueGap, h.nameEntry.valueGap⟩
  ty := ⟨n.tyEntry.gap, h.tyEntry.gap⟩
  tyValue := ⟨n.tyEntry.valueGap, h.tyEntry.valueGap⟩
  inner := ⟨n.innerGap, h.innerGap⟩
  innerValue := ⟨n.innerValueGap, h.innerValueGap⟩

theorem respaced_spacing (h : n.WellFormed) : n.respaced (spacing h) = n := rfl

/-- What has started in front of a node reads on in the same way when the node has other blanks. -/
theorem alike_respaced (h : n.WellFormed) (s : Spacing) (behind : Text) :
    Pattern.Alike atName (n.spelling ++ behind) ((n.respaced s).spelling ++ behind) := by
  rw [spelling_eq_write, spelling_eq_write]
  exact alike_in_frames h (neat_frame h) (neat_frame (h.respaced s)) behind behind

end OldNode

def Fragment.captures (f : Fragment) : Text × Text × Text := (f.name, f.ty, f.inner)

/-- The captures of a text do not depend on where it begins. -/
theorem captures_scan (t : Text) (offset offset' : ℕ) :
    (scan 0 offset t).map Fragment.captures = (scan 0 offset' t).map Fragment.captures := by
  have hmoved : ∀ o, (scan 0 o t).map Fragment.captures = (scan 0 0 t).map Fragment.captures := by
    intro o
    have ho := scan_add t 0 o
    rw [Nat.zero_add] at ho
    rw [ho, List.map_map]
    rfl
  rw [hmoved offset, hmoved offset']

/-- No node that begins in front of a fragment is completed, and none is lost, when the fragment has
other blanks. -/
theorem read?_cons_respaced {c : Char} {before behind : Text} {n : OldNode} (hn : n.WellFormed)
    (s : Spacing) (h : OldNode.read? (c :: (before ++ (n.spelling ++ behind))) = none) :
    OldNode.read? (c :: (before ++ ((n.respaced s).spelling ++ behind))) = none := by
  have hreach := ((OldNode.alike_respaced hn s behind).append before).reach_cons c
  rw [reach_nodePattern, reach_nodePattern, h] at hreach
  exact Option.map_eq_none_iff.mp hreach.symm

/-- Other blanks in a fragment leave the captures and the output, and the fragment is found as it is
spelled now. -/
theorem scan_stream_respaced {before behind : Text} {n : OldNode} (hn : n.WellFormed)
    (s : Spacing) {offset : ℕ} (offset' : ℕ)
    (hf : n.fragment (offset + units before) ∈
      scan 0 offset (before ++ (n.spelling ++ behind))) :
    (scan 0 offset' (before ++ ((n.respaced s).spelling ++ behind))).map Fragment.captures =
        (scan 0 offset (before ++ (n.spelling ++ behind))).map Fragment.captures ∧
      stream (before ++ ((n.respaced s).spelling ++ behind)) =
        stream (before ++ (n.spelling ++ behind)) ∧
      (n.respaced s).fragment (offset' + units before) ∈
        scan 0 offset' (before ++ ((n.respaced s).spelling ++ behind)) := by
  generalize ht : before ++ (n.spelling ++ behind) = t at hf
  induction t using document_induction generalizing before offset offset' with
  | empty => simp [n.spelling_ne_nil] at ht
  | node m rest hm ih =>
    rw [scan_spelling hm, List.mem_cons] at hf
    -- The fragment is the first one, or it begins behind the first one.
    have hcut : ¬ (0 < units before ∧ units before < units m.spelling) := by
      rcases hf with hf | hf
      · have hi := congrArg Fragment.index hf
        rw [OldNode.index_fragment, OldNode.index_fragment] at hi
        omega
      · have hi := le_index_of_mem_scan hf
        rw [OldNode.index_fragment] at hi
        omega
    rcases eq_nil_or_of_append_eq_spelling ht hcut with rfl | ⟨before, rfl, rfl⟩
    · obtain ⟨rfl, rfl⟩ := OldNode.spelling_append_inj hn hm ht
      rw [List.nil_append, scan_spelling (hn.respaced s), scan_spelling hn, List.map_cons,
        List.map_cons, stream_spelling (hn.respaced s), stream_spelling hn,
        OldNode.render_respaced, captures_scan behind]
      exact ⟨rfl, rfl, List.mem_cons_self⟩
    · rw [units_append, ← Nat.add_assoc] at hf
      have hlater : n.fragment (offset + units m.spelling + units before) ∈
          scan 0 (offset + units m.spelling) (before ++ (n.spelling ++ behind)) := by
        refine hf.resolve_left fun hf => ?_
        have hi := congrArg Fragment.index hf
        have hpos := m.units_spelling_pos
        rw [OldNode.index_fragment, OldNode.index_fragment] at hi
        omega
      obtain ⟨hscan, hstream, hmem⟩ := ih (offset' + units m.spelling) rfl hlater
      rw [List.append_assoc, scan_spelling hm, scan_spelling hm, stream_spelling hm,
        stream_spelling hm, List.map_cons, List.map_cons, hscan, hstream, units_append,
        ← Nat.add_assoc]
      exact ⟨rfl, rfl, List.mem_cons_of_mem _ hmem⟩
  | plain c t hr ih =>
    cases before with
    | nil =>
      rw [List.nil_append] at ht
      rw [← ht, OldNode.read?_spelling hn] at hr
      simp at hr
    | cons x before =>
      obtain ⟨rfl, rfl⟩ := List.cons.inj ht
      rw [scan_eq_of_read?_eq_none offset hr, units_cons, ← Nat.add_assoc] at hf
      obtain ⟨hscan, hstream, hmem⟩ := ih (offset' + width x) rfl hf
      have hnone := read?_cons_respaced hn s hr
      rw [List.cons_append, scan_eq_of_read?_eq_none _ hnone, scan_eq_of_read?_eq_none _ hr,
        stream_cons hnone, stream_cons hr, hscan, hstream, units_cons, ← Nat.add_assoc]
      exact ⟨rfl, rfl, hmem⟩

/-- The old spelling of these captures with these blanks. -/
def Fragment.spelledWith (f : Fragment) (s : Spacing) : Text :=
  '(' :: (QuotedEntry.spelling OldNode.nameKey ⟨s.name, s.nameValue, f.name⟩ ++
    (QuotedEntry.spelling OldNode.tyKey ⟨s.ty, s.tyValue, f.ty⟩ ++
      (s.inner ++ (OldNode.innerKey ++ (s.innerValue ++ f.inner)))))

/-- The document with other blanks inside one of its fragments. -/
def respaced (document : Text) (f : Fragment) (s : Spacing) : Text :=
  takeUnits f.index document ++ (f.spelledWith s ++ dropUnits f.stop document)

theorem respaced_fragment (before behind : Text) (n : OldNode) (s : Spacing) :
    respaced (before ++ (n.spelling ++ behind)) (n.fragment (units before)) s =
      before ++ ((n.respaced s).spelling ++ behind) := by
  have hdrop := dropUnits_units (before ++ n.spelling) behind
  rw [units_append, List.append_assoc] at hdrop
  rw [respaced, OldNode.index_fragment, OldNode.stop_fragment, takeUnits_units, hdrop]
  rfl

/-- Whatever blanks are put into a fragment, none included, the document has the same captures in
the same order, and its output is the same. The document itself is the one with its own blanks. -/
theorem transform_respaced (document : Text) (f : Fragment) (hf : f ∈ findFragments document) :
    (∃ s, respaced document f s = document) ∧ ∀ s,
      (findFragments (respaced document f s)).map Fragment.captures =
          (findFragments document).map Fragment.captures ∧
        transform (respaced document f s) = transform document := by
  obtain ⟨before, n, behind, hn, rfl, rfl⟩ := mem_scan hf
  rw [Nat.zero_add]
  constructor
  · refine ⟨OldNode.spacing hn, ?_⟩
    rw [respaced_fragment, OldNode.respaced_spacing]
  · intro s
    rw [respaced_fragment, transform_eq_stream, transform_eq_stream]
    obtain ⟨hcaptures, hstream, -⟩ := scan_stream_respaced hn s 0 hf
    exact ⟨hcaptures, hstream⟩

/-- A name that has started runs into a node. -/
def startedBefore : Text := "(name: \"(name: \"x\", ty: \"Clip\", inner: (1)))".toList

/-- Nothing, line feeds and tabs, a no-break space and a byte order mark. -/
def mixedSpacing : Spacing where
  name := ⟨[], List.all_eq_true.mp rfl⟩
  nameValue := ⟨['\n', '\t'], List.all_eq_true.mp rfl⟩
  ty := ⟨['\n', '\n'], List.all_eq_true.mp rfl⟩
  tyValue := ⟨[], List.all_eq_true.mp rfl⟩
  inner := ⟨['\u00A0'], List.all_eq_true.mp rfl⟩
  innerValue := ⟨['\uFEFF'], List.all_eq_true.mp rfl⟩

theorem transform_respaced_startedBefore :
    (⟨"x".toList, "Clip".toList, "(1)".toList, 8, 34⟩ : Fragment) ∈ findFragments startedBefore ∧
      let changed := respaced startedBefore ⟨"x".toList, "Clip".toList, "(1)".toList, 8, 34⟩
        mixedSpacing
      changed = ("(name: \"(name:\n\t\"x\",\n\nty:\"Clip\",".toList ++
        '\u00A0' :: ("inner:".toList ++ '\uFEFF' :: "(1)))".toList)) ∧
      (findFragments changed).map Fragment.captures =
        [("x".toList, "Clip".toList, "(1)".toList)] ∧
      transform changed = transform startedBefore := by
  have hf : (⟨"x".toList, "Clip".toList, "(1)".toList, 8, 34⟩ : Fragment) ∈
      findFragments startedBefore := by decide
  obtain ⟨hcaptures, hout⟩ := (transform_respaced startedBefore _ hf).2 mixedSpacing
  refine ⟨hf, by decide, ?_, hout⟩
  rw [hcaptures]
  decide

end NodeReshape
