import Mathlib.Algebra.BigOperators.Group.List.Basic
import Mathlib.Tactic.Linarith
import Mathlib.Tactic.Ring
import NodeReshape.Reshape
import NodeReshape.Proofs.FragmentSearch
import NodeReshape.Proofs.NodeFrame

/-!
# Where everything stands in a reshaped document

The cuts at a moving cursor and the one pass over the characters write the same text. A document
is divided into pieces, each a stretch outside the fragments and the node behind it; the output
has the same stretches with the renderings between them, so every offset in it can be counted.
-/
namespace NodeReshape

theorem streamFrom_pending (t rest : Text) :
    streamFrom t.length (t ++ rest) = streamFrom 0 rest := by
  induction t with
  | nil => rfl
  | cons c t ih => simpa [streamFrom] using ih

/-- The new spelling of a node. -/
def OldNode.render (n : OldNode) : Text := renderNode n.name n.ty n.inner

@[simp] theorem OldNode.render_fragment (n : OldNode) (index : ℕ) :
    (n.fragment index).render = n.render := rfl

theorem stream_spelling {n : OldNode} (hn : n.WellFormed) (rest : Text) :
    stream (n.spelling ++ rest) = n.render ++ stream rest := by
  have hr := OldNode.read?_spelling hn rest
  obtain ⟨t, ht⟩ : ∃ t, n.spelling = '(' :: t := ⟨_, rfl⟩
  rw [ht, List.cons_append] at hr
  rw [stream, ht, List.cons_append, streamFrom, hr]
  simp only [ht, List.length_cons, Nat.add_sub_cancel, streamFrom_pending]
  rfl

theorem stream_cons {c : Char} {t : Text} (h : OldNode.read? (c :: t) = none) :
    stream (c :: t) = c :: stream t := by
  rw [stream, streamFrom, h]
  rfl

/-- A rewriting in one pass: it writes a node anew where one begins and goes on behind it, and
copies every other character. -/
structure OnePass (rewrite : Text → Text) : Prop where
  empty : rewrite [] = []
  node : ∀ (n : OldNode) rest, n.WellFormed →
    rewrite (n.spelling ++ rest) = renderNode n.name n.ty n.inner ++ rewrite rest
  plain : ∀ c t, (∀ (n : OldNode) rest, n.WellFormed → c :: t ≠ n.spelling ++ rest) →
    rewrite (c :: t) = c :: rewrite t

theorem onePass_stream : OnePass stream where
  empty := rfl
  node _ rest hn := stream_spelling hn rest
  plain _ _ h := stream_cons (OldNode.read?_eq_none_iff.mpr h)

theorem splice_cons (c : Char) (t : Text) (cursor : ℕ) (fs : List Fragment)
    (h : ∀ f ∈ fs, cursor + width c ≤ f.index) :
    splice (c :: t) cursor fs = c :: splice t (cursor + width c) fs := by
  cases fs with
  | nil => rfl
  | cons f fs =>
    have hi := h f List.mem_cons_self
    have hw := width_pos c
    have hs : f.index ≤ f.stop := Nat.le_add_right _ _
    obtain ⟨j, hj⟩ : ∃ j, f.index - cursor = j + 1 := ⟨f.index - cursor - 1, by omega⟩
    obtain ⟨k, hk⟩ : ∃ k, f.stop - cursor = k + 1 := ⟨f.stop - cursor - 1, by omega⟩
    have hj' : j + 1 - width c = f.index - (cursor + width c) := by omega
    have hk' : k + 1 - width c = f.stop - (cursor + width c) := by omega
    rw [splice, splice, hj, hk, takeUnits, dropUnits, hj', hk', List.cons_append]

theorem splice_scan (t : Text) (cursor : ℕ) : splice t cursor (scan 0 cursor t) = stream t := by
  induction t using document_induction generalizing cursor with
  | empty => rfl
  | node n rest hn ih =>
    rw [scan_spelling hn, splice, stream_spelling hn, OldNode.stop_fragment,
      OldNode.index_fragment, Nat.sub_self, Nat.add_sub_cancel_left, dropUnits_units, ih]
    rfl
  | plain c t hr ih =>
    rw [scan_eq_of_read?_eq_none cursor hr, stream_cons hr,
      splice_cons c t cursor _ fun f hf => le_index_of_mem_scan hf, ih]

theorem transform_eq_stream (document : Text) : transform document = stream document := by
  rw [transform, output_reshape]
  exact splice_scan document 0

/-- A stretch of a document outside its fragments, and the node behind it. -/
structure Piece where
  gap : Text
  node : OldNode

/-- The pieces one after another, each node written in one way, and the text behind the last. -/
def writeOut (write : OldNode → Text) (tail : Text) : List Piece → Text
  | [] => tail
  | p :: ps => p.gap ++ (write p.node ++ writeOut write tail ps)

theorem writeOut_append (write : OldNode → Text) (tail : Text) (ps qs : List Piece) :
    writeOut write tail (ps ++ qs) = writeOut write [] ps ++ writeOut write tail qs := by
  induction ps with
  | nil => rfl
  | cons p ps ih => simp only [List.cons_append, writeOut, ih, List.append_assoc]

theorem writeOut_tail (write : OldNode → Text) (tail : Text) (ps : List Piece) :
    writeOut write tail ps = writeOut write [] ps ++ tail := by
  simpa [writeOut] using writeOut_append write tail ps []

/-- The fragments of the pieces when the first of them begins at an offset. -/
def fragmentsAt (offset : ℕ) : List Piece → List Fragment
  | [] => []
  | p :: ps =>
    p.node.fragment (offset + units p.gap) ::
      fragmentsAt (offset + units p.gap + units p.node.spelling) ps

/-- These pieces and the tail make up the document, and their nodes are its fragments. -/
structure Divides (document : Text) (ps : List Piece) (tail : Text) : Prop where
  wellFormed : ∀ p ∈ ps, p.node.WellFormed
  document_eq : document = writeOut OldNode.spelling tail ps
  stream_eq : stream document = writeOut OldNode.render tail ps
  scan_eq : ∀ offset, scan 0 offset document = fragmentsAt offset ps

namespace Divides

variable {t tail : Text} {p : Piece} {ps : List Piece}

theorem nil : Divides [] [] [] := ⟨by simp, rfl, rfl, fun _ => rfl⟩

theorem node {n : OldNode} (hn : n.WellFormed) (h : Divides t ps tail) :
    Divides (n.spelling ++ t) (⟨[], n⟩ :: ps) tail where
  wellFormed := by simpa [hn] using h.wellFormed
  document_eq := by rw [writeOut, ← h.document_eq, List.nil_append]
  stream_eq := by rw [writeOut, ← h.stream_eq, List.nil_append, stream_spelling hn]
  scan_eq offset := by
    rw [scan_spelling hn, h.scan_eq, fragmentsAt, units_nil, Nat.add_zero]

/-- A character in front of a text without fragments belongs to the tail. -/
theorem tail_cons {c : Char} (hr : OldNode.read? (c :: t) = none) (h : Divides t [] tail) :
    Divides (c :: t) [] (c :: tail) where
  wellFormed := by simp
  document_eq := by rw [h.document_eq, writeOut, writeOut]
  stream_eq := by rw [stream_cons hr, h.stream_eq, writeOut, writeOut]
  scan_eq offset := by
    rw [scan_eq_of_read?_eq_none offset hr, h.scan_eq, fragmentsAt, fragmentsAt]

/-- A character in front of a text with fragments belongs to the stretch before the first. -/
theorem gap_cons {c : Char} (hr : OldNode.read? (c :: t) = none) (h : Divides t (p :: ps) tail) :
    Divides (c :: t) (⟨c :: p.gap, p.node⟩ :: ps) tail where
  wellFormed := by simpa using h.wellFormed
  document_eq := by rw [h.document_eq, writeOut, writeOut, List.cons_append]
  stream_eq := by rw [stream_cons hr, h.stream_eq, writeOut, writeOut, List.cons_append]
  scan_eq offset := by
    simp only [scan_eq_of_read?_eq_none offset hr, h.scan_eq, fragmentsAt, units_cons,
      Nat.add_assoc]

end Divides

theorem exists_divides (document : Text) : ∃ ps tail, Divides document ps tail := by
  induction document using document_induction with
  | empty => exact ⟨[], [], .nil⟩
  | node n rest hn ih =>
    obtain ⟨ps, tail, h⟩ := ih
    exact ⟨_, tail, h.node hn⟩
  | plain c t hr ih =>
    obtain ⟨ps, tail, h⟩ := ih
    cases ps with
    | nil => exact ⟨[], _, h.tail_cons hr⟩
    | cons p ps => exact ⟨_, tail, h.gap_cons hr⟩

/-- How much longer the rendering of a fragment is than the fragment. -/
def growth (f : Fragment) : ℤ := 79 + units f.name + units f.ty + units f.inner - f.length

/-- How far these replacements move the text behind them. -/
def shift (fs : List Fragment) : ℤ := (fs.map growth).sum

/-- The offset behind the last of these fragments, where the next stretch begins. -/
def cursorAfter (offset : ℕ) (fs : List Fragment) : ℕ := fs.foldl (fun _ f => f.stop) offset

theorem units_render (n : OldNode) (index : ℕ) :
    (units n.render : ℤ) = units n.spelling + growth (n.fragment index) := by
  rw [OldNode.render, units_renderNode]
  simp only [growth, OldNode.fragment]
  push_cast
  ring

theorem cursorAfter_fragmentsAt (ps : List Piece) (offset start : ℕ) (h : ps = [] → start = offset) :
    cursorAfter start (fragmentsAt offset ps) = offset + units (writeOut OldNode.spelling [] ps) := by
  induction ps generalizing offset start with
  | nil => simp [cursorAfter, fragmentsAt, writeOut, h]
  | cons p ps ih =>
    have hi := ih (offset + units p.gap + units p.node.spelling)
      (offset + units p.gap + units p.node.spelling) fun _ => rfl
    simpa [cursorAfter, fragmentsAt, writeOut, Nat.add_assoc] using hi

theorem units_writeOut_render (ps : List Piece) (offset : ℕ) :
    (units (writeOut OldNode.render [] ps) : ℤ) =
      units (writeOut OldNode.spelling [] ps) + shift (fragmentsAt offset ps) := by
  induction ps generalizing offset with
  | nil => rfl
  | cons p ps ih =>
    have hi := ih (offset + units p.gap + units p.node.spelling)
    have hr := units_render p.node (offset + units p.gap)
    simp only [writeOut, units_append, fragmentsAt, shift, List.map_cons, List.sum_cons] at hi ⊢
    push_cast
    linarith

/-- A fragment of the pieces is the node of one of them, and those before it are the fragments of
the pieces before. -/
theorem fragmentsAt_eq_append {ps : List Piece} {offset : ℕ} {done rest : List Fragment}
    {f : Fragment} (h : fragmentsAt offset ps = done ++ f :: rest) :
    ∃ qs p rs, ps = qs ++ p :: rs ∧ done = fragmentsAt offset qs ∧
      f = p.node.fragment (offset + units (writeOut OldNode.spelling [] qs) + units p.gap) := by
  induction ps generalizing offset done with
  | nil => simp [fragmentsAt] at h
  | cons p ps ih =>
    rw [fragmentsAt] at h
    cases done with
    | nil =>
      obtain ⟨rfl, rfl⟩ := List.cons.inj h
      exact ⟨[], p, ps, rfl, rfl, by simp [writeOut]⟩
    | cons g done =>
      obtain ⟨rfl, h'⟩ := List.cons.inj h
      obtain ⟨qs, q, rs, rfl, rfl, rfl⟩ := ih h'
      refine ⟨p :: qs, q, rs, rfl, rfl, ?_⟩
      simp only [writeOut, units_append, Nat.add_assoc]

/-- The output as the fragments of the document describe it. Every rendering is moved by the
replacements before it, and so are the stretches in front of it and behind the last one. -/
structure LaidOut (document output : Text) (fragments : List Fragment) : Prop where
  rendering : ∀ done f rest, fragments = done ++ f :: rest → ∃ place : ℕ,
    (place : ℤ) = f.index + shift done ∧ slice place (place + units f.render) output = f.render
  between : ∀ done f rest, fragments = done ++ f :: rest → ∃ start stop : ℕ,
    (start : ℤ) = cursorAfter 0 done + shift done ∧ (stop : ℤ) = f.index + shift done ∧
      slice start stop output = slice (cursorAfter 0 done) f.index document
  behind : ∃ start : ℕ, (start : ℤ) = cursorAfter 0 fragments + shift fragments ∧
    dropUnits start output = dropUnits (cursorAfter 0 fragments) document
  size : (units output : ℤ) = units document + shift fragments

namespace Divides

variable {document tail : Text} {ps : List Piece}

theorem findFragments_eq (h : Divides document ps tail) :
    findFragments document = fragmentsAt 0 ps := h.scan_eq 0

theorem transform_eq (h : Divides document ps tail) :
    transform document = writeOut OldNode.render tail ps := by
  rw [transform_eq_stream, h.stream_eq]

/-- The tail is what stands in the document behind the last fragment. -/
theorem tail_eq (h : Divides document ps tail) :
    tail = dropUnits (cursorAfter 0 (findFragments document)) document := by
  rw [h.findFragments_eq, cursorAfter_fragmentsAt ps 0 0 fun _ => rfl, Nat.zero_add,
    h.document_eq, writeOut_tail _ tail, dropUnits_units]

/-- The texts on both sides of one fragment, in the document and in the output. -/
theorem around (h : Divides document ps tail) {done rest : List Fragment} {f : Fragment}
    (hf : findFragments document = done ++ f :: rest) :
    ∃ (before before' gap behind behind' : Text) (n : OldNode), n.WellFormed ∧
      document = before ++ (gap ++ (n.spelling ++ behind)) ∧
      transform document = before' ++ (gap ++ (n.render ++ behind')) ∧
      f = n.fragment f.index ∧ f.index = units (before ++ gap) ∧
      units before = cursorAfter 0 done ∧ (units before' : ℤ) = units before + shift done := by
  rw [h.findFragments_eq] at hf
  obtain ⟨qs, p, rs, rfl, rfl, rfl⟩ := fragmentsAt_eq_append hf
  refine ⟨writeOut OldNode.spelling [] qs, writeOut OldNode.render [] qs, p.gap,
    writeOut OldNode.spelling tail rs, writeOut OldNode.render tail rs, p.node,
    h.wellFormed p (by simp), ?_, ?_, rfl, ?_, ?_, ?_⟩
  · rw [h.document_eq, writeOut_append, writeOut]
  · rw [h.transform_eq, writeOut_append, writeOut]
  · rw [OldNode.index_fragment, units_append, Nat.zero_add]
  · rw [cursorAfter_fragmentsAt qs 0 0 fun _ => rfl, Nat.zero_add]
  · exact units_writeOut_render qs 0

theorem laidOut (h : Divides document ps tail) :
    LaidOut document (transform document) (findFragments document) where
  rendering done f rest hf := by
    obtain ⟨before, before', gap, behind, behind', n, _, _, ht, he, hi, hc, hs⟩ := h.around hf
    have hr : f.render = n.render := by rw [he, OldNode.render_fragment]
    refine ⟨units (before' ++ gap), ?_, ?_⟩
    · rw [hi, units_append, units_append]
      push_cast
      linarith
    · rw [hr, ← units_append, ht, ← List.append_assoc before']
      exact slice_append (before' ++ gap) n.render behind'
  between done f rest hf := by
    obtain ⟨before, before', gap, behind, behind', n, _, hd, ht, he, hi, hc, hs⟩ := h.around hf
    refine ⟨units before', units (before' ++ gap), ?_, ?_, ?_⟩
    · rw [hs, hc]
    · rw [hi, units_append, units_append]
      push_cast
      linarith
    · rw [ht, slice_append, ← hc, hi, hd, slice_append]
  behind := by
    have hc := cursorAfter_fragmentsAt ps 0 0 fun _ => rfl
    refine ⟨units (writeOut OldNode.render [] ps), ?_, ?_⟩
    · rw [h.findFragments_eq, hc, units_writeOut_render ps 0, Nat.zero_add]
    · rw [← h.tail_eq, h.transform_eq, writeOut_tail _ tail ps, dropUnits_units]
  size := by
    have hr := units_writeOut_render ps 0
    rw [h.transform_eq, h.findFragments_eq, h.document_eq, writeOut_tail OldNode.render tail,
      writeOut_tail OldNode.spelling tail, units_append, units_append]
    push_cast
    linarith

end Divides

/-- Cutting at the fragments and going through the characters once write the same text, and the
fragments tell where every part of it stands. -/
theorem transform_onePass_laidOut (document : Text) :
    OnePass stream ∧ splice document 0 (findFragments document) = stream document ∧
      transform document = stream document ∧
      (findFragments document = [] → reshape document = ⟨document, []⟩) ∧
      LaidOut document (transform document) (findFragments document) := by
  obtain ⟨ps, tail, h⟩ := exists_divides document
  refine ⟨onePass_stream, splice_scan document 0, transform_eq_stream document, ?_, h.laidOut⟩
  intro hf
  rw [reshape, hf]

end NodeReshape
