import NodeReshape.Proofs.DocumentLayout
import NodeReshape.Proofs.OverlappingNodes

/-!
# Text appended to a document

Appended text may complete a node that was open at the end of the document. Such a node begins
behind all fragments, for it would have been complete by the end of any fragment it began in front
of. So what has been found stays, and the output up to the last rendering stays with it.
-/
namespace NodeReshape

theorem fragmentsAt_append (offset : ℕ) (ps qs : List Piece) :
    fragmentsAt offset (ps ++ qs) =
      fragmentsAt offset ps ++ fragmentsAt (offset + units (writeOut OldNode.spelling [] ps)) qs := by
  induction ps generalizing offset with
  | nil => simp [fragmentsAt, writeOut]
  | cons p ps ih =>
    simp only [List.cons_append, fragmentsAt, ih, writeOut, units_append, Nat.add_assoc]

/-- The stretches and renderings of these pieces end with the rendering of the last fragment. -/
theorem render_suffix_writeOut {offset : ℕ} {ps : List Piece} {f : Fragment}
    (h : f ∈ (fragmentsAt offset ps).getLast?) : f.render <:+ writeOut OldNode.render [] ps := by
  rcases List.eq_nil_or_concat' ps with rfl | ⟨front, p, rfl⟩
  · simp [fragmentsAt] at h
  · simp only [fragmentsAt_append, fragmentsAt, List.getLast?_concat, Option.mem_some_iff] at h
    rw [← h, OldNode.render_fragment, writeOut_append, writeOut, writeOut, List.append_nil,
      ← List.append_assoc]
    exact List.suffix_append _ _

/-- A character in front of a text with fragments is no open beginning of a node: appended text
completes nothing there. -/
theorem Divides.eq_nil_of_completed {t b tail : Text} {ps : List Piece} {c : Char}
    {r : OldNode × Text} (h : Divides t ps tail) (hr : OldNode.read? (c :: t) = none)
    (hr' : OldNode.read? (c :: (t ++ b)) = some r) : ps = [] := by
  cases ps with
  | nil => rfl
  | cons p ps =>
    obtain ⟨hn, he⟩ := OldNode.eq_spelling_of_read? hr'
    have ht : t = p.gap ++ (p.node.spelling ++ writeOut OldNode.spelling tail ps) :=
      h.document_eq
    have hover : r.1.spelling ++ r.2 =
        c :: (p.gap ++ (p.node.spelling ++ (writeOut OldNode.spelling tail ps ++ b))) := by
      rw [← he, ht, List.append_assoc, List.append_assoc]
    obtain ⟨u, hu⟩ := OldNode.spelling_isPrefix hn (h.wellFormed p List.mem_cons_self) hover
    have hnode : c :: t = r.1.spelling ++ (u ++ writeOut OldNode.spelling tail ps) := by
      rw [← List.append_assoc, hu, ht, List.cons_append, List.append_assoc]
    exact absurd hnode (OldNode.read?_eq_none_iff.mp hr r.1 _ hn)

/-- A longer document has the same pieces, and then others. -/
theorem exists_divides_append (a b : Text) :
    ∃ ps tail qs tail', Divides a ps tail ∧ Divides (a ++ b) (ps ++ qs) tail' := by
  induction a using document_induction with
  | empty =>
    obtain ⟨qs, tail', h⟩ := exists_divides b
    exact ⟨[], [], qs, tail', .nil, h⟩
  | node n rest hn ih =>
    obtain ⟨ps, tail, qs, tail', h, h'⟩ := ih
    rw [List.append_assoc]
    exact ⟨_, tail, qs, tail', h.node hn, h'.node hn⟩
  | plain c t hr ih =>
    obtain ⟨ps, tail, qs, tail', h, h'⟩ := ih
    cases hr' : OldNode.read? (c :: (t ++ b)) with
    | none =>
      cases ps with
      | cons p ps => exact ⟨_, tail, qs, tail', h.gap_cons hr, h'.gap_cons hr'⟩
      | nil =>
        cases qs with
        | cons q qs => exact ⟨[], _, _, tail', h.tail_cons hr, h'.gap_cons hr'⟩
        | nil => exact ⟨[], _, [], _, h.tail_cons hr, h'.tail_cons hr'⟩
    | some r =>
      obtain rfl := h.eq_nil_of_completed hr hr'
      obtain ⟨qs', tail'', h''⟩ := exists_divides (c :: (t ++ b))
      exact ⟨[], _, qs', tail'', h.tail_cons hr, h''⟩

/-- The output of a document without the stretch behind the last fragment. It ends with the
rendering of this fragment, and is empty when there is none. -/
structure CutBehindLast (document settled : Text) : Prop where
  output_eq : transform document =
    settled ++ dropUnits (cursorAfter 0 (findFragments document)) document
  last : ∀ f ∈ (findFragments document).getLast?, f.render <:+ settled

theorem Divides.cutBehindLast {document tail : Text} {ps : List Piece}
    (h : Divides document ps tail) :
    CutBehindLast document (writeOut OldNode.render [] ps) where
  output_eq := by
    rw [← h.tail_eq, h.transform_eq]
    exact writeOut_tail _ tail ps
  last f hf := by
    rw [h.findFragments_eq] at hf
    exact render_suffix_writeOut hf

/-- Whatever text is appended, the fragments of a document stay as they are and come first, and
the longer output begins with the output of the document up to its last rendering. -/
theorem findFragments_append_isPrefix (a b : Text) :
    findFragments a <+: findFragments (a ++ b) ∧
      ∃ settled, CutBehindLast a settled ∧ settled <+: transform (a ++ b) := by
  obtain ⟨ps, tail, qs, tail', h, h'⟩ := exists_divides_append a b
  refine ⟨?_, writeOut OldNode.render [] ps, h.cutBehindLast, ?_⟩
  · rw [h.findFragments_eq, h'.findFragments_eq, fragmentsAt_append]
    exact List.prefix_append _ _
  · rw [h'.transform_eq, writeOut_append]
    exact List.prefix_append _ _

end NodeReshape
