import NodeReshape.Proofs.DocumentLayout

/-!
# Parentheses and quotes of a document

The rendering of a node leaves its outer group open, and the capture of `inner` stops at the first
closing parenthesis. Still both spellings of a node hold the same parentheses and quotes in the same
order: five around the captures, which every neat frame has, and those inside the captures.
-/
namespace NodeReshape

/-- The parentheses and quotes of a text, in order. -/
def delimiters (t : Text) : Text := t.filter fun c => c = '(' || c = ')' || c = '"'

theorem delimiters_append (a b : Text) : delimiters (a ++ b) = delimiters a ++ delimiters b :=
  List.filter_append ..

theorem delimiters_cons (c : Char) (t : Text) :
    delimiters (c :: t) = delimiters [c] ++ delimiters t := delimiters_append [c] t

theorem delimiters_open (t : Text) : delimiters ('(' :: t) = '(' :: delimiters t := rfl

theorem delimiters_quote (t : Text) : delimiters ('"' :: t) = '"' :: delimiters t := rfl

theorem Bare.delimiters_eq_nil {t : Text} (h : Bare t) : delimiters t = [] := by
  apply List.filter_eq_nil_iff.mpr
  intro c hc
  have := h c hc
  simp [this.1, this.2.1, this.2.2]

theorem Frame.Neat.delimiters_write {F : Frame} (hF : F.Neat) (name ty inner : Text) :
    delimiters (F.write name ty inner) = '(' :: '"' :: (delimiters name ++ '"' :: '"' ::
      (delimiters ty ++ '"' :: delimiters inner)) := by
  have hname := hF.beforeName.delimiters_eq_nil
  have hty := hF.beforeTy.delimiters_eq_nil
  have hinner := hF.beforeInner.delimiters_eq_nil
  have hbehind := hF.behind.delimiters_eq_nil
  simp only [Frame.write, delimiters_open, delimiters_quote, delimiters_append, hname, hty, hinner,
    hbehind, List.nil_append, List.append_nil]

theorem delimiters_render {n : OldNode} (hn : n.WellFormed) :
    delimiters n.render = delimiters n.spelling := by
  rw [OldNode.render, renderNode_eq_write, n.spelling_eq_write, neat_newFrame.delimiters_write,
    (OldNode.neat_frame hn).delimiters_write]

theorem delimiters_stream (t : Text) : delimiters (stream t) = delimiters t := by
  induction t using document_induction with
  | empty => rfl
  | node n rest hn ih =>
    rw [stream_spelling hn, delimiters_append, delimiters_append, delimiters_render hn, ih]
  | plain c t hr ih => rw [stream_cons hr, delimiters_cons, ih, ← delimiters_cons]

/-- Reshaping adds, drops and moves no parenthesis and no quote. -/
theorem delimiters_transform (document : Text) :
    delimiters (transform document) = delimiters document := by
  rw [transform_eq_stream, delimiters_stream]

end NodeReshape
