import NodeReshape.Fragment
import NodeReshape.Render

/-! Reshaping a document from the old node shape to the new one. `reshape` first finds all
fragments and then cuts the document at a moving cursor; `stream` states the same result in one
pass over the characters. -/
namespace NodeReshape

def Fragment.render (f : Fragment) : Text := renderNode f.name f.ty f.inner

/-- The text `rest`, which begins at `cursor`, with the fragments replaced by their new shape. -/
def splice (rest : Text) (cursor : Nat) : List Fragment → Text
  | [] => rest
  | f :: fs =>
    takeUnits (f.index - cursor) rest ++
      (f.render ++ splice (dropUnits (f.stop - cursor) rest) f.stop fs)

/-- A reshaped document and the fragments replaced in it. -/
structure Reshaping where
  output : Text
  fragments : List Fragment
  deriving DecidableEq

/-- All fragments replaced; the document itself when it has none. -/
def reshape (document : Text) : Reshaping :=
  match findFragments document with
  | [] => ⟨document, []⟩
  | fs => ⟨splice document 0 fs, fs⟩

def transform (document : Text) : Text := (reshape document).output

/-- Repeated reshaping, each pass on the output of the one before. -/
def passes : Nat → Text → List Reshaping
  | 0, _ => []
  | n + 1, document => reshape document :: passes n (transform document)

/-- The document reshaped in one pass, its first `pending` characters being part of a node whose
new shape is already written. -/
def streamFrom (pending : Nat) : Text → Text
  | [] => []
  | c :: t =>
    match pending with
    | k + 1 => streamFrom k t
    | 0 =>
      match OldNode.read? (c :: t) with
      | some (n, _) => renderNode n.name n.ty n.inner ++ streamFrom (n.spelling.length - 1) t
      | none => c :: streamFrom 0 t

/-- A node where one begins, and every other character as it is. -/
def stream (document : Text) : Text := streamFrom 0 document

theorem fragments_reshape (document : Text) :
    (reshape document).fragments = findFragments document := by
  unfold reshape
  cases findFragments document <;> rfl

theorem output_reshape (document : Text) :
    (reshape document).output = splice document 0 (findFragments document) := by
  unfold reshape
  cases findFragments document <;> rfl

end NodeReshape
