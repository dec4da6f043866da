import NodeReshape.OldNode
import NodeReshape.Render
import NodeReshape.Units

/-!
# What stands around the captures of a node

The old and the new spelling of a node hold the same three captures between four quotes and the
parenthesis at the front. A frame is the rest of such a spelling. Both kinds of frame are neat:
they hold no parenthesis and no quote of their own.
-/
namespace NodeReshape

/-- The texts of a spelling in front of its captures and behind the last of them. -/
structure Frame where
  beforeName : Text
  beforeTy : Text
  beforeInner : Text
  behind : Text
  deriving DecidableEq

/-- A text without parentheses and quotes. -/
def Bare (t : Text) : Prop := ∀ c ∈ t, c ≠ '(' ∧ c ≠ ')' ∧ c ≠ '"'

instance (t : Text) : Decidable (Bare t) := List.decidableBAll _ t

namespace Bare

variable {a b : Text}

theorem append (ha : Bare a) (hb : Bare b) : Bare (a ++ b) := by
  intro c hc
  rcases List.mem_append.mp hc with h | h
  · exact ha c h
  · exact hb c h

theorem unopened (h : Bare a) : '(' ∉ a := fun hm => (h _ hm).1 rfl

theorem unclosed (h : Bare a) : ')' ∉ a := fun hm => (h _ hm).2.1 rfl

theorem unquoted (h : Bare a) : '"' ∉ a := fun hm => (h _ hm).2.2 rfl

/-- No parenthesis and no quote is blank. -/
theorem of_blank (h : ∀ c ∈ a, isBlank c = true) : Bare a := by
  intro c hc
  have hb := h c hc
  refine ⟨?_, ?_, ?_⟩ <;> rintro rfl <;> exact absurd hb (by decide)

end Bare

namespace Frame

def write (F : Frame) (name ty inner : Text) : Text :=
  '(' :: (F.beforeName ++ '"' :: (name ++ '"' :: (F.beforeTy ++ '"' :: (ty ++ '"' ::
    (F.beforeInner ++ (inner ++ F.behind))))))

/-- Nothing in the frame can be taken for a quote or a parenthesis of the node, and something
stands in front of each capture. -/
structure Neat (F : Frame) : Prop where
  beforeName : Bare F.beforeName
  beforeTy : Bare F.beforeTy
  beforeInner : Bare F.beforeInner
  behind : Bare F.behind
  beforeName_ne_nil : F.beforeName ≠ []
  beforeTy_ne_nil : F.beforeTy ≠ []
  beforeInner_ne_nil : F.beforeInner ≠ []

/-- The sizes of a spelling add up; the parenthesis and the four quotes count five. -/
theorem units_write (F : Frame) (name ty inner : Text) :
    units (F.write name ty inner) =
      5 + units F.beforeName + units F.beforeTy + units F.beforeInner + units F.behind +
        units name + units ty + units inner := by
  have hp : width '(' = 1 := rfl
  have hq : width '"' = 1 := rfl
  simp only [write, units_cons, units_append, hp, hq]
  omega

end Frame

inductive Capture where
  | name
  | ty
  | inner
  deriving DecidableEq

/-- What a spelling in this frame holds in front of a capture. -/
def Frame.lead (F : Frame) (name ty : Text) : Capture → Text
  | .name => '(' :: (F.beforeName ++ ['"'])
  | .ty => '(' :: (F.beforeName ++ '"' :: (name ++ '"' :: (F.beforeTy ++ ['"'])))
  | .inner =>
    '(' :: (F.beforeName ++ '"' :: (name ++ '"' :: (F.beforeTy ++ '"' :: (ty ++ '"' ::
      F.beforeInner))))

/-- What a spelling in this frame holds behind a capture. -/
def Frame.trail (F : Frame) (ty inner : Text) : Capture → Text
  | .name =>
    '"' :: (F.beforeTy ++ '"' :: (ty ++ '"' :: (F.beforeInner ++ (inner ++ F.behind))))
  | .ty => '"' :: (F.beforeInner ++ (inner ++ F.behind))
  | .inner => F.behind

/-- One of three texts, by the capture it is to be. -/
def Capture.pick (name ty inner : Text) : Capture → Text
  | .name => name
  | .ty => ty
  | .inner => inner

theorem Frame.write_eq_lead_append (F : Frame) (name ty inner : Text) (c : Capture) :
    F.write name ty inner =
      F.lead name ty c ++ (c.pick name ty inner ++ F.trail ty inner c) := by
  cases c <;> simp [Frame.write, Frame.lead, Frame.trail, Capture.pick]

namespace OldNode

/-- The text of this capture of a node. -/
def capture (n : OldNode) (c : Capture) : Text := c.pick n.name n.ty n.inner

/-- The keys of a node with the blanks and commas around them. -/
def frame (n : OldNode) : Frame where
  beforeName := n.nameEntry.gap ++ (nameKey ++ n.nameEntry.valueGap)
  beforeTy := ',' :: (n.tyEntry.gap ++ (tyKey ++ n.tyEntry.valueGap))
  beforeInner := ',' :: (n.innerGap ++ (innerKey ++ n.innerValueGap))
  behind := []

theorem spelling_eq_write (n : OldNode) : n.spelling = n.frame.write n.name n.ty n.inner := by
  simp [spelling, QuotedEntry.spelling, frame, Frame.write, name, ty]

theorem neat_frame {n : OldNode} (h : n.WellFormed) : n.frame.Neat where
  beforeName := (Bare.of_blank h.nameEntry.gap).append
    ((by decide : Bare nameKey).append (.of_blank h.nameEntry.valueGap))
  beforeTy := (by decide : Bare [',']).append ((Bare.of_blank h.tyEntry.gap).append
    ((by decide : Bare tyKey).append (.of_blank h.tyEntry.valueGap)))
  beforeInner := (by decide : Bare [',']).append ((Bare.of_blank h.innerGap).append
    ((by decide : Bare innerKey).append (.of_blank h.innerValueGap)))
  behind := (by decide : Bare [])
  beforeName_ne_nil := by simp [frame, nameKey]
  beforeTy_ne_nil := by simp [frame]
  beforeInner_ne_nil := by simp [frame]

end OldNode

/-- The lines of the new shape around the captures. -/
def newFrame : Frame where
  beforeName := '\n' :: (fieldIndent ++ "name: ".toList)
  beforeTy := ",\n".toList ++ (fieldIndent ++ ("inner: \x7b\n".toList ++ entryIndent))
  beforeInner := ": ".toList
  behind := '\n' :: (fieldIndent ++ "\x7d".toList)

theorem renderNode_eq_write (name ty inner : Text) :
    renderNode name ty inner = newFrame.write name ty inner := by
  have h1 : "name: \"".toList = "name: ".toList ++ ['"'] := rfl
  have h3 : "inner: \x7b".toList ++ ['\n'] = "inner: \x7b\n".toList := rfl
  have h4 : "\": ".toList = '"' :: ": ".toList := rfl
  have h5 : "(".toList = ['('] := rfl
  have h6 : "\"".toList = ['"'] := rfl
  simp [renderNode, joinLines, List.intercalate, newFrame, Frame.write, h1, ← h3, h4, h5, h6]

theorem neat_newFrame : newFrame.Neat := by
  refine ⟨?_, ?_, ?_, ?_, ?_, ?_, ?_⟩ <;> decide

theorem units_renderNode (name ty inner : Text) :
    units (renderNode name ty inner) = 79 + units name + units ty + units inner := by
  have h1 : units newFrame.beforeName = 19 := by decide
  have h2 : units newFrame.beforeTy = 39 := by decide
  have h3 : units newFrame.beforeInner = 2 := by decide
  have h4 : units newFrame.behind = 14 := by decide
  rw [renderNode_eq_write, Frame.units_write, h1, h2, h3, h4]

end NodeReshape
