import NodeReshape.Fragment

/-! A matcher looks for one old-shape node at a time and remembers where the next search begins.
The place is kept when the matcher is used on another text. -/
namespace NodeReshape

/-- The place where the next search begins, in units. -/
structure Matcher where
  lastIndex : Nat
  deriving DecidableEq

/-- The first fragment at or behind the start of a text that begins at `offset`. -/
def firstFragment? (offset : Nat) : Text → Option Fragment
  | [] => none
  | c :: t =>
    match OldNode.read? (c :: t) with
    | some (n, _) => some (n.fragment offset)
    | none => firstFragment? (offset + width c) t

/-- The first fragment at or behind an offset. An offset inside a character counts as the end of
that character, and none lies behind an offset beyond the text. -/
def fragmentFrom? (start : Nat) (document : Text) : Option Fragment :=
  if units document < start then none
  else
    let rest := dropUnits start document
    firstFragment? (units document - units rest) rest

namespace Matcher

def new : Matcher := ⟨0⟩

/-- The old node shape as a regular expression, with its three captures. -/
def source : Text :=
  "\\(\\s*name:\\s*\"([^\"]+)\",\\s*ty:\\s*\"([^\"]+)\",\\s*inner:\\s*(\\([^)]+\\))".toList

/-- A matcher goes on from where it is. -/
def flags : Text := "g".toList

/-- The next search begins at this offset. -/
def seek (_ : Matcher) (offset : Nat) : Matcher := ⟨offset⟩

/-- The next fragment. The matcher goes on behind it, or from the start when there is none. -/
def exec (m : Matcher) (document : Text) : Option Fragment × Matcher :=
  match fragmentFrom? m.lastIndex document with
  | some f => (some f, ⟨f.stop⟩)
  | none => (none, ⟨0⟩)

/-- Whether there is a next fragment; the matcher moves as in `exec`. -/
def test (m : Matcher) (document : Text) : Bool × Matcher :=
  let (found, next) := m.exec document
  (found.isSome, next)

/-- One step on a row of matchers, which are numbered from zero in the order they were made. -/
inductive Step where
  | new
  | exec (matcher : Nat) (document : Text)
  | test (matcher : Nat) (document : Text)
  | seek (matcher : Nat) (offset : Nat)
  deriving DecidableEq

/-- What a step shows, together with the matcher as it is after the step. -/
inductive Answer where
  | made (after : Matcher)
  | found (fragment : Option Fragment) (after : Matcher)
  | tested (matched : Bool) (after : Matcher)
  | moved (after : Matcher)
  deriving DecidableEq

/-- The matcher with this number takes its place in the row again after `act`. -/
def onMatcher (row : List Matcher) (k : Nat) (act : Matcher → Matcher × Answer) :
    Option (List Matcher × Answer) :=
  row[k]?.map fun m =>
    let (after, answer) := act m
    (row.set k after, answer)

/-- The row after a step and what the step shows, unless there is no matcher of its number. -/
def step (row : List Matcher) : Step → Option (List Matcher × Answer)
  | .new => some (row ++ [Matcher.new], .made Matcher.new)
  | .exec k document => onMatcher row k fun m =>
    let (found, after) := m.exec document
    (after, .found found after)
  | .test k document => onMatcher row k fun m =>
    let (matched, after) := m.test document
    (after, .tested matched after)
  | .seek k offset => onMatcher row k fun m => (m.seek offset, .moved (m.seek offset))

/-- The row after these steps and what each of them shows. -/
def steps (row : List Matcher) : List Step → Option (List Matcher × List Answer)
  | [] => some (row, [])
  | s :: rest => do
    let (row, answer) ← step row s
    let (row, answers) ← steps row rest
    return (row, answer :: answers)

end Matcher
end NodeReshape
