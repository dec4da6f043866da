import NodeReshape.Raised

/-! Progress shown to the user: one line for each reshaped file and one at the end. A reporter is
told everything in order and may object, which ends the job. -/
namespace NodeReshape

inductive Notice where
  | fileTransformed (fileName : Text)
  | completed
  deriving DecidableEq

def fileLine (fileName : Text) : Text := "Transformed ".toList ++ fileName

def completionLine : Text := "Transformation complete.".toList

/-- The line shown for a notice. -/
def Notice.line : Notice → Text
  | fileTransformed fileName => fileLine fileName
  | completed => completionLine

/-- What a reporter raises when it is given a notice after these earlier ones. -/
structure Reporter where
  objection : List Notice → Notice → Option Raised

namespace Reporter

/-- Shows every notice and never objects. -/
def console : Reporter := ⟨fun _ _ => none⟩

/-- The lines shown for these notices when the earlier ones are already shown. A notice that is
objected to shows none. -/
def lines (r : Reporter) (earlier : List Notice) : List Notice → List Text
  | [] => []
  | n :: rest =>
    let others := r.lines (earlier ++ [n]) rest
    match r.objection earlier n with
    | none => n.line :: others
    | some _ => others

theorem lines_console (earlier notices : List Notice) :
    console.lines earlier notices = notices.map Notice.line := by
  induction notices generalizing earlier with
  | nil => rfl
  | cons n rest ih => simp [lines, console] at ih ⊢; exact ih _

end Reporter
end NodeReshape
