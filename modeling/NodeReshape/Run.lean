import NodeReshape.Batch
import NodeReshape.Logger

/-! One whole migration: from settings to an exit code, and from an environment to all that a
process shows of it. -/
namespace NodeReshape

/-- The working directory as an absolute path. -/
def Disk.workingPath (d : Disk) : Text := '/' :: Path.ofSegments d.workingDirectory

/-- The migration as far as it goes. It ends with the first thing raised. -/
def attempt (source : Config.Source) (reporter : Reporter) (s : Session) :
    Session × Except Raised BatchResult :=
  match resolveConfig s.disk.workingPath source with
  | .error issues => (s, .error (Config.invalid issues))
  | .ok config =>
    match migrateDirectory config (some reporter) s with
    | (s, .error e) => (s, .error e)
    | (s, .ok result) =>
      match s.report (some reporter) .completed with
      | (s, .error e) => (s, .error e)
      | (s, .ok ()) => (s, .ok result)

/-- The migration and its exit code. Whatever is raised is logged and makes the code 1. -/
def run (source : Config.Source) (reporter : Reporter) (s : Session) : Session × Nat :=
  match attempt source reporter s with
  | (s, .ok result) => (s.log (.batchFinished result.files.length), 0)
  | (s, .error e) => (s.log (.migrationFailed e), 1)

/-- What a process leaves behind: the disk, its exit code, the lines it printed and the records it
wrote. -/
structure ProcessResult where
  disk : Disk
  exitCode : Nat
  lines : List Text
  records : List Fields

/-- The migration with the default settings as a process. When the log level is invalid the process
ends before it does anything. -/
def runProcess (env : Environment) (d : Disk) : ProcessResult :=
  match Logger.forEnvironment env false with
  | .error _ => ⟨d, 1, [], []⟩
  | .ok logger =>
    let (s, exitCode) := run .absent .console (.start d)
    ⟨s.disk, exitCode, Reporter.console.lines [] s.notices, s.events.flatMap logger.eventRecords⟩

end NodeReshape
