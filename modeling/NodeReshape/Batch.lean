import NodeReshape.DiskAccess
import NodeReshape.Log
import NodeReshape.Report
import NodeReshape.Reshape

/-! Reshaping one file, and all files of a directory. Every step hands on the session, so that what
was written, logged and reported before a failure is still there after it. -/
namespace NodeReshape

structure Session where
  disk : Disk
  events : List Event
  notices : List Notice

namespace Session

def start (d : Disk) : Session := ⟨d, [], []⟩

def log (s : Session) (e : Event) : Session := { s with events := s.events ++ [e] }

def report (s : Session) (reporter : Option Reporter) (n : Notice) :
    Session × Except Raised Unit :=
  match reporter with
  | none => (s, .ok ())
  | some r =>
    let told := { s with notices := s.notices ++ [n] }
    match r.objection s.notices n with
    | none => (told, .ok ())
    | some e => (told, .error e)

end Session

structure FileResult where
  fileName : Text
  inputPath : Text
  outputPath : Text
  fragmentCount : Nat
  deriving DecidableEq

structure BatchResult where
  inputDir : Text
  outputDir : Text
  files : List FileResult
  deriving DecidableEq

/-- The kinds of directory entry that a file system can hold. -/
inductive EntryKind where
  | file
  | directory
  | link
  | fifo
  | socket
  | characterDevice
  | blockDevice
  | unknown
  deriving DecidableEq

def Entry.kind : Entry → EntryKind
  | file _ => .file
  | directory => .directory
  | link _ => .link

/-- Regular files with the suffix are reshaped, and nothing else whatever its name. -/
def isEligible (kind : EntryKind) (name extension : Text) : Bool :=
  kind == .file && extension.isSuffixOf name

/-- What one file says about its reshaping. -/
def reshapingEvent (fileName inputPath : Text) (fragments : List Fragment) : Event :=
  if fragments = [] then .copiedUnchanged fileName inputPath
  else .nodesReshaped fileName fragments.length

/-- One file is read, reshaped and written to another path. -/
def migrateFile (s : Session) (inputPath outputPath : Text) : Session × Except Raised FileResult :=
  let fileName := Path.base inputPath
  match s.disk.read inputPath with
  | .error fault => (s, .error (.failure .fileRead inputPath fault.raised))
  | .ok content =>
    let reshaping := reshape (Utf8.decode content)
    let s := s.log (reshapingEvent fileName inputPath reshaping.fragments)
    match s.disk.write outputPath (Utf8.encode reshaping.output) with
    | .error fault => (s, .error (.failure .fileWrite outputPath fault.raised))
    | .ok disk =>
      ({ s with disk }, .ok ⟨fileName, inputPath, outputPath, reshaping.fragments.length⟩)

/-- The listed entries one after another, up to the first failure. -/
def migrateEntries (c : Config) (reporter : Option Reporter) :
    List (Text × Entry) → Session → Session × Except Raised (List FileResult)
  | [], s => (s, .ok [])
  | (name, entry) :: rest, s =>
    if isEligible entry.kind name c.extension then
      match migrateFile s (Path.join c.inputDir name) (Path.join c.outputDir name) with
      | (s, .error e) => (s, .error e)
      | (s, .ok file) =>
        match s.report reporter (.fileTransformed name) with
        | (s, .error e) => (s, .error e)
        | (s, .ok ()) =>
          let (s, others) := migrateEntries c reporter rest s
          (s, others.map (file :: ·))
    else migrateEntries c reporter rest (s.log (.entrySkipped name))

/-- The output directory is made, the input directory is listed, and its eligible files are
reshaped into the output directory under their own names. -/
def migrateDirectory (c : Config) (reporter : Option Reporter) (s : Session) :
    Session × Except Raised BatchResult :=
  match s.disk.ensureDirectory c.outputDir with
  | (disk, .error fault) =>
    ({ s with disk }, .error (.failure .directoryCreate c.outputDir fault.raised))
  | (disk, .ok ()) =>
    let s := { s with disk }
    match s.disk.list c.inputDir with
    | .error fault => (s, .error (.failure .directoryRead c.inputDir fault.raised))
    | .ok entries =>
      let (s, files) := migrateEntries c reporter entries (s.log (.batchStarted c entries.length))
      (s, files.map (⟨c.inputDir, c.outputDir, ·⟩))

end NodeReshape
