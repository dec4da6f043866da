import NodeReshape.Disk
import NodeReshape.QuotedText
import NodeReshape.Raised

/-! Reading, writing, listing and creating by path, with the exact reason when it cannot be done. -/
namespace NodeReshape

namespace SystemError

def code : SystemError → Text
  | noEntry => "ENOENT".toList
  | notDirectory => "ENOTDIR".toList
  | isDirectory => "EISDIR".toList
  | alreadyExists => "EEXIST".toList
  | linkLoop => "ELOOP".toList
  | nameTooLong => "ENAMETOOLONG".toList

def text : SystemError → Text
  | noEntry => "no such file or directory".toList
  | notDirectory => "not a directory".toList
  | isDirectory => "illegal operation on a directory".toList
  | alreadyExists => "file already exists".toList
  | linkLoop => "too many symbolic links encountered".toList
  | nameTooLong => "name too long".toList

end SystemError

inductive Request where
  | openFile
  | scanDirectory
  | makeDirectory
  deriving DecidableEq

def Request.name : Request → Text
  | openFile => "open".toList
  | scanDirectory => "scandir".toList
  | makeDirectory => "mkdir".toList

/-- Why an access failed: the system refused a request for a path, the file to read is a directory,
or the path holds a zero character and was never asked for. -/
inductive AccessFault where
  | refused (error : SystemError) (request : Request) (path : Text)
  | readsDirectory
  | zeroInPath (path : Text)
  deriving DecidableEq

namespace AccessFault

def code : AccessFault → Text
  | refused error _ _ => error.code
  | readsDirectory => SystemError.isDirectory.code
  | zeroInPath _ => "ERR_INVALID_ARG_VALUE".toList

def message : AccessFault → Text
  | refused error request path =>
    error.code ++ ": ".toList ++ error.text ++ ", ".toList ++ request.name ++
      " '".toList ++ path ++ ['\'']
  | readsDirectory =>
    SystemError.isDirectory.code ++ ": ".toList ++ SystemError.isDirectory.text ++ ", read".toList
  | zeroInPath path =>
    "The argument 'path' must be a string, Uint8Array, or URL without null bytes. ".toList ++
      "Received ".toList ++ QuotedText.shown path

def raised (f : AccessFault) : Raised := .plain f.message (some (.string f.code))

/-- A failed access can be told, so that the failure around it can be made. -/
@[simp] theorem failure_raised (f : AccessFault) (fault : FileFault) (path : Text) :
    Raised.failure fault path f.raised = .file fault path f.raised := rfl

end AccessFault

/-- The path holds a zero character, which no path can. -/
def hasZero (p : Text) : Bool := p.any (· = '\u0000')

namespace Disk

def read (d : Disk) (p : Text) : Except AccessFault Bytes :=
  if hasZero p then .error (.zeroInPath p)
  else
    match d.locate .look p with
    | .found _ (.file content) => .ok content
    | .found _ _ => .error .readsDirectory
    | .free _ => .error (.refused .noEntry .openFile p)
    | .failed e => .error (.refused e .openFile p)

/-- The disk after the content was written to the file that a path leads to. The file is made when
its name is free, also when a link points there, and otherwise replaced. -/
def write (d : Disk) (p : Text) (content : Bytes) : Except AccessFault Disk :=
  if hasZero p then .error (.zeroInPath p)
  else
    match d.locate .write p with
    | .found l (.file _) => .ok (d.put l (.file content))
    | .found _ _ => .error (.refused .isDirectory .openFile p)
    | .free l => .ok (d.put l (.file content))
    | .failed e => .error (.refused e .openFile p)

def list (d : Disk) (p : Text) : Except AccessFault (List (Text × Entry)) :=
  if hasZero p then .error (.zeroInPath p)
  else
    match d.locate .look p with
    | .found l .directory => .ok (d.children l)
    | .found _ _ => .error (.refused .notDirectory .scanDirectory p)
    | .free _ => .error (.refused .noEntry .scanDirectory p)
    | .failed e => .error (.refused e .scanDirectory p)

def makeDirectory (d : Disk) (p : Text) : Except SystemError Disk :=
  match d.locate .make p with
  | .found _ _ => .error .alreadyExists
  | .free l => .ok (d.put l .directory)
  | .failed e => .error e

/-- Whether a path leads to a directory, or why it leads nowhere. -/
def leadsToDirectory (d : Disk) (p : Text) : Except SystemError Bool :=
  match d.locate .look p with
  | .found _ e => .ok (e = .directory)
  | .free _ => .error .noEntry
  | .failed e => .error e

/-- What becomes of a directory that could not be made because of `error`: nothing is wrong when it
is there already. `below` says that it was to hold another one, which an entry of its name prevents
unless it leads to a directory. -/
def settle (d : Disk) (below : Bool) (p : Text) (error : SystemError) : Except SystemError Unit :=
  if error = .notDirectory then .error .notDirectory
  else
    match d.leadsToDirectory p with
    | .ok true => .ok ()
    | .ok false => .error (if below then .notDirectory else .alreadyExists)
    | .error e => .error (if below ∧ error = .alreadyExists then .notDirectory else e)

/-- The disk with a directory at the path. Where nothing is found on the way, the directory for the
text in front of the last slash is made first; `fronts` are those texts, the longest first. On a
failure, the path that could not be made is named, and directories made before it stay. -/
def ensure (d : Disk) (below : Bool) (p : Text) :
    List Text → Disk × Except (SystemError × Text) Unit
  | [] =>
    match d.makeDirectory p with
    | .ok made => (made, .ok ())
    | .error e => (d, (d.settle below p e).mapError (·, p))
  | q :: fronts =>
    match d.makeDirectory p with
    | .ok made => (made, .ok ())
    | .error .noEntry =>
      match d.ensure true q fronts with
      | (d, .error e) => (d, .error e)
      | (d, .ok ()) =>
        match d.makeDirectory p with
        | .ok made => (made, .ok ())
        | .error e => (d, (d.settle below p e).mapError (·, p))
    | .error e => (d, (d.settle below p e).mapError (·, p))

/-- The disk with a directory at the path, and the directories on the way to it. -/
def ensureDirectory (d : Disk) (p : Text) : Disk × Except AccessFault Unit :=
  if hasZero p then (d, .error (.zeroInPath p))
  else
    let (d, made) := d.ensure false p (Path.fronts p).reverse
    (d, made.mapError fun e => .refused e.1 .makeDirectory e.2)

end Disk
end NodeReshape
