import NodeReshape.Config
import NodeReshape.RequestLike

/-! What is logged: the events of a migration, and the named values that a record of them holds. -/
namespace NodeReshape

/-- What can be logged under a name. -/
inductive Detail where
  | value (v : Value)
  | count (n : Nat)
  | raised (r : Raised)

abbrev Details := List (Text × Detail)

def Detail.text (t : Text) : Detail := value (.string t)

/-- What happens in a migration and is worth a record. -/
inductive Event where
  | batchStarted (config : Config) (entryCount : Nat)
  | entrySkipped (entry : Text)
  | copiedUnchanged (fileName inputPath : Text)
  | nodesReshaped (fileName : Text) (fragmentCount : Nat)
  | batchFinished (fileCount : Nat)
  | migrationFailed (cause : Raised)

namespace Event

/-- A file without nodes is worth a warning, and a failure is an error. -/
def level : Event → Level
  | copiedUnchanged .. => .warn
  | migrationFailed _ => .error
  | _ => .debug

def message : Event → Text
  | batchStarted .. => "starting batch".toList
  | entrySkipped _ => "skipping entry".toList
  | copiedUnchanged .. => "no node fragments found; copying unchanged".toList
  | nodesReshaped .. => "rewrote node fragments".toList
  | batchFinished _ => "batch finished".toList
  | migrationFailed _ => "migration failed".toList

/-- The file that the event is bound to. -/
def bindings : Event → Fields
  | copiedUnchanged fileName _ => [("file".toList, .string fileName)]
  | nodesReshaped fileName _ => [("file".toList, .string fileName)]
  | _ => []

def fields : Event → Details
  | batchStarted config entryCount =>
    [("inputDir".toList, .text config.inputDir), ("outputDir".toList, .text config.outputDir),
      ("extension".toList, .text config.extension), ("entryCount".toList, .count entryCount)]
  | entrySkipped entry => [("entry".toList, .text entry)]
  | copiedUnchanged _ inputPath => [("inputPath".toList, .text inputPath)]
  | nodesReshaped _ fragmentCount => [("fragmentCount".toList, .count fragmentCount)]
  | batchFinished fileCount => [("fileCount".toList, .count fileCount)]
  | migrationFailed cause => [("err".toList, .raised cause)]

end Event

/-- An error as data in a record: its class, its message with those of its causes, and what it
carries. Other data is described where it looks like an error. -/
def Raised.logged? (r : Raised) : Option Value :=
  let entry (name : Text) (v : Option Value) : Option Fields :=
    match v with
    | none => some []
    | some v => v.described?.map fun described => [(name, described)]
  match r with
  | .nothing => some .null
  | .value v => v.described?
  | _ => do
    let message ← r.fullMessage?
    let name ← entry "name".toList (r.class?.map fun c => .string c.name)
    let code ← entry "code".toList r.code?
    let context ← entry "context".toList (r.context?.map .object)
    return .object (
      [("type".toList, .string r.className), ("message".toList, .string message)] ++
      name ++ code ++ context ++
      match r with
      | .config issues => [("issues".toList, .array (issues.map .string))]
      | .file fault path _ =>
        [("operation".toList, .string fault.operation.name), ("path".toList, .string path)]
      | _ => [])

/-- The name under which an error is logged. -/
def errorName : Text := "err".toList

/-- The value as it is written under this name. What looks like an error is described where an error
belongs. -/
def Value.loggedAs? (name : Text) (v : Value) : Option Value :=
  if name = errorName then v.described? else some v

/-- The value as it stands in a record under this name: an error stands there without its trace. -/
def Value.recordedAs (name : Text) (v : Value) : Value :=
  if name = errorName then v.withoutTrace else v

def Detail.toValue? : Detail → Option Value
  | value v => some v
  | count n => some (.number (.ofNat n))
  | raised r => r.logged?

def Detail.loggedAs? (name : Text) : Detail → Option Value
  | value v => v.loggedAs? name
  | d => d.toValue?

/-- The values that are written for these details, unless something in them cannot be described.
Those of a request are summarized. -/
def Details.logged? (ds : Details) : Option Fields := do
  let raw ← ds.mapM fun d => d.2.toValue?.map fun v => (d.1, v)
  if isRequestLike raw then return [("req".toList, requestSummary raw)]
  ds.mapM fun d => (d.2.loggedAs? d.1).map fun v => (d.1, v)

end NodeReshape
