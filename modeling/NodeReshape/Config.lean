import NodeReshape.Level
import NodeReshape.Path
import NodeReshape.Raised

/-! The settings of a migration: two directories and a file suffix. `resolveConfig` fills in the
defaults and otherwise lists every fault of what it was given. -/
namespace NodeReshape

structure Config where
  inputDir : Text
  outputDir : Text
  extension : Text
  deriving DecidableEq

namespace Config

inductive Field where
  | inputDir
  | outputDir
  | extension
  deriving DecidableEq

namespace Field

def all : List Field := [inputDir, outputDir, extension]

def name : Field → Text
  | inputDir => "inputDir".toList
  | outputDir => "outputDir".toList
  | extension => "extension".toList

/-- The setting used when none is given. -/
def default : Field → Text
  | inputDir => "animation_graphs_old".toList
  | outputDir => "animation_graphs".toList
  | extension => ".ron".toList

/-- A directory must not be empty. A suffix is a dot and at least one more character, without
slashes of either kind. -/
def accepts : Field → Text → Bool
  | inputDir, t => t ≠ []
  | outputDir, t => t ≠ []
  | extension, t =>
    match t with
    | '.' :: c :: rest => (c :: rest).all fun c => c != '/' && c != '\\'
    | _ => false

/-- What is asked of an accepted setting. -/
def requirement : Field → Text
  | inputDir => "must not be empty".toList
  | outputDir => "must not be empty".toList
  | extension => "must be a file suffix starting with \".\"".toList

end Field

inductive Issue where
  | wrongType (field : Field) (received : Text)
  | refused (field : Field)
  | unknownKeys (keys : List Text)
  | sameDirectory
  | notAnObject (received : Text)
  | unknownLevel (received : Text)
  deriving DecidableEq

/-- Names in single quotes, without any escaping. -/
def quotedNames (separator : Text) (names : List Text) : Text :=
  List.intercalate separator (names.map fun n => '\'' :: (n ++ ['\'']))

def Issue.text : Issue → Text
  | wrongType field received =>
    field.name ++ ": Expected string, received ".toList ++ received
  | refused field => field.name ++ ": ".toList ++ field.requirement
  | unknownKeys keys =>
    "(root): Unrecognized key(s) in object: ".toList ++ quotedNames ", ".toList keys
  | sameDirectory => Field.outputDir.name ++ ": must differ from inputDir".toList
  | notAnObject received => "(root): Expected object, received ".toList ++ received
  | unknownLevel received =>
    "LOG_LEVEL: Invalid enum value. Expected ".toList ++
      quotedNames " | ".toList (Level.all.map Level.name) ++
      ", received '".toList ++ received ++ ['\'']

def invalid (issues : List Issue) : Raised := .config (issues.map Issue.text)

/-- What the settings are taken from: nothing, a value, or keys assigned one after another, where a
key without a value counts as unset. -/
inductive Source where
  | absent
  | value (v : Value)
  | entries (assignments : List (Text × Option Value))

/-- The keys and values given, or the type of what is no object. -/
def Source.fields : Source → Except Text (List (Text × Option Value))
  | absent => .ok []
  | value (.object fields) => .ok (ofAssignments (fields.map fun f => (f.1, some f.2)))
  | value v => .error v.typeName
  | entries assignments => .ok (ofAssignments assignments)

def given (fields : List (Text × Option Value)) (field : Field) : Option Value :=
  (lookup? field.name fields).join

/-- The fault of a field, if it has one. -/
def fieldIssue? (fields : List (Text × Option Value)) (field : Field) : Option Issue :=
  match given fields field with
  | none => none
  | some (.string t) => if field.accepts t then none else some (.refused field)
  | some v => some (.wrongType field v.typeName)

/-- The text of a field, the default when it is unset, none when it is not a text. -/
def setting? (fields : List (Text × Option Value)) (field : Field) : Option Text :=
  match given fields field with
  | none => some field.default
  | some v => v.string?

/-- The settings with the defaults filled in, unless one is not a text. -/
def settings? (fields : List (Text × Option Value)) : Option Config := do
  let inputDir ← setting? fields .inputDir
  let outputDir ← setting? fields .outputDir
  let extension ← setting? fields .extension
  return ⟨inputDir, outputDir, extension⟩

def unknownKeys (fields : List (Text × Option Value)) : List Text :=
  ownKeys ((fields.map Prod.fst).filter fun k => Field.all.all fun f => f.name ≠ k)

/-- The two directories are the same place by their names alone. -/
def sameDirectory (workingDirectory : Text) (c : Config) : Bool :=
  Path.resolve workingDirectory c.inputDir = Path.resolve workingDirectory c.outputDir

/-- All faults: field by field, then the unknown keys, then the two directories against each
other. -/
def issues (workingDirectory : Text) (fields : List (Text × Option Value)) : List Issue :=
  Field.all.filterMap (fieldIssue? fields) ++
    (match unknownKeys fields with | [] => [] | keys => [.unknownKeys keys]) ++
    (match settings? fields with
      | some c => if sameDirectory workingDirectory c then [.sameDirectory] else []
      | none => [])

end Config

open Config in
/-- The settings to run with, or all faults of the source. -/
def resolveConfig (workingDirectory : Text) (source : Source) : Except (List Issue) Config :=
  match source.fields with
  | .error received => .error [.notAnObject received]
  | .ok fields =>
    match issues workingDirectory fields, settings? fields with
    | [], some c => .ok c
    | found, _ => .error found

/-- The log level to run with, or the fault of the name asked for. -/
def resolveLevel (env : Environment) : Except (List Config.Issue) Level :=
  match env.threshold with
  | .ok l => .ok l
  | .error asked => .error [.unknownLevel asked]

end NodeReshape
