import NodeReshape.ErrorLike

/-! What a failing call raises: nothing at all, plain data, a plain error, or one of the errors of
a migration. A failure of the file system wraps whatever raised it, keeps its code and continues
its message. It is made only around a cause that can be told: to make it around data without a text
raises an error of its own. -/
namespace NodeReshape

inductive Operation where
  | read
  | write
  | list
  | mkdir
  deriving DecidableEq

namespace Operation

def name : Operation → Text
  | read => "read".toList
  | write => "write".toList
  | list => "list".toList
  | mkdir => "mkdir".toList

def label : Operation → Text
  | read => "read file".toList
  | write => "write file".toList
  | list => "list directory".toList
  | mkdir => "create directory".toList

end Operation

/-- The kinds of file system failure. The four named ones stand for one operation each. -/
inductive FileFault where
  | general (operation : Operation)
  | fileRead
  | fileWrite
  | directoryRead
  | directoryCreate
  deriving DecidableEq

def FileFault.operation : FileFault → Operation
  | general operation => operation
  | fileRead => .read
  | fileWrite => .write
  | directoryRead => .list
  | directoryCreate => .mkdir

/-- The classes an error of a migration can belong to. -/
inductive ErrorClass where
  | migration
  | config
  | fileFault
  | fileRead
  | fileWrite
  | directoryRead
  | directoryCreate
  deriving DecidableEq

namespace ErrorClass

/-- All classes, each behind those it belongs to. -/
def all : List ErrorClass :=
  [migration, config, fileFault, fileRead, fileWrite, directoryRead, directoryCreate]

def name : ErrorClass → Text
  | migration => "MigrationError".toList
  | config => "ConfigError".toList
  | fileFault => "MigrationIOError".toList
  | fileRead => "FileReadError".toList
  | fileWrite => "FileWriteError".toList
  | directoryRead => "DirectoryReadError".toList
  | directoryCreate => "DirectoryCreateError".toList

end ErrorClass

inductive Raised where
  | nothing
  | value (v : Value)
  /-- An error without a class of its own, and its code if it has one. -/
  | plain (message : Text) (code : Option Value)
  /-- The error of asking data for a text that it does not have. -/
  | textless
  | migration (message code : Text) (cause : Raised) (context : Option Fields)
  | config (issues : List Text)
  | file (fault : FileFault) (path : Text) (cause : Raised)

namespace Raised

def isError : Raised → Bool
  | nothing => false
  | value _ => false
  | _ => true

/-- The code of a failure whose cause has this code: that code when it is a non-empty string. -/
def codeOr (code : Option Value) : Text :=
  match code with
  | some (.string (c :: t)) => c :: t
  | _ => "EIO".toList

/-- The code of an error. Only a plain error may have none, or one that is not a string. -/
def code? : Raised → Option Value
  | nothing => none
  | value _ => none
  | plain _ code => code
  | textless => none
  | migration _ code _ _ => some (.string code)
  | config _ => some (.string "CONFIG_INVALID".toList)
  | file _ _ cause => some (.string (codeOr cause.code?))

/-- An error with a string for its code, as system errors have. -/
def isSystemError (r : Raised) : Bool := (r.code?.bind Value.string?).isSome

/-- What is told of something raised: the message of an error, and the text of anything else, if it
has one. A failure continues what is told of its cause. -/
def message? : Raised → Option Text
  | nothing => some "undefined".toList
  | value v => v.text?
  | plain message _ => some message
  | textless => some "Cannot convert object to primitive value".toList
  | migration message _ _ _ => some message
  | config issues => some (
    "Invalid migration config:\n".toList ++ joinLines (issues.map fun i => "  - ".toList ++ i))
  | file fault path cause => cause.message?.map fun reason =>
    "Cannot ".toList ++ fault.operation.label ++ " \"".toList ++ path ++ "\": ".toList ++ reason

/-- Making a failure of this kind around a cause. -/
def wrap (fault : FileFault) (path : Text) (cause : Raised) : Except Raised Raised :=
  match cause.message? with
  | some _ => .ok (file fault path cause)
  | none => .error textless

/-- What is raised where a failure of this kind is to be raised: the failure, or what making it
raises. -/
def failure (fault : FileFault) (path : Text) (cause : Raised) : Raised :=
  match wrap fault path cause with
  | .ok made => made
  | .error e => e

/-- The message of an error, or of data that looks like one, followed by the messages of its
causes. -/
def fullMessage? : Raised → Option Text
  | nothing => none
  | value v => v.fullMessage?
  | migration message _ cause _ => some (message ++ causeSuffix cause.fullMessage?)
  | file fault path cause =>
    (file fault path cause).message?.map (· ++ causeSuffix cause.fullMessage?)
  | r => r.message?

/-- The most specific class of an error of a migration. -/
def class? : Raised → Option ErrorClass
  | migration .. => some .migration
  | config _ => some .config
  | file (.general _) .. => some .fileFault
  | file .fileRead .. => some .fileRead
  | file .fileWrite .. => some .fileWrite
  | file .directoryRead .. => some .directoryRead
  | file .directoryCreate .. => some .directoryCreate
  | _ => none

def className : Raised → Text
  | textless => "TypeError".toList
  | r =>
    match r.class? with
    | some c => c.name
    | none => "Error".toList

/-- Whether an error belongs to a class. Every named file system failure is a general one too. -/
def isA (r : Raised) (c : ErrorClass) : Bool :=
  match r.class?, c with
  | none, _ => false
  | some _, .migration => true
  | some own, .fileFault => own != .migration && own != .config
  | some own, c => own == c

/-- The classes of an error, each behind those it belongs to. -/
def classes (r : Raised) : List ErrorClass := ErrorClass.all.filter r.isA

/-- The data an error carries beside its message. -/
def context? : Raised → Option Fields
  | migration _ _ _ context => context
  | config issues => some [("issues".toList, .array (issues.map .string))]
  | file fault path _ =>
    some [("operation".toList, .string fault.operation.name), ("path".toList, .string path)]
  | _ => none

/-- The name of the primitive type of what was raised; every error, array and null is an object. -/
def typeName : Raised → Text
  | nothing => "undefined".toList
  | value (.bool b) => (Value.bool b).typeName
  | value (.number x) => (Value.number x).typeName
  | value (.string t) => (Value.string t).typeName
  | _ => "object".toList

end Raised
end NodeReshape
