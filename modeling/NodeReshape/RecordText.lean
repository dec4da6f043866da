import NodeReshape.ErrorLike
import NodeReshape.JsonReading
import NodeReshape.QuotedText

/-! Records as text: one JSON object on each line. Under an ordinary name a value is written as
JSON. A name that every object answers to (`Value.inheritedNames`) has that answer taken for the way
to write its value, so that the text under it need not be JSON and can go over several lines. Which
records such a text is shows when its lines are read. -/
namespace NodeReshape

/-- How a value is written under a name. Some names, and values without a text under others, prevent
the whole record. -/
inductive Spelling where
  | text (t : Text)
  | omitted
  | prevented

/-- No object answers to the name unless it holds it. -/
def isOrdinary (name : Text) : Bool := !Value.inheritedNames.contains name

/-- The text of a value as an object. A null counts as an object without entries. -/
def Value.objectText? : Value → Option Text
  | null => (object []).text?
  | v => v.text?

/-- How this value is written under this name. Of the names that every object answers to, the one
that makes objects gives the bare text of the value, the one that shows an object shows an undefined
one, the one that asks for an ancestor says no, the two that look something up find nothing, and the
others fail. -/
def Value.spelledAs (name : Text) (v : Value) : Spelling :=
  if isOrdinary name then .text v.json
  else if name = "constructor".toList then
    match v.objectText? with
    | some t => .text t
    | none => .prevented
  else if name = "toString".toList then .text "[object Undefined]".toList
  else if name = "isPrototypeOf".toList then .text (bool false).json
  else if name = "__lookupGetter__".toList ∨ name = "__lookupSetter__".toList then .omitted
  else .prevented

/-- Entries with their names in quotes and their values as JSON. -/
def plainEntries (fields : Fields) : List (Text × Text) :=
  fields.map fun f => (JsonText.quote f.1, f.2.json)

/-- Entries with their names in quotes and their values as the names say. -/
def spelledEntries? : Fields → Option (List (Text × Text))
  | [] => some []
  | (name, v) :: rest =>
    match v.spelledAs name with
    | .text t => (spelledEntries? rest).map ((JsonText.quote name, t) :: ·)
    | .omitted => spelledEntries? rest
    | .prevented => none

/-- Entries with their names between quotes just as they are given, where a backslash begins an
escape and a quote ends the name. No value can be omitted. -/
def rawEntries? : Fields → Option (List (Text × Text))
  | [] => some []
  | (name, v) :: rest =>
    match v.spelledAs name with
    | .text t => (rawEntries? rest).map (('"' :: (name ++ ['"']), t) :: ·)
    | _ => none

/-- The fields of the object that a text stands for. -/
def fieldsOfJson? (t : Text) : Option Fields :=
  match Value.ofJson? t with
  | some (.object fields) => some fields
  | _ => none

/-- The records in a text. A line that stands for no object is passed over. -/
def recordsIn (t : Text) : List Fields := (QuotedText.lines t).filterMap fieldsOfJson?

end NodeReshape
