import NodeReshape.Value

/-! Data that looks like an error: an object with a string for its message. Where an error is to be
described, such an object is described as one: by its type, its message with those of its causes,
its trace, and whatever else it holds. This fails where a trace is to be continued that is data
without a text. -/
namespace NodeReshape

/-- What the message of a cause adds to the message in front of it. -/
def causeSuffix : Option Text → Text
  | some message => ": ".toList ++ message
  | none => []

namespace Value

def messageName : Text := "message".toList
def causeName : Text := "cause".toList
def traceName : Text := "stack".toList
def typeEntryName : Text := "type".toList
def membersName : Text := "errors".toList
def describedMembersName : Text := "aggregateErrors".toList

def ownMessage? (fields : Fields) : Option Text := (lookup? messageName fields).bind string?

def isErrorLike : Value → Bool
  | object fields => (ownMessage? fields).isSome
  | _ => false

mutual

/-- The message of data that looks like an error, followed by the messages of its causes. -/
def fullMessage? : Value → Option Text
  | object fields => (ownMessage? fields).map fun m => m ++ causeSuffix (causeMessage? fields)
  | _ => none

def causeMessage? : Fields → Option Text
  | [] => none
  | (name, v) :: rest => if name = causeName then v.fullMessage? else causeMessage? rest

end

/-- There is a cause, and it looks like an error. -/
def hasErrorCause (fields : Fields) : Bool := (lookup? causeName fields).any isErrorLike

mutual

/-- The trace of data that looks like an error, followed by the traces of its causes, where each of
these has a text. A trace that is not given is empty. -/
def trace? : Value → Option Value
  | object fields =>
    if (ownMessage? fields).isSome then
      let own := ((lookup? traceName fields).filter truthy).getD (string [])
      if hasErrorCause fields then do
        let behind ← causeTrace? fields
        return string ((← own.text?) ++ "\ncaused by: ".toList ++ (← behind.text?))
      else some own
    else some (string [])
  | _ => some (string [])

def causeTrace? : Fields → Option Value
  | [] => some (string [])
  | (name, v) :: rest => if name = causeName then v.trace? else causeTrace? rest

end

/-- The names that every object answers to without holding them. -/
def inheritedNames : List Text :=
  ["constructor".toList, "toString".toList, "toLocaleString".toList, "valueOf".toList,
    "hasOwnProperty".toList, "isPrototypeOf".toList, "propertyIsEnumerable".toList,
    "__proto__".toList, "__defineGetter__".toList, "__defineSetter__".toList,
    "__lookupGetter__".toList, "__lookupSetter__".toList]

/-- The type of an object that looks like an error. One that says what made it is called by its
name, if it has one. -/
def errorType? (fields : Fields) : Option Value :=
  match lookup? "constructor".toList fields with
  | none => some (string "Object".toList)
  | some _ => lookup? "name".toList fields

/-- The members of an error that stands for several. -/
def members? (fields : Fields) : Option (List Value) :=
  match lookup? membersName fields with
  | some (array items) => some items
  | _ => none

/-- The entry of this name is not taken over into the description of an object, because the
description has an entry of this name already or keeps the name for itself. -/
def isDropped (fields : Fields) (name : Text) : Bool :=
  name = messageName || name = traceName || name = "raw".toList || name ∈ inheritedNames ||
    (name = typeEntryName && (errorType? fields).isSome) ||
    (name = describedMembersName && (members? fields).isSome)

mutual

/-- Data that looks like an error as its description, and any other data as it is. -/
def described? : Value → Option Value
  | object fields =>
    match ownMessage? fields with
    | none => some (object fields)
    | some own => do
      let entry (name : Text) (v : Option Value) : Fields := (v.map fun v => (name, v)).toList
      let trace ← trace? (object fields)
      let members ← describedMembers? fields
      let others ← describedEntries? fields fields
      return object (
        entry typeEntryName (errorType? fields) ++
        [(messageName, string (own ++ causeSuffix (causeMessage? fields))), (traceName, trace)] ++
        entry describedMembersName (members.map array) ++ others)
  | v => some v

/-- The entries that are taken over, with descriptions for what looks like an error. A cause that
does is left out, since its message and its trace are part of the description already. -/
def describedEntries? (whole : Fields) : Fields → Option Fields
  | [] => some []
  | (name, v) :: rest =>
    if isDropped whole name || (name = causeName && v.isErrorLike) then
      describedEntries? whole rest
    else do
      let described ← v.described?
      return (name, described) :: (← describedEntries? whole rest)

/-- The members of an error that stands for several, each described, if it is one. -/
def describedMembers? : Fields → Option (Option (List Value))
  | [] => some none
  | (name, v) :: rest =>
    if name = membersName then
      match v with
      | array items => (describedItems? items).map some
      | _ => some none
    else describedMembers? rest

def describedItems? : List Value → Option (List Value)
  | [] => some []
  | v :: rest => do
    let described ← v.described?
    return described :: (← describedItems? rest)

end

def withoutTrace : Value → Value
  | object fields => object (fields.filter fun e => e.1 ≠ traceName)
  | v => v

end Value
end NodeReshape
