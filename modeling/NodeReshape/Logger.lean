import NodeReshape.Log
import NodeReshape.RecordText

/-! How a logger turns what is logged into records. A record is a list of named values in which a
later name replaces an earlier one; its time is not part of the model and is written as a fixed
word. -/
namespace NodeReshape

/-- Writes the records that its threshold admits, with the same bindings in each. There are no
records of a logger that prints for a terminal, or whose bindings break the line of a record. -/
structure Logger where
  threshold : Level
  bindings : Fields
  writesRecords : Bool

namespace Logger

def service : Text := "ron-node-migrate".toList

/-- The logger that the environment asks for. On a terminal, records are printed for reading, save
in production and in tests. -/
def forEnvironment (env : Environment) (onTerminal : Bool) :
    Except (List Config.Issue) Logger := do
  let threshold ← resolveLevel env
  return {
    threshold
    bindings := [("env".toList, .string env.name), ("service".toList, .string service)]
    writesRecords :=
      !onTerminal || env.name == "production".toList || env.name == "test".toList }

/-- Names that cannot be bound because they stand for the settings of a logger. -/
def reserved : List Text :=
  ["level".toList, "serializers".toList, "formatters".toList, "customLevels".toList]

/-- Names that are written to records but are not shown among the bindings of a logger. -/
def hidden : List Text := ["pid".toList, "hostname".toList]

/-- What a logger can bind of these values, as it is written. -/
def bindable? (bindings : Fields) : Option Fields :=
  (bindings.filter fun b => !reserved.contains b.1).mapM fun b =>
    (b.2.loggedAs? b.1).map fun v => (b.1, v)

/-- A logger that writes these bindings too, unless they break its records. Where a name does not
stand for itself in a record, the bindings are what is read back from one. -/
def child? (logger : Logger) (bindings : Fields) : Option Logger := do
  let bound ← bindable? bindings
  if bound.all fun b => isOrdinary b.1 && JsonText.isPlain b.1 then
    return { logger with bindings := ofAssignments (logger.bindings ++ bound) }
  else
    let written := JsonText.ofEntries (← rawEntries? (listed bound))
    let bound ← fieldsOfJson? written
    return { logger with
      bindings := ofAssignments (logger.bindings ++ bound)
      writesRecords := logger.writesRecords && !written.contains '\n' }

/-- The bindings that a logger shows. -/
def shownBindings (logger : Logger) : Fields := logger.bindings.filter fun b => !hidden.contains b.1

/-- Whether a message of this level becomes a record. -/
def writes (logger : Logger) (level : Level) : Bool :=
  logger.threshold.admits level && logger.writesRecords

/-- When something was logged. -/
def time : Text × Value := ("time".toList, .string "ISO".toList)

/-- What stands in front of the values logged. -/
def opening (logger : Logger) (level : Level) : Fields :=
  [("level".toList, .string level.name), time] ++ logger.bindings

/-- What stands behind the values logged. -/
def closing (message : Text) : Fields := [("msg".toList, .string message)]

/-- A record as it is kept: with the fixed word for its time, and its error without a trace. -/
def kept (record : Fields) : Fields :=
  (assign time.1 time.2 record).map fun f => (f.1, f.2.recordedAs f.1)

/-- The record of values under ordinary names. -/
def record (logger : Logger) (level : Level) (logged : Fields) (message : Text) : Fields :=
  kept (ofAssignments (logger.opening level ++ logged ++ closing message))

/-- The records of a message: one at most, unless values are written as bare text, which can end a
record or break it. There is none where something logged cannot be described. -/
def records (logger : Logger) (level : Level) (fields : Details) (message : Text) : List Fields :=
  if logger.writes level then
    match fields.logged? with
    | none => []
    | some logged =>
      if logged.all fun f => isOrdinary f.1 then [logger.record level logged message]
      else
        match spelledEntries? (listed logged) with
        | none => []
        | some entries =>
          (recordsIn (JsonText.ofEntries
            (plainEntries (logger.opening level) ++ entries ++ plainEntries (closing message)))).map
              kept
  else []

/-- The records of an event. -/
def eventRecords (logger : Logger) (e : Event) : List Fields :=
  match logger.child? e.bindings with
  | none => []
  | some bound => bound.records e.level e.fields e.message

/-- The bindings of an event are taken as they are. -/
theorem child?_event (logger : Logger) (e : Event) :
    logger.child? e.bindings =
      some { logger with bindings := ofAssignments (logger.bindings ++ e.bindings) } := by
  have file (fileName : Text) : logger.child? [("file".toList, .string fileName)] =
      some { logger with
        bindings := ofAssignments (logger.bindings ++ [("file".toList, .string fileName)]) } := rfl
  cases e with
  | copiedUnchanged fileName inputPath => exact file fileName
  | nodesReshaped fileName fragmentCount => exact file fileName
  | _ => rfl

theorem records_of_isOrdinary {logger : Logger} {level : Level} {fields : Details} (message : Text)
    (h : ∀ logged, fields.logged? = some logged → ∀ f ∈ logged, isOrdinary f.1) :
    logger.records level fields message =
      if logger.writes level then
        (fields.logged?.map fun logged => logger.record level logged message).toList
      else [] := by
  unfold records
  cases hf : fields.logged? with
  | none => rfl
  | some logged =>
    have hall : logged.all fun f => isOrdinary f.1 := List.all_eq_true.mpr (h logged hf)
    simp only [hall, if_true, Option.map_some, Option.toList_some]

/-- Of all events only a failure may hold something that cannot be described. -/
theorem logged?_migrationFailed (cause : Raised) :
    Details.logged? (Event.migrationFailed cause).fields =
      cause.logged?.map fun v => [("err".toList, v)] := by
  unfold Details.logged? Event.fields
  simp only [List.mapM_cons, List.mapM_nil, Detail.loggedAs?, Detail.toValue?]
  cases cause.logged? <;> rfl

/-- The values of an event are written under ordinary names. -/
theorem isOrdinary_event (e : Event) : ∀ logged, Details.logged? e.fields = some logged →
    ∀ f ∈ logged, isOrdinary f.1 := by
  have h : (Details.logged? e.fields).all fun logged => logged.all fun f => isOrdinary f.1 := by
    cases e with
    | migrationFailed cause =>
      rw [logged?_migrationFailed]
      cases cause.logged? <;> rfl
    | _ => rfl
  intro logged hlogged
  rw [hlogged] at h
  exact List.all_eq_true.mp h

/-- An event has one record or none. -/
theorem eventRecords_eq (logger : Logger) (e : Event) :
    logger.eventRecords e =
      if logger.writes e.level then
        ((Details.logged? e.fields).map fun logged =>
          { logger with bindings := ofAssignments (logger.bindings ++ e.bindings) }.record e.level
            logged e.message).toList
      else [] := by
  rw [eventRecords, child?_event]
  exact records_of_isOrdinary e.message (isOrdinary_event e)

end Logger

/-- A record as one line of JSON. -/
def recordLine (record : Fields) : Text := (Value.object record).json

end NodeReshape
