import NodeReshape.Proofs.InputPreservation
import NodeReshape.Proofs.LevelNames

/-!
# What the environment changes

A migration runs the same in every environment that asks for a level: it never looks at its logger.
Each event has one record at most, whatever the level, and the level decides whether it is written.
The name of the environment stands in each record and nowhere else. In an environment that asks for
no level nothing runs.
-/
namespace NodeReshape

/-- The record of an event in an environment of this name. There is none when what the event holds
cannot be described. -/
def Event.recordIn? (environment : Text) (e : Event) : Option Fields :=
  let bindings := [("env".toList, .string environment), ("service".toList, .string Logger.service)]
  (Details.logged? e.fields).map fun logged =>
    Logger.record ⟨.trace, ofAssignments (bindings ++ e.bindings), true⟩ e.level logged e.message

/-- The level that a record names. -/
def recordLevel? (record : Fields) : Option Level :=
  match lookup? "level".toList record with
  | some (.string t) => Level.ofName? t
  | _ => none

/-- The record names this level or a graver one. -/
def atLeast (l : Level) (record : Fields) : Bool :=
  (recordLevel? record).any fun found => l.rank ≤ found.rank

/-- The record as it would be in an environment of this name. -/
def withEnvironment (environment : Text) (record : Fields) : Fields :=
  assign "env".toList (.string environment) record

section Records

variable (e : Event) (environment : Text)

/-- Nothing in a record but the name of the environment depends on it. -/
theorem recordIn?_eq : e.recordIn? environment = (e.recordIn? []).map fun record =>
    ("level".toList, .string e.level.name) :: Logger.time :: ("env".toList, .string environment) ::
      record.drop 3 := by
  cases e with
  | migrationFailed cause =>
    unfold Event.recordIn?
    rw [Logger.logged?_migrationFailed]
    cases cause.logged? <;> rfl
  | _ => rfl

theorem lookup?_env_recordIn? {record : Fields} (h : e.recordIn? environment = some record) :
    lookup? "env".toList record = some (.string environment) := by
  rw [recordIn?_eq] at h
  obtain ⟨behind, -, rfl⟩ := Option.map_eq_some_iff.mp h
  rfl

theorem map_withEnvironment_recordIn? (other : Text) :
    (e.recordIn? other).map (withEnvironment environment) = e.recordIn? environment := by
  rw [recordIn?_eq, recordIn?_eq e environment, Option.map_map]
  rfl

theorem Level.admits_event (l : Level) : l.admits e.level = decide (l.rank ≤ e.level.rank) := by
  cases e <;> rfl

theorem atLeast_recordIn? {record : Fields} (h : e.recordIn? environment = some record)
    (l : Level) : atLeast l record = l.admits e.level := by
  rw [recordIn?_eq] at h
  obtain ⟨behind, -, rfl⟩ := Option.map_eq_some_iff.mp h
  have hlevel : recordLevel? (("level".toList, .string e.level.name) :: Logger.time ::
      ("env".toList, .string environment) :: behind.drop 3) = some e.level :=
    Level.ofName?_name e.level
  rw [atLeast, hlevel, Level.admits_event]
  rfl

/-- A record is grave enough when its event is. -/
theorem filter_atLeast_recordIn? (l : Level) : (e.recordIn? environment).filter (atLeast l) =
    if l.admits e.level then e.recordIn? environment else none := by
  cases h : e.recordIn? environment with
  | none => simp
  | some record => rw [Option.filter_some, atLeast_recordIn? e environment h]

theorem Level.trace_admits : Level.trace.admits e.level = true := by
  cases e <;> rfl

end Records

section Process

variable {env : Environment} {l : Level}

theorem forEnvironment_of_asks (h : env.Asks l) : Logger.forEnvironment env false = .ok
    ⟨l, [("env".toList, .string env.name), ("service".toList, .string Logger.service)], true⟩ := by
  have hlevel : resolveLevel env = .ok l := by
    rw [resolveLevel, Environment.threshold_eq_ok_iff.mpr h]
  rw [Logger.forEnvironment, hlevel]
  rfl

theorem flatMap_eventRecords (l : Level) (environment : Text) (events : List Event) :
    events.flatMap (Logger.eventRecords ⟨l, [("env".toList, .string environment),
      ("service".toList, .string Logger.service)], true⟩) =
      (events.filter fun e => l.admits e.level).filterMap (Event.recordIn? environment) := by
  induction events with
  | nil => rfl
  | cons e rest ih =>
    rw [List.flatMap_cons, ih, Logger.eventRecords_eq, List.filter_cons]
    unfold Logger.writes
    rw [Bool.and_true]
    split
    · rw [List.filterMap_cons]
      unfold Event.recordIn?
      cases Details.logged? e.fields <;> rfl
    · rfl

/-- A process in an environment that asks for a level shows the one migration of its disk. -/
theorem runProcess_of_asks (h : env.Asks l) (d : Disk) :
    let r := run .absent .console (.start d)
    runProcess env d = ⟨r.1.disk, r.2, r.1.notices.map Notice.line,
      (r.1.events.filter fun e => l.admits e.level).filterMap (Event.recordIn? env.name)⟩ := by
  rw [runProcess, forEnvironment_of_asks h]
  dsimp only
  rw [Reporter.lines_console, flatMap_eventRecords]

theorem runProcess_of_not_asks (h : ∀ l, ¬ env.Asks l) (d : Disk) :
    runProcess env d = ⟨d, 1, [], []⟩ := by
  cases ht : env.threshold with
  | ok l => exact absurd (Environment.threshold_eq_ok_iff.mp ht) (h l)
  | error asked =>
    rw [runProcess, Logger.forEnvironment, resolveLevel, ht]
    rfl

end Process

/-- Two environments that ask for a level have the same exit code, the same lines and the same disk.
The records are those of the level `trace`, as far as they are grave enough, with the name of the
environment in each. Where an environment asks for no level, the process fails and does nothing. -/
theorem runProcess_verbosity (d : Disk) :
    (∀ env env' l l', Environment.Asks env l → Environment.Asks env' l' →
      (runProcess env d).disk = (runProcess env' d).disk ∧
      (runProcess env d).exitCode = (runProcess env' d).exitCode ∧
      (runProcess env d).lines = (runProcess env' d).lines ∧
      (∀ record ∈ (runProcess env d).records,
        lookup? "env".toList record = some (.string env.name)) ∧
      (l' = .trace → (runProcess env d).records =
        ((runProcess env' d).records.filter (atLeast l)).map (withEnvironment env.name))) ∧
    ∀ env, (∀ l, ¬ Environment.Asks env l) → runProcess env d = ⟨d, 1, [], []⟩ := by
  constructor
  · intro env env' l l' h h'
    rw [runProcess_of_asks h, runProcess_of_asks h']
    refine ⟨rfl, rfl, rfl, ?_, ?_⟩
    · intro record hrecord
      obtain ⟨e, -, he⟩ := List.mem_filterMap.mp hrecord
      exact lookup?_env_recordIn? e env.name he
    · rintro rfl
      dsimp only
      simp only [Level.trace_admits, List.filter_true, List.filter_filterMap, List.map_filterMap,
        filter_atLeast_recordIn?, List.filterMap_filter]
      congr 1
      funext e
      split
      · rw [map_withEnvironment_recordIn?]
      · rfl
  · intro env h
    exact runProcess_of_not_asks h d

/-- The default input directory with an old graph and a file without nodes. -/
def oldGraphs : Disk :=
  (((Disk.mk .empty []).put ["animation_graphs_old".toList] .directory).put
    ["animation_graphs_old".toList, "a.ron".toList]
    (.file (Utf8.encode "(name: \"x\", ty: \"Clip\", inner: (1))".toList))).put
    ["animation_graphs_old".toList, "b.ron".toList] (.file [])

/-- Of the four records of the migration one is a warning. -/
theorem runProcess_verbosity_of_warn :
    let warn : Environment := ⟨some "Warn".toList, none⟩
    let trace : Environment := ⟨some "TRACE".toList, some "production".toList⟩
    let unknown : Environment := ⟨some "verbose".toList, none⟩
    warn.Asks .warn ∧ trace.Asks .trace ∧ (∀ l, ¬ unknown.Asks l) ∧
    (runProcess trace oldGraphs).records.length = 4 ∧
    (runProcess warn oldGraphs).records.length = 1 ∧
    (runProcess warn oldGraphs).disk = (runProcess trace oldGraphs).disk ∧
    (runProcess warn oldGraphs).exitCode = (runProcess trace oldGraphs).exitCode ∧
    (runProcess warn oldGraphs).lines = (runProcess trace oldGraphs).lines ∧
    (runProcess warn oldGraphs).records = ((runProcess trace oldGraphs).records.filter
      (atLeast .warn)).map (withEnvironment "development".toList) ∧
    runProcess unknown oldGraphs = ⟨oldGraphs, 1, [], []⟩ := by
  intro warn trace unknown
  have hwarn : warn.Asks .warn := .named _ _ rfl (by decide)
  have htrace : trace.Asks .trace := .named _ _ rfl (by decide)
  have hunknown : ∀ l, ¬ unknown.Asks l := fun l h => by
    have herror : unknown.threshold = .error "verbose".toList := by decide +kernel
    rw [← Environment.threshold_eq_ok_iff, herror] at h
    simp at h
  obtain ⟨hsame, hfails⟩ := runProcess_verbosity oldGraphs
  obtain ⟨hdisk, hcode, hlines, -, hrecords⟩ := hsame warn trace .warn .trace hwarn htrace
  exact ⟨hwarn, htrace, hunknown, by decide +kernel, by decide +kernel, hdisk, hcode, hlines,
    hrecords rfl, hfails unknown hunknown⟩

end NodeReshape
