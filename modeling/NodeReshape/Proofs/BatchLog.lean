import NodeReshape.Proofs.BatchProgress

/-!
# The log of a batch

The listed entries have their turns one after another. An entry that is passed over is logged, and a
file is logged between the reading and the writing. So behind its first event the log holds one
event for each entry that had its turn, save a file that could not be read, and the number of events
tells at which entry a batch has ended.
-/
namespace NodeReshape

/-- The event of the listing: it is bound to no file and gives the number of entries. -/
structure StartLogged (c : Config) (count : ℕ) (e : Event) : Prop where
  level : e.level = .debug
  message : e.message = "starting batch".toList
  bindings : e.bindings = []
  fields : e.fields = [("inputDir".toList, .text c.inputDir), ("outputDir".toList, .text c.outputDir),
    ("extension".toList, .text c.extension), ("entryCount".toList, .count count)]

/-- The event of an entry that is passed over: it is bound to no file and names the entry. -/
structure SkipLogged (name : Text) (e : Event) : Prop where
  level : e.level = .debug
  message : e.message = "skipping entry".toList
  bindings : e.bindings = []
  fields : e.fields = [("entry".toList, .text name)]

/-- The event of a file in which so many nodes were found: it is bound to the file, warns of a file
without nodes, and otherwise gives their number. -/
structure FileLogged (name inputPath : Text) (count : ℕ) (e : Event) : Prop where
  bindings : e.bindings = [("file".toList, .string name)]
  warning : e.level = .warn ↔ count = 0
  unchanged : count = 0 → e.message = "no node fragments found; copying unchanged".toList ∧
    e.fields = [("inputPath".toList, .text inputPath)]
  reshaped : count ≠ 0 → e.level = .debug ∧ e.message = "rewrote node fragments".toList ∧
    e.fields = [("fragmentCount".toList, .count count)]

theorem fileLogged_reshapingEvent (name inputPath : Text) (fragments : List Fragment) :
    FileLogged name inputPath fragments.length (reshapingEvent name inputPath fragments) := by
  unfold reshapingEvent
  split
  · rename_i h
    subst h
    exact ⟨rfl, by simp [Event.level], fun _ => ⟨rfl, rfl⟩, fun h => absurd rfl h⟩
  · rename_i h
    have hcount : fragments.length ≠ 0 := by simpa using h
    exact ⟨rfl, by simp [Event.level, h], fun h => absurd h hcount, fun _ => ⟨rfl, rfl, rfl⟩⟩

/-- The event of the entry when the disk is like this at its turn. A file counts with the nodes in
what is read by its path. -/
inductive EntryLogged (c : Config) (d : Disk) (entry : Text × Entry) (e : Event) : Prop
  | skipped (passed : ¬ isEligible entry.2.kind entry.1 c.extension = true)
    (logged : SkipLogged entry.1 e) : EntryLogged c d entry e
  | file (content : Bytes) (eligible : isEligible entry.2.kind entry.1 c.extension = true)
    (read : d.read (Path.join c.inputDir entry.1) = .ok content)
    (logged : FileLogged entry.1 (Path.join c.inputDir entry.1)
      (findFragments (Utf8.decode content)).length e) : EntryLogged c d entry e

/-- The event tells of the file what its result tells. -/
def FileResult.LoggedBy (file : FileResult) (e : Event) : Prop :=
  FileLogged file.fileName file.inputPath file.fragmentCount e

/-- What ends a batch at a file that has its turn, and the number of events of this file by then. -/
inductive StopsAt (c : Config) (reporter : Option Reporter) (s : Session) (name : Text) :
    ℕ → Raised → Prop
  | unread (fault : AccessFault) (read : s.disk.read (Path.join c.inputDir name) = .error fault) :
    StopsAt c reporter s name 0 (.file .fileRead (Path.join c.inputDir name) fault.raised)
  | unwritten (content : Bytes) (fault : AccessFault)
    (read : s.disk.read (Path.join c.inputDir name) = .ok content)
    (write : s.disk.write (Path.join c.outputDir name) (reshapedBytes content) = .error fault) :
    StopsAt c reporter s name 1 (.file .fileWrite (Path.join c.outputDir name) fault.raised)
  | rejected (content : Bytes) (d : Disk) (r : Reporter) (raised : Raised)
    (read : s.disk.read (Path.join c.inputDir name) = .ok content)
    (write : s.disk.write (Path.join c.outputDir name) (reshapedBytes content) = .ok d)
    (present : reporter = some r)
    (objection : r.objection s.notices (.fileTransformed name) = some raised) :
    StopsAt c reporter s name 1 raised

theorem StopsAt.own_le_one {c : Config} {reporter : Option Reporter} {s : Session} {name : Text}
    {own : ℕ} {raised : Raised} (h : StopsAt c reporter s name own raised) : own ≤ 1 := by
  cases h with
  | unread => exact Nat.zero_le 1
  | unwritten => exact Nat.le_refl 1
  | rejected => exact Nat.le_refl 1

/-- The session when the entry behind the first `k` has its turn. -/
def atTurn (c : Config) (reporter : Option Reporter) (entries : List (Text × Entry)) (s : Session)
    (k : ℕ) : Session :=
  (migrateEntries c reporter (entries.take k) s).1

/-- The entries with an event each, and the results of those that are files. -/
structure AllLogged (c : Config) (entries : List (Text × Entry)) (logged : List Event)
    (results : List FileResult) : Prop where
  each : logged.length = entries.length
  files : List.Forall₂ FileResult.LoggedBy results (logged.filter fun e => !e.bindings.isEmpty)
  total : entries.countP (fun e => !isEligible e.2.kind e.1 c.extension) + results.length =
    entries.length

/-- How far the entries are logged when a pass over them ends: all of them, or those in front of the
one that ends it and perhaps this one. -/
inductive LogEnd (c : Config) (reporter : Option Reporter) (entries : List (Text × Entry))
    (s : Session) (logged : List Event) : Except Raised (List FileResult) → Prop
  | finished (results : List FileResult) (all : AllLogged c entries logged results) :
    LogEnd c reporter entries s logged (.ok results)
  | stopped (k own : ℕ) (entry : Text × Entry) (earlier : List FileResult) (raised : Raised)
    (next : entries[k]? = some entry)
    (eligible : isEligible entry.2.kind entry.1 c.extension = true)
    (passed : (migrateEntries c reporter (entries.take k) s).2 = .ok earlier)
    (stops : StopsAt c reporter (atTurn c reporter entries s k) entry.1 own raised)
    (length : logged.length = k + own) :
    LogEnd c reporter entries s logged (.error raised)

section Pass

variable {c : Config} {reporter : Option Reporter} {s s' : Session} {entry : Text × Entry}
  {e : Event} {results : List FileResult}

/-- The batch goes on behind an entry, which was logged with this event. -/
structure Turn (c : Config) (reporter : Option Reporter) (s : Session) (entry : Text × Entry)
    (e : Event) (results : List FileResult) (s' : Session) : Prop where
  events : s'.events = s.events ++ [e]
  logged : EntryLogged c s.disk entry e
  all : AllLogged c [entry] [e] results
  goesOn : ∀ rest, migrateEntries c reporter (entry :: rest) s =
    ((migrateEntries c reporter rest s').1,
      (migrateEntries c reporter rest s').2.map (results ++ ·))

/-- The batch ends at a file, which was logged with these events. -/
structure LastTurn (c : Config) (reporter : Option Reporter) (s : Session) (entry : Text × Entry)
    (logged : List Event) (raised : Raised) (s' : Session) : Prop where
  events : s'.events = s.events ++ logged
  eligible : isEligible entry.2.kind entry.1 c.extension = true
  each : ∀ e ∈ logged, EntryLogged c s.disk entry e
  stops : StopsAt c reporter s entry.1 logged.length raised
  ends : ∀ rest, migrateEntries c reporter (entry :: rest) s = (s', .error raised)

theorem Turn.skipped (h : ¬ isEligible entry.2.kind entry.1 c.extension = true) :
    Turn c reporter s entry (.entrySkipped entry.1) [] (s.log (.entrySkipped entry.1)) where
  events := rfl
  logged := .skipped h ⟨rfl, rfl, rfl, rfl⟩
  all := ⟨rfl, .nil, by simp [h]⟩
  goesOn rest := by
    rw [migrateEntries, if_neg h]
    rcases migrateEntries c reporter rest (s.log (.entrySkipped entry.1)) with ⟨_, _ | _⟩ <;> rfl

/-- A file that is migrated is told to the reporter, who may end the batch there. -/
theorem turn_of_migrated (hn : Path.IsName entry.1)
    (h : isEligible entry.2.kind entry.1 c.extension = true) {file : FileResult}
    (hm : migrateFile s (Path.join c.inputDir entry.1) (Path.join c.outputDir entry.1) =
      (s', .ok file)) :
    (∃ e results s', Turn c reporter s entry e results s') ∨
      ∃ logged raised s', LastTurn c reporter s entry logged raised s' := by
  obtain ⟨content, hmigrates⟩ := exists_migratesFile hm
  have hevents := hmigrates.events
  have hfile := hmigrates.file_eq
  rw [Path.base_join c.inputDir hn] at hevents hfile
  have hevent := fileLogged_reshapingEvent entry.1 (Path.join c.inputDir entry.1)
    (findFragments (Utf8.decode content))
  have hlogged := EntryLogged.file content h hmigrates.read hevent
  let after : Session := { s' with notices := s'.notices ++ told reporter [(entry.1, content)] }
  rcases report_cases s' reporter (entry.1, content) with hr | ⟨r, raised, hsome, ho, hr⟩
  · refine .inl ⟨_, [file], after, hevents, hlogged, ⟨rfl, ?_, by simp [h]⟩, fun rest => ?_⟩
    · rw [List.filter_cons_of_pos (by simp [hevent.bindings]), hfile]
      exact .cons hevent .nil
    · rw [migrateEntries, if_pos h, hm]
      dsimp only
      rw [hr]
      rfl
  · rw [hmigrates.notices] at ho
    refine .inr ⟨[_], raised, after, hevents, h, by simpa using hlogged,
      .rejected content s'.disk r raised hmigrates.read hmigrates.written hsome ho, fun rest => ?_⟩
    rw [migrateEntries, if_pos h, hm]
    dsimp only
    rw [hr]

theorem turn_of_eligible (hn : Path.IsName entry.1)
    (h : isEligible entry.2.kind entry.1 c.extension = true) :
    (∃ e results s', Turn c reporter s entry e results s') ∨
      ∃ logged raised s', LastTurn c reporter s entry logged raised s' := by
  rcases migrateFile_outcomes s (Path.join c.inputDir entry.1) (Path.join c.outputDir entry.1) with
    ⟨fault, hread, hm⟩ | ⟨content, hread, ⟨fault, hwrite, hm⟩ | ⟨d, -, hm⟩⟩
  · refine .inr ⟨[], _, s, (List.append_nil _).symm, h, by simp, .unread fault hread, fun rest => ?_⟩
    rw [migrateEntries, if_pos h, hm]
  · rw [Path.base_join c.inputDir hn] at hm
    have hlogged := EntryLogged.file content h hread (fileLogged_reshapingEvent ..)
    refine .inr ⟨[_], _, s.log _, rfl, h, by simpa using hlogged,
      .unwritten content fault hread hwrite, fun rest => ?_⟩
    rw [migrateEntries, if_pos h, hm]
  · exact turn_of_migrated hn h hm

/-- Every entry has its turn, and the batch goes on or ends there. -/
theorem turn_cases (c : Config) (reporter : Option Reporter) (s : Session)
    (hn : Path.IsName entry.1) :
    (∃ e results s', Turn c reporter s entry e results s') ∨
      ∃ logged raised s', LastTurn c reporter s entry logged raised s' := by
  by_cases h : isEligible entry.2.kind entry.1 c.extension = true
  · exact turn_of_eligible hn h
  · exact .inl ⟨_, _, _, .skipped h⟩

theorem AllLogged.append {entries entries' : List (Text × Entry)} {logged logged' : List Event}
    {results results' : List FileResult} (h : AllLogged c entries logged results)
    (h' : AllLogged c entries' logged' results') :
    AllLogged c (entries ++ entries') (logged ++ logged') (results ++ results') where
  each := by rw [List.length_append, List.length_append, h.each, h'.each]
  files := by
    rw [List.filter_append]
    exact List.rel_append h.files h'.files
  total := by
    have ht := h.total
    have ht' := h'.total
    rw [List.countP_append, List.length_append, List.length_append]
    omega

theorem Turn.atTurn_succ (h : Turn c reporter s entry e results s') (rest : List (Text × Entry))
    (k : ℕ) : atTurn c reporter (entry :: rest) s (k + 1) = atTurn c reporter rest s' k := by
  rw [atTurn, List.take_succ_cons, h.goesOn, atTurn]

theorem Turn.logEnd (h : Turn c reporter s entry e results s') {rest : List (Text × Entry)}
    {logged : List Event} {r : Except Raised (List FileResult)}
    (hrest : LogEnd c reporter rest s' logged r) :
    LogEnd c reporter (entry :: rest) s (e :: logged) (r.map (results ++ ·)) := by
  cases hrest with
  | finished others all => exact .finished _ (h.all.append all)
  | stopped k own next earlier raised hnext eligible passed stops length =>
    refine .stopped (k + 1) own next (results ++ earlier) raised hnext eligible ?_ ?_ ?_
    · rw [List.take_succ_cons, h.goesOn, passed]
      rfl
    · rw [h.atTurn_succ]
      exact stops
    · rw [List.length_cons, length]
      omega

theorem LastTurn.logEnd {logged : List Event} {raised : Raised}
    (h : LastTurn c reporter s entry logged raised s') (rest : List (Text × Entry)) :
    LogEnd c reporter (entry :: rest) s logged (.error raised) :=
  .stopped 0 logged.length entry [] raised rfl h.eligible rfl h.stops (Nat.zero_add _).symm

end Pass

/-- A pass over entries appends an event for each entry that has its turn. -/
theorem migrateEntries_logged (c : Config) (reporter : Option Reporter)
    (entries : List (Text × Entry)) (s : Session) (hn : ∀ e ∈ entries, Path.IsName e.1) :
    ∃ logged, (migrateEntries c reporter entries s).1.events = s.events ++ logged ∧
      (∀ (k : ℕ) entry e, entries[k]? = some entry → logged[k]? = some e →
        EntryLogged c (atTurn c reporter entries s k).disk entry e) ∧
      LogEnd c reporter entries s logged (migrateEntries c reporter entries s).2 := by
  induction entries generalizing s with
  | nil => exact ⟨[], (List.append_nil _).symm, by simp, .finished [] ⟨rfl, .nil, rfl⟩⟩
  | cons entry rest ih =>
    have hrest : ∀ e ∈ rest, Path.IsName e.1 := fun e he => hn e (List.mem_cons_of_mem _ he)
    rcases turn_cases c reporter s (hn entry List.mem_cons_self) with
      ⟨e, results, s', h⟩ | ⟨logged, raised, s', h⟩
    · obtain ⟨logged, hevents, heach, hend⟩ := ih s' hrest
      rw [h.goesOn]
      refine ⟨e :: logged, ?_, fun k listed e' hk he' => ?_, h.logEnd hend⟩
      · rw [hevents, h.events, List.append_assoc]
        rfl
      · cases k with
        | zero =>
          cases hk
          cases he'
          exact h.logged
        | succ k =>
          rw [h.atTurn_succ]
          exact heach k listed e' hk he'
    · rw [h.ends]
      refine ⟨logged, h.events, fun k listed e' hk he' => ?_, h.logEnd rest⟩
      have hfew := h.stops.own_le_one
      cases k with
      | zero =>
        cases hk
        exact h.each e' (List.mem_of_getElem? he')
      | succ k =>
        have hlong := (List.getElem?_eq_some_iff.mp he').1
        omega

/-- A batch that lists its entries logs their number first, and then each entry that has its turn, in
the order of the listing. When the batch succeeds, these are all entries, and the files among them
are its results. Otherwise there is an entry that ends it, which is logged itself unless it could not
be read. -/
theorem migrateDirectory_logs_turns (c : Config) (reporter : Option Reporter) (s : Session)
    (entries : List (Text × Entry)) (hw : s.disk.WellFormed)
    (hmade : (s.disk.ensureDirectory c.outputDir).2 = .ok ())
    (hlist : (s.disk.ensureDirectory c.outputDir).1.list c.inputDir = .ok entries) :
    let r := migrateDirectory c reporter s
    let start := atListing c s entries
    ∃ first logged, r.1.events = s.events ++ first :: logged ∧ StartLogged c entries.length first ∧
      (∀ (k : ℕ) entry e, entries[k]? = some entry → logged[k]? = some e →
        EntryLogged c (atTurn c reporter entries start k).disk entry e) ∧
      match r.2 with
      | .ok result => (first :: logged).length = 1 + entries.length ∧
        AllLogged c entries logged result.files
      | .error raised => ∃ k own entry earlier, entries[k]? = some entry ∧
        isEligible entry.2.kind entry.1 c.extension = true ∧
        (migrateEntries c reporter (entries.take k) start).2 = .ok earlier ∧
        StopsAt c reporter (atTurn c reporter entries start k) entry.1 own raised ∧
        (first :: logged).length = (k + 1) + own := by
  intro r start
  have hnames := ((Disk.ensureDirectory_grows hw c.outputDir).1.list_names hlist).1
  obtain ⟨logged, hevents, heach, hend⟩ := migrateEntries_logged c reporter entries start
    fun e he => (hnames e he).toIsName
  have hr : r = ((migrateEntries c reporter entries start).1,
      (migrateEntries c reporter entries start).2.map fun files =>
        ⟨c.inputDir, c.outputDir, files⟩) := by
    rcases migrateDirectory_cases c reporter s with
      ⟨fault, hfault, -⟩ | ⟨fault, -, hfault, -⟩ | ⟨entries', -, hlist', he⟩
    · cases hfault.symm.trans hmade
    · cases hfault.symm.trans hlist
    · obtain rfl : entries = entries' := Except.ok.inj (hlist.symm.trans hlist')
      exact he
  refine ⟨.batchStarted c entries.length, logged, ?_, ⟨rfl, rfl, rfl, rfl⟩, heach, ?_⟩
  · rw [hr, hevents]
    exact List.append_assoc _ _ _
  · rw [hr]
    generalize (migrateEntries c reporter entries start).2 = files at hend
    cases hend with
    | finished results all => exact ⟨by rw [List.length_cons, all.each, Nat.add_comm], all⟩
    | stopped k own entry earlier raised next eligible passed stops length =>
      refine ⟨k, own, entry, earlier, next, eligible, passed, stops, ?_⟩
      rw [List.length_cons, length]
      omega

/-- Beside the graphs there is another file of another kind, and a directory stands where the second
graph would be written. -/
def blockedGraph : Disk :=
  ((graphs.put ["in".toList, "a.txt".toList] (.file [])).put ["new".toList] .directory).put
    ["new".toList, "b.ron".toList] .directory

/-- The directory of the graphs as input, and the one beside it as output. -/
def besides : Config := ⟨"in".toList, "new".toList, ".ron".toList⟩

/-- The third entry ends the batch, and is the last of the four events. -/
theorem migrateDirectory_logs_blocked :
    let s := Session.start blockedGraph
    let r := migrateDirectory besides (some .console) s
    ∃ entries raised, s.disk.WellFormed ∧
      (s.disk.ensureDirectory besides.outputDir).2 = .ok () ∧
      (s.disk.ensureDirectory besides.outputDir).1.list besides.inputDir = .ok entries ∧
      entries.length = 4 ∧ r.2 = .error raised ∧ r.1.events.length = 4 ∧
      ∃ first logged, r.1.events = s.events ++ first :: logged ∧
        StartLogged besides entries.length first ∧ ∃ k own entry earlier,
          entries[k]? = some entry ∧ isEligible entry.2.kind entry.1 besides.extension = true ∧
          (migrateEntries besides (some .console) (entries.take k) (atListing besides s entries)).2 =
            .ok earlier ∧
          StopsAt besides (some .console)
            (atTurn besides (some .console) entries (atListing besides s entries) k) entry.1 own
            raised ∧
          (first :: logged).length = (k + 1) + own := by
  intro s r
  have hw : blockedGraph.WellFormed := by decide +kernel
  have hmade : (s.disk.ensureDirectory besides.outputDir).2 = .ok () := by rfl
  let entries : List (Text × Entry) :=
    [("a.ron".toList, .file (Utf8.encode "(name: \"x\", ty: \"Clip\", inner: (1))".toList)),
      ("a.txt".toList, .file []), ("b.ron".toList, .file []), ("c.txt".toList, .file [])]
  have hlist : (s.disk.ensureDirectory besides.outputDir).1.list besides.inputDir = .ok entries := by
    rfl
  have hr : r.2 = .error (.file .fileWrite "new/b.ron".toList
      (AccessFault.refused .isDirectory .openFile "new/b.ron".toList).raised) := by rfl
  obtain ⟨first, logged, hevents, hfirst, -, hend⟩ :=
    migrateDirectory_logs_turns besides (some .console) s entries hw hmade hlist
  rw [show (migrateDirectory besides (some .console) s).2 = _ from hr] at hend
  exact ⟨entries, _, hw, hmade, hlist, rfl, hr, by rfl, first, logged, hevents, hfirst, hend⟩

end NodeReshape
