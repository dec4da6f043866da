import Mathlib.Data.List.Sort
import NodeReshape.Config
import NodeReshape.Proofs.OwnKeys

/-!
# The faults of settings

What makes a fault is said here of the assignments as they were given, one kind after another. A
source is refused with exactly its faults, in order, and settings that were accepted are accepted
again as they are.
-/
namespace NodeReshape
namespace Config

/-- The keys and values assigned one after another, when the source is nothing or an object. -/
inductive Source.Assigns : Source → List (Text × Option Value) → Prop
  | absent : Assigns .absent []
  | object (fields : Fields) :
    Assigns (.value (.object fields)) (fields.map fun f => (f.1, some f.2))
  | entries (assignments : List (Text × Option Value)) : Assigns (.entries assignments) assignments

theorem Source.Assigns.fields_eq {source : Source} {a : List (Text × Option Value)}
    (h : source.Assigns a) : source.fields = .ok (ofAssignments a) := by
  cases h <;> rfl

theorem Source.assigns_or (source : Source) :
    (∃ a, source.Assigns a) ∨ ∃ v, source = .value v ∧ ∀ fields, v ≠ .object fields := by
  cases source with
  | absent => exact .inl ⟨_, .absent⟩
  | entries a => exact .inl ⟨a, .entries a⟩
  | value v =>
    cases v with
    | object fields => exact .inl ⟨_, .object fields⟩
    | _ => exact .inr ⟨_, rfl, by simp⟩

/-- What a setting has to be: a directory is not empty, a suffix is a dot and more, without slashes
of either kind. -/
def Suits : Field → Text → Prop
  | .inputDir, t => t ≠ []
  | .outputDir, t => t ≠ []
  | .extension, t => ∃ body, t = '.' :: body ∧ body ≠ [] ∧ '/' ∉ body ∧ '\\' ∉ body

theorem accepts_iff (field : Field) (t : Text) : field.accepts t = true ↔ Suits field t := by
  cases field with
  | inputDir => simp [Field.accepts, Suits]
  | outputDir => simp [Field.accepts, Suits]
  | extension =>
    have hall : ∀ body : Text, (body.all fun c => c != '/' && c != '\\') = true ↔
        '/' ∉ body ∧ '\\' ∉ body := by
      intro body
      simp only [List.all_eq_true, Bool.and_eq_true, bne_iff_ne]
      constructor
      · exact fun h => ⟨fun hm => (h _ hm).1 rfl, fun hm => (h _ hm).2 rfl⟩
      · exact fun h c hc => ⟨fun e => h.1 (e ▸ hc), fun e => h.2 (e ▸ hc)⟩
    by_cases hshape : ∃ c rest, t = '.' :: c :: rest
    · obtain ⟨c, rest, rfl⟩ := hshape
      have hmeets := hall (c :: rest)
      simpa [Field.accepts, Suits] using hmeets
    · have hrefused : Field.extension.accepts t = false := by
        simp only [Field.accepts]
        split
        · exact absurd ⟨_, _, rfl⟩ hshape
        · rfl
      rw [hrefused]
      simp only [Bool.false_eq_true, false_iff]
      rintro ⟨body, rfl, hne, -⟩
      obtain ⟨c, rest, rfl⟩ := List.exists_cons_of_ne_nil hne
      exact hshape ⟨c, rest, rfl⟩

theorem suits_default (field : Field) : Suits field field.default :=
  (accepts_iff field _).mp (by cases field <;> rfl)

section Settings

variable {a : List (Text × Option Value)} {field : Field} {v : Value} {t : Text}

/-- The value is what the field was assigned last. -/
def SetTo (a : List (Text × Option Value)) (field : Field) (v : Value) : Prop :=
  LastAssigned a field.name (some v)

theorem given_eq_some_iff : given (ofAssignments a) field = some v ↔ SetTo a field v := by
  rw [given, SetTo, ← lookup?_ofAssignments_eq_some_iff, Option.join_eq_some_iff]

theorem given_eq_none_iff : given (ofAssignments a) field = none ↔ ∀ v, ¬ SetTo a field v := by
  simp only [Option.eq_none_iff_forall_ne_some, ne_eq, given_eq_some_iff]

theorem SetTo.unique {v' : Value} (h : SetTo a field v) (h' : SetTo a field v') : v = v' :=
  Option.some.inj ((given_eq_some_iff.mpr h).symm.trans (given_eq_some_iff.mpr h'))

/-- The text that a field is settled with: the one given, or the default of a field without a
value. -/
inductive Settles (a : List (Text × Option Value)) (field : Field) : Text → Prop
  | given {t : Text} (h : SetTo a field (.string t)) : Settles a field t
  | unset (h : ∀ v, ¬ SetTo a field v) : Settles a field field.default

theorem setting?_eq_some_iff : setting? (ofAssignments a) field = some t ↔ Settles a field t := by
  rw [setting?]
  constructor
  · intro h
    split at h
    · rename_i hnone
      obtain rfl := Option.some.inj h
      exact .unset (given_eq_none_iff.mp hnone)
    · rename_i v hv
      cases v with
      | string t' =>
        obtain rfl := Option.some.inj h
        exact .given (given_eq_some_iff.mp hv)
      | _ => simp [Value.string?] at h
  · rintro (h | h)
    · rw [given_eq_some_iff.mpr h]
      rfl
    · rw [given_eq_none_iff.mpr h]

/-- One setting of several. -/
def setting (c : Config) : Field → Text
  | .inputDir => c.inputDir
  | .outputDir => c.outputDir
  | .extension => c.extension

theorem Settles.unique {t' : Text} (h : Settles a field t) (h' : Settles a field t') : t = t' :=
  Option.some.inj ((setting?_eq_some_iff.mpr h).symm.trans (setting?_eq_some_iff.mpr h'))

theorem settings?_eq_some_iff {c : Config} :
    settings? (ofAssignments a) = some c ↔ ∀ field, Settles a field (c.setting field) := by
  simp only [← setting?_eq_some_iff]
  constructor
  · intro h
    simp only [settings?, Option.bind_eq_bind, Option.bind_eq_some_iff, Option.pure_def,
      Option.some.injEq] at h
    obtain ⟨i, hi, o, ho, e, he, rfl⟩ := h
    rintro (_ | _ | _)
    · exact hi
    · exact ho
    · exact he
  · intro h
    have hi := h .inputDir
    have ho := h .outputDir
    have he := h .extension
    simp [settings?, hi, ho, he, setting]

/-- The fault of one field. -/
inductive FieldFault (a : List (Text × Option Value)) (field : Field) : Issue → Prop
  | wrongType {v : Value} (h : SetTo a field v) (hv : ∀ t, v ≠ .string t) :
    FieldFault a field (.wrongType field v.typeName)
  | refused {t : Text} (h : SetTo a field (.string t)) (ht : ¬ Suits field t) :
    FieldFault a field (.refused field)

theorem fieldIssue?_eq_some_iff {i : Issue} :
    fieldIssue? (ofAssignments a) field = some i ↔ FieldFault a field i := by
  rw [fieldIssue?]
  constructor
  · intro h
    split at h
    · simp at h
    · rename_i t hv
      split_ifs at h with ht
      obtain rfl := Option.some.inj h
      exact .refused (given_eq_some_iff.mp hv) (mt (accepts_iff field t).mpr ht)
    · rename_i v hstring hv
      obtain rfl := Option.some.inj h
      exact .wrongType (given_eq_some_iff.mp hv) fun t e => hstring t (e ▸ rfl)
  · rintro (@⟨v, h, hv⟩ | @⟨t, h, ht⟩)
    · rw [given_eq_some_iff.mpr h]
      cases v with
      | string t => exact absurd rfl (hv t)
      | _ => rfl
    · rw [given_eq_some_iff.mpr h]
      exact if_neg (mt (accepts_iff field t).mp ht)

/-- The list of the keys that name no field, each of them once. -/
structure ListsUnknown (a : List (Text × Option Value)) (keys : List Text) : Prop where
  nodup : keys.Nodup
  mem_iff (k : Text) : k ∈ keys ↔ k ∈ a.map Prod.fst ∧ ∀ field : Field, field.name ≠ k
  inOrder : keys.Pairwise (ListedBefore (a.map Prod.fst))

theorem Field.mem_all (field : Field) : field ∈ Field.all := by
  cases field <;> decide

theorem listsUnknown_unknownKeys (a : List (Text × Option Value)) :
    ListsUnknown a (unknownKeys (ofAssignments a)) := by
  have hcame := keys_ofAssignments_pairwise a
  have hnodup : ((ofAssignments a).map Prod.fst).Nodup := hcame.imp fun hlt he => by
    rw [he] at hlt
    exact Nat.lt_irrefl _ hlt
  refine ⟨(ownKeys_perm _).nodup_iff.mpr (hnodup.filter _), fun k => ?_,
    ownKeys_pairwise (hcame.filter _)⟩
  have hall : (Field.all.all fun f => f.name ≠ k) = true ↔ ∀ field : Field, field.name ≠ k := by
    simp only [List.all_eq_true, decide_eq_true_eq]
    exact ⟨fun h field => h field field.mem_all, fun h field _ => h field⟩
  rw [unknownKeys, (ownKeys_perm _).mem_iff, List.mem_filter, mem_keys_ofAssignments, hall]

theorem ListsUnknown.unique {keys keys' : List Text} (h : ListsUnknown a keys)
    (h' : ListsUnknown a keys') : keys = keys' :=
  h.inOrder.eq_of_mem_iff h'.inOrder fun k => (h.mem_iff k).trans (h'.mem_iff k).symm

end Settings

section Faults

variable {wd : Text} {a : List (Text × Option Value)}

/-- The faults of a source. The directories are compared as soon as all settings are texts, whether
or not these are suitable. -/
inductive Fault (wd : Text) (a : List (Text × Option Value)) : Issue → Prop
  | field {field : Field} {i : Issue} (h : FieldFault a field i) : Fault wd a i
  | unknown {keys : List Text} (h : ListsUnknown a keys) (hne : keys ≠ []) :
    Fault wd a (.unknownKeys keys)
  | sameDirectory {c : Config} (hc : ∀ field, Settles a field (c.setting field))
    (h : Path.resolve wd c.inputDir = Path.resolve wd c.outputDir) : Fault wd a .sameDirectory

/-- The place of a fault among others: the fields in turn, then the unknown keys, then the
directories. -/
def Issue.place : Issue → ℕ
  | wrongType field _ => Field.all.idxOf field
  | refused field => Field.all.idxOf field
  | unknownKeys _ => Field.all.length
  | _ => Field.all.length + 1

/-- The list of all faults, at most one in each place. -/
structure FaultListing (wd : Text) (a : List (Text × Option Value)) (found : List Issue) : Prop where
  mem_iff (i : Issue) : i ∈ found ↔ Fault wd a i
  inOrder : found.Pairwise fun i j => i.place < j.place

theorem FieldFault.place_eq {field : Field} {i : Issue} (h : FieldFault a field i) :
    i.place = Field.all.idxOf field := by
  cases h <;> rfl

theorem mem_fieldIssues {i : Issue} :
    i ∈ Field.all.filterMap (fieldIssue? (ofAssignments a)) ↔ ∃ field, FieldFault a field i := by
  simp only [List.mem_filterMap, fieldIssue?_eq_some_iff, Field.mem_all, true_and]

theorem fieldIssues_pairwise (a : List (Text × Option Value)) :
    (Field.all.filterMap (fieldIssue? (ofAssignments a))).Pairwise fun i j => i.place < j.place := by
  have hall : Field.all.Pairwise fun f g => Field.all.idxOf f < Field.all.idxOf g := by decide
  refine List.pairwise_filterMap.mpr (hall.imp fun hlt i hi j hj => ?_)
  rwa [(fieldIssue?_eq_some_iff.mp hi).place_eq, (fieldIssue?_eq_some_iff.mp hj).place_eq]

theorem mem_issues {i : Issue} :
    i ∈ issues wd (ofAssignments a) ↔ (∃ field, FieldFault a field i) ∨
      (unknownKeys (ofAssignments a) ≠ [] ∧ i = .unknownKeys (unknownKeys (ofAssignments a))) ∨
      i = .sameDirectory ∧
        ∃ c, settings? (ofAssignments a) = some c ∧ sameDirectory wd c = true := by
  rw [issues, List.mem_append, List.mem_append, or_assoc, mem_fieldIssues]
  refine or_congr_right (or_congr ?_ ?_)
  · cases hkeys : unknownKeys (ofAssignments a) with
    | nil => simp
    | cons k rest => simp
  · cases hsettings : settings? (ofAssignments a) with
    | none => simp
    | some c => cases hsame : sameDirectory wd c <;> simp [hsame]

theorem issues_pairwise (wd : Text) (a : List (Text × Option Value)) :
    (issues wd (ofAssignments a)).Pairwise fun i j => i.place < j.place := by
  have hfields : ∀ i ∈ Field.all.filterMap (fieldIssue? (ofAssignments a)),
      i.place < Field.all.length := by
    intro i hi
    obtain ⟨field, hfault⟩ := mem_fieldIssues.mp hi
    rw [hfault.place_eq]
    exact List.idxOf_lt_length_of_mem field.mem_all
  have hbehind : ∀ l : List Issue,
      ((l.Pairwise fun i j => i.place < j.place) ∧ ∀ j ∈ l, Field.all.length ≤ j.place) →
      (Field.all.filterMap (fieldIssue? (ofAssignments a)) ++ l).Pairwise
        fun i j => i.place < j.place := by
    rintro l ⟨hl, hplace⟩
    refine List.pairwise_append.mpr ⟨fieldIssues_pairwise a, hl, fun i hi j hj => ?_⟩
    exact Nat.lt_of_lt_of_le (hfields i hi) (hplace j hj)
  rw [issues, List.append_assoc]
  -- Behind the fields there is at most one fault of either kind.
  refine hbehind _ ?_
  cases unknownKeys (ofAssignments a) <;> cases settings? (ofAssignments a) <;>
    simp [Issue.place] <;> split_ifs <;> simp

theorem faultListing_issues (wd : Text) (a : List (Text × Option Value)) :
    FaultListing wd a (issues wd (ofAssignments a)) := by
  have hunknown := listsUnknown_unknownKeys a
  refine ⟨fun i => mem_issues.trans ⟨?_, ?_⟩, issues_pairwise wd a⟩
  · rintro (⟨field, h⟩ | ⟨hne, rfl⟩ | ⟨rfl, c, hc, hsame⟩)
    · exact .field h
    · exact .unknown hunknown hne
    · exact .sameDirectory (settings?_eq_some_iff.mp hc) (by simpa [sameDirectory] using hsame)
  · rintro (h | ⟨h, hne⟩ | ⟨hc, hsame⟩)
    · exact .inl ⟨_, h⟩
    · rw [h.unique hunknown] at hne ⊢
      exact .inr (.inl ⟨hne, rfl⟩)
    · exact .inr (.inr ⟨rfl, _, settings?_eq_some_iff.mpr hc, by simpa [sameDirectory] using hsame⟩)

theorem FaultListing.unique {found found' : List Issue} (h : FaultListing wd a found)
    (h' : FaultListing wd a found') : found = found' := by
  have : Std.Asymm fun i j : Issue => i.place < j.place := ⟨fun _ _ => Nat.lt_asymm⟩
  exact h.inOrder.eq_of_mem_iff h'.inOrder fun i => (h.mem_iff i).trans (h'.mem_iff i).symm

/-- What comes of a source: the configuration, or an error that tells every fault. -/
inductive Outcome (wd : Text) : Source → Except Raised Config → Prop
  | notAnObject {v : Value} (hv : ∀ fields, v ≠ .object fields) :
    Outcome wd (.value v)
      (.error (.config ["(root): Expected object, received ".toList ++ v.typeName]))
  | refused {source : Source} {a : List (Text × Option Value)} {found : List Issue}
    (hs : source.Assigns a) (h : FaultListing wd a found) (hne : found ≠ []) :
    Outcome wd source (.error (.config (found.map Issue.text)))
  | accepted {source : Source} {a : List (Text × Option Value)} {c : Config}
    (hs : source.Assigns a) (h : ∀ i, ¬ Fault wd a i)
    (hc : ∀ field, Settles a field (c.setting field)) : Outcome wd source (.ok c)

theorem issues_eq_nil_iff :
    issues wd (ofAssignments a) = [] ↔ ∀ i, ¬ Fault wd a i := by
  simp only [List.eq_nil_iff_forall_not_mem, (faultListing_issues wd a).mem_iff]

theorem setting_cases (a : List (Text × Option Value)) (field : Field) :
    (∃ t, Settles a field t) ∨ ∃ i, FieldFault a field i := by
  cases hg : given (ofAssignments a) field with
  | none => exact .inl ⟨_, .unset (given_eq_none_iff.mp hg)⟩
  | some v =>
    have hv := given_eq_some_iff.mp hg
    by_cases ht : ∃ t, v = .string t
    · obtain ⟨t, rfl⟩ := ht
      exact .inl ⟨t, .given hv⟩
    · exact .inr ⟨_, .wrongType hv fun t e => ht ⟨t, e⟩⟩

/-- Without any fault all settings are texts. -/
theorem exists_settings (h : ∀ i, ¬ Fault wd a i) :
    ∃ c : Config, ∀ field, Settles a field (c.setting field) := by
  have hsettles : ∀ field, ∃ t, Settles a field t := fun field =>
    (setting_cases a field).resolve_right fun ⟨i, hi⟩ => h i (.field hi)
  obtain ⟨i, hi⟩ := hsettles .inputDir
  obtain ⟨o, ho⟩ := hsettles .outputDir
  obtain ⟨e, he⟩ := hsettles .extension
  refine ⟨⟨i, o, e⟩, ?_⟩
  rintro (_ | _ | _)
  · exact hi
  · exact ho
  · exact he

section Resolution

variable {source : Source} {c : Config}

theorem resolveConfig_of_faults (hs : source.Assigns a) (h : issues wd (ofAssignments a) ≠ []) :
    resolveConfig wd source = .error (issues wd (ofAssignments a)) := by
  rw [resolveConfig, hs.fields_eq]
  dsimp only
  split
  · rename_i hnil _
    exact absurd hnil h
  · rfl

theorem resolveConfig_eq_ok_iff (hs : source.Assigns a) :
    resolveConfig wd source = .ok c ↔
      (∀ i, ¬ Fault wd a i) ∧ ∀ field, Settles a field (c.setting field) := by
  rw [← issues_eq_nil_iff, ← settings?_eq_some_iff]
  by_cases hnil : issues wd (ofAssignments a) = []
  · obtain ⟨c', hc'⟩ := exists_settings (issues_eq_nil_iff.mp hnil)
    simp [resolveConfig, hs.fields_eq, hnil, settings?_eq_some_iff.mpr hc']
  · simp [resolveConfig_of_faults hs hnil, hnil]

theorem resolveConfig_value {v : Value} (hv : ∀ fields, v ≠ .object fields) :
    resolveConfig wd (.value v) = .error [.notAnObject v.typeName] := by
  cases v with
  | object fields => exact absurd rfl (hv fields)
  | _ => rfl

/-- Only what has been assigned without a fault is accepted. -/
theorem exists_assigns_of_resolveConfig (h : resolveConfig wd source = .ok c) :
    ∃ a, source.Assigns a ∧ (∀ i, ¬ Fault wd a i) ∧ ∀ field, Settles a field (c.setting field) := by
  rcases source.assigns_or with ⟨a, hs⟩ | ⟨v, rfl, hv⟩
  · exact ⟨a, hs, (resolveConfig_eq_ok_iff hs).mp h⟩
  · rw [resolveConfig_value hv] at h
    simp at h

theorem sameDirectory_of_resolveConfig (h : resolveConfig wd source = .ok c) :
    sameDirectory wd c = false := by
  obtain ⟨a, -, hno, hc⟩ := exists_assigns_of_resolveConfig h
  exact decide_eq_false fun hsame => hno _ (.sameDirectory hc hsame)

theorem suits_of_resolveConfig (h : resolveConfig wd source = .ok c) (field : Field) :
    Suits field (c.setting field) := by
  obtain ⟨a, -, hno, hc⟩ := exists_assigns_of_resolveConfig h
  have hsettles := hc field
  generalize c.setting field = t at hsettles
  cases hsettles with
  | given hset =>
    by_contra hsuits
    exact hno _ (.field (.refused hset hsuits))
  | unset _ => exact suits_default field

/-- The settings as keys and values. -/
def assignments (c : Config) : List (Text × Option Value) :=
  Field.all.map fun field => (field.name, some (.string (c.setting field)))

theorem setTo_assignments (c : Config) (field : Field) :
    SetTo c.assignments field (.string (c.setting field)) :=
  given_eq_some_iff.mp (by cases field <;> rfl)

theorem resolveConfig_assignments (h : resolveConfig wd source = .ok c) :
    resolveConfig wd (.entries c.assignments) = .ok c := by
  have hsettles : ∀ field, Settles c.assignments field (c.setting field) := fun field =>
    .given (setTo_assignments c field)
  refine (resolveConfig_eq_ok_iff (.entries _)).mpr ⟨?_, hsettles⟩
  rintro i (hfault | ⟨hkeys, hne⟩ | ⟨hc', hsame⟩)
  · cases hfault with
    | wrongType hset hv => exact hv _ (hset.unique (setTo_assignments c _))
    | refused hset hsuits =>
      rw [Value.string.inj (hset.unique (setTo_assignments c _))] at hsuits
      exact hsuits (suits_of_resolveConfig h _)
  · obtain ⟨k, hk⟩ := List.exists_mem_of_ne_nil _ hne
    obtain ⟨hcame, hno⟩ := (hkeys.mem_iff k).mp hk
    simp only [assignments, List.map_map, List.mem_map] at hcame
    obtain ⟨field, -, rfl⟩ := hcame
    exact hno field rfl
  · have hi := (hc' .inputDir).unique (hsettles .inputDir)
    have ho := (hc' .outputDir).unique (hsettles .outputDir)
    simp only [setting] at hi ho
    rw [hi, ho] at hsame
    simpa [sameDirectory, hsame] using sameDirectory_of_resolveConfig h

/-- A source is accepted when it has no fault, and refused with all its faults in order otherwise.
Accepted settings are accepted again and stay what they are. -/
theorem resolveConfig_outcome (wd : Text) (source : Source) :
    (∀ result, (resolveConfig wd source).mapError invalid = result ↔ Outcome wd source result) ∧
      ∀ c, resolveConfig wd source = .ok c → resolveConfig wd (.entries c.assignments) = .ok c := by
  refine ⟨fun result => ⟨?_, ?_⟩, fun c => resolveConfig_assignments⟩
  · rintro rfl
    rcases source.assigns_or with ⟨a, hs⟩ | ⟨v, rfl, hv⟩
    · by_cases hnil : issues wd (ofAssignments a) = []
      · have hno := issues_eq_nil_iff.mp hnil
        obtain ⟨c, hc⟩ := exists_settings hno
        rw [(resolveConfig_eq_ok_iff hs).mpr ⟨hno, hc⟩]
        exact .accepted hs hno hc
      · rw [resolveConfig_of_faults hs hnil]
        exact .refused hs (faultListing_issues wd a) hnil
    · rw [resolveConfig_value hv]
      exact .notAnObject hv
  · rintro (hv | ⟨hs, h, hne⟩ | ⟨hs, hno, hc⟩)
    · rw [resolveConfig_value hv]
      rfl
    · rw [h.unique (faultListing_issues wd _)] at hne ⊢
      rw [resolveConfig_of_faults hs hne]
      rfl
    · rw [(resolveConfig_eq_ok_iff hs).mpr ⟨hno, hc⟩]
      rfl

/-- Only the input directory is given, the output directory is named without a value. -/
theorem resolveConfig_again :
    let source := Source.entries
      [("outputDir".toList, none), ("inputDir".toList, some (.string "old".toList))]
    let c : Config := ⟨"old".toList, "animation_graphs".toList, ".ron".toList⟩
    resolveConfig "/w".toList source = .ok c ∧
      resolveConfig "/w".toList (.entries c.assignments) = .ok c := by
  intro source c
  have hc : resolveConfig "/w".toList source = .ok c := by rfl
  exact ⟨hc, (resolveConfig_outcome "/w".toList source).2 c hc⟩

/-- Two fields at fault, two unknown keys, and the output directory given as the place of the input
directory. -/
example : resolveConfig "/w".toList (.entries
    [("b".toList, none), ("extension".toList, some .null), ("7".toList, none),
      ("inputDir".toList, some (.string [])), ("extension".toList, some (.string "ron".toList)),
      ("b".toList, some .null), ("outputDir".toList, some (.string ".".toList))]) =
    .error [.refused .inputDir, .refused .extension, .unknownKeys ["7".toList, "b".toList],
      .sameDirectory] := by
  rfl

end Resolution

end Faults

end Config
end NodeReshape
