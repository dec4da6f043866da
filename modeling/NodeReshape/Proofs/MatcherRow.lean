import NodeReshape.Proofs.MatcherSearch

/-!
# Matchers in a row

A step makes a matcher or uses one, and all others stay as they are. So a matcher goes the same way
in a row of others as by itself, whatever steps of the others stand between its own. A search for
all fragments of a document makes a matcher that nobody else uses, and leaves no trace in the row.
-/
namespace NodeReshape.Matcher

/-- A step on the row of matchers, or a search for all fragments of a document. -/
inductive Call where
  | step (s : Step)
  | search (document : Text)
  deriving DecidableEq

/-- What a call shows. -/
inductive Shown where
  | answer (a : Answer)
  | fragments (fs : List Fragment)
  deriving DecidableEq

/-- The matcher of this number is used on the document until it fails, and finds these fragments. -/
inductive ExecsOn (k : ℕ) (document : Text) : List Matcher → List Fragment → List Matcher → Prop
  | fails {row row' : List Matcher} {after : Matcher}
    (failed : step row (.exec k document) = some (row', .found none after)) :
    ExecsOn k document row [] row'
  | finds {row next row' : List Matcher} {f : Fragment} {fs : List Fragment} {after : Matcher}
    (found : step row (.exec k document) = some (next, .found (some f) after))
    (rest : ExecsOn k document next fs row') : ExecsOn k document row (f :: fs) row'

/-- The calls with what they show, and the row before and after them. A search makes a matcher behind
those of the row, uses it until it fails, and lets go of it. -/
inductive Runs : List Matcher → List (Call × Shown) → List Matcher → Prop
  | done (row : List Matcher) : Runs row [] row
  | step {row next row' : List Matcher} {s : Step} {a : Answer} {rest : List (Call × Shown)}
    (taken : step row s = some (next, a)) (others : Runs next rest row') :
    Runs row ((.step s, .answer a) :: rest) row'
  | search {row made next row' : List Matcher} {document : Text} {a : Answer} {last : Matcher}
    {fs : List Fragment} {rest : List (Call × Shown)} (new : Matcher.step row .new = some (made, a))
    (execs : ExecsOn row.length document made fs (next ++ [last])) (others : Runs next rest row') :
    Runs row ((.search document, .fragments fs) :: rest) row'

namespace Step

/-- The number of the matcher that a step makes or uses, when so many are made already. -/
def matcher (made : ℕ) : Step → ℕ
  | new => made
  | exec k _ => k
  | test k _ => k
  | seek k _ => k

/-- How many matchers are made after a step. -/
def madeAfter (made : ℕ) : Step → ℕ
  | new => made + 1
  | _ => made

/-- The step on a row in which its matcher is the only one. -/
def alone : Step → Step
  | new => new
  | exec _ document => exec 0 document
  | test _ document => test 0 document
  | seek _ offset => seek 0 offset

end Step

/-- Every step makes a matcher or uses one that is made before. -/
def Numbered (made : ℕ) : List Call → Prop
  | [] => True
  | .step s :: rest => s.matcher made < s.madeAfter made ∧ Numbered (s.madeAfter made) rest
  | .search _ :: rest => Numbered made rest

/-- The steps that make or use one matcher, as steps on a row of its own, with what they show. -/
def own (k made : ℕ) : List (Call × Shown) → List (Step × Answer)
  | [] => []
  | (.step s, .answer a) :: rest =>
    let others := own k (s.madeAfter made) rest
    if s.matcher made = k then (s.alone, a) :: others else others
  | _ :: rest => own k made rest

/-- All steps with what they show, without the searches. -/
def stepsOnly : List (Call × Shown) → List (Step × Answer)
  | [] => []
  | (.step s, .answer a) :: rest => (s, a) :: stepsOnly rest
  | _ :: rest => stepsOnly rest

section Rows

variable {row row' next : List Matcher} {s : Step} {a : Answer}

theorem onMatcher_eq_some_iff {k : ℕ} {act : Matcher → Matcher × Answer} :
    onMatcher row k act = some (row', a) ↔
      ∃ m, row[k]? = some m ∧ row' = row.set k (act m).1 ∧ a = (act m).2 := by
  simp only [onMatcher, Option.map_eq_some_iff, Prod.mk.injEq]
  constructor
  · rintro ⟨m, hm, rfl, rfl⟩
    exact ⟨m, hm, rfl, rfl⟩
  · rintro ⟨m, hm, rfl, rfl⟩
    exact ⟨m, hm, rfl, rfl⟩

/-- Every step but the first kind acts on one matcher, in a row of its own the only one. -/
theorem eq_new_or_onMatcher (s : Step) :
    s = .new ∨ ∃ k act, (∀ made, s.matcher made = k ∧ s.madeAfter made = made) ∧
      (∀ row, step row s = onMatcher row k act) ∧ ∀ row, step row s.alone = onMatcher row 0 act := by
  cases s with
  | new => exact .inl rfl
  | exec k document =>
    exact .inr ⟨k, fun m => ((m.exec document).2, .found (m.exec document).1 (m.exec document).2),
      fun _ => ⟨rfl, rfl⟩, fun _ => rfl, fun _ => rfl⟩
  | test k document =>
    exact .inr ⟨k, fun m => ((m.test document).2, .tested (m.test document).1 (m.test document).2),
      fun _ => ⟨rfl, rfl⟩, fun _ => rfl, fun _ => rfl⟩
  | seek k offset =>
    exact .inr ⟨k, fun m => (m.seek offset, .moved (m.seek offset)),
      fun _ => ⟨rfl, rfl⟩, fun _ => rfl, fun _ => rfl⟩

/-- How a step is seen from one place of the row: it is taken there as on a row of its own, or it
changes nothing there. -/
structure SeenFrom (k : ℕ) (row : List Matcher) (s : Step) (row' : List Matcher) (a : Answer) :
    Prop where
  length : row'.length = s.madeAfter row.length
  here : s.matcher row.length = k → step row[k]?.toList s.alone = some (row'[k]?.toList, a)
  elsewhere : s.matcher row.length ≠ k → row'[k]? = row[k]?

theorem seenFrom_new (k : ℕ) (row : List Matcher) :
    SeenFrom k row .new (row ++ [Matcher.new]) (.made Matcher.new) := by
  refine ⟨List.length_append, ?_, fun hne => ?_⟩
  · rintro rfl
    simp [Step.matcher, Step.alone, step]
  · have hne : row.length ≠ k := hne
    rcases Nat.lt_or_gt_of_ne hne with hlt | hlt
    · rw [List.getElem?_eq_none (by simp; omega), List.getElem?_eq_none (by omega)]
    · exact List.getElem?_append_left hlt

theorem seenFrom_step (h : step row s = some (row', a)) (k : ℕ) : SeenFrom k row s row' a := by
  rcases eq_new_or_onMatcher s with rfl | ⟨j, act, hs, hrow, halone⟩
  · cases h
    exact seenFrom_new k row
  · rw [hrow] at h
    obtain ⟨m, hm, rfl, rfl⟩ := onMatcher_eq_some_iff.mp h
    refine ⟨List.length_set.trans (hs _).2.symm, fun hk => ?_, fun hne => ?_⟩
    · obtain rfl : j = k := (hs _).1.symm.trans hk
      have hlt := (List.getElem?_eq_some_iff.mp hm).1
      rw [halone, hm, List.getElem?_set_self hlt]
      rfl
    · rw [(hs _).1] at hne
      exact List.getElem?_set_ne hne

theorem steps_cons_eq_some {rest : List Step} {answers : List Answer} :
    steps row (s :: rest) = some (row', a :: answers) ↔
      ∃ next, step row s = some (next, a) ∧ steps next rest = some (row', answers) := by
  simp only [steps, Option.bind_eq_bind, Option.bind_eq_some_iff, Prod.exists]
  constructor
  · rintro ⟨next, b, taken, _, _, others, he⟩
    cases he
    exact ⟨next, taken, others⟩
  · rintro ⟨next, taken, others⟩
    exact ⟨next, a, taken, _, _, others, rfl⟩

theorem exists_step (h : s.matcher row.length < s.madeAfter row.length) :
    ∃ row' a, step row s = some (row', a) := by
  rcases eq_new_or_onMatcher s with rfl | ⟨k, act, hs, hrow, -⟩
  · exact ⟨_, _, rfl⟩
  · rw [(hs _).1, (hs _).2] at h
    rw [hrow]
    exact ⟨_, _, onMatcher_eq_some_iff.mpr ⟨_, List.getElem?_eq_getElem h, rfl, rfl⟩⟩

end Rows

section Search

variable {row row' : List Matcher} {document : Text} {fs : List Fragment}

theorem step_exec_last (row : List Matcher) (m : Matcher) (document : Text) :
    step (row ++ [m]) (.exec row.length document) =
      some (row ++ [(m.exec document).2], .found (m.exec document).1 (m.exec document).2) := by
  have hstep : step (row ++ [m]) (.exec row.length document) =
      onMatcher (row ++ [m]) row.length fun m =>
        ((m.exec document).2, .found (m.exec document).1 (m.exec document).2) := rfl
  rw [hstep, onMatcher_eq_some_iff]
  refine ⟨m, List.getElem?_concat_length, ?_, rfl⟩
  rw [List.set_append_right _ _ (Nat.le_refl _), Nat.sub_self]
  rfl

/-- The matcher at the end of a row is used like one by itself. -/
theorem UntilFailure.execsOn {m after : Matcher}
    (h : UntilFailure (Matcher.exec · document) m fs after) (row : List Matcher) :
    ExecsOn row.length document (row ++ [m]) fs (row ++ [after]) := by
  induction h with
  | @fails m after failed =>
    have hstep := step_exec_last row m document
    rw [failed] at hstep
    exact .fails hstep
  | @finds m next after f fs found rest ih =>
    have hstep := step_exec_last row m document
    rw [found] at hstep
    exact .finds hstep ih

theorem ExecsOn.unique {k : ℕ} {fs' : List Fragment} {row'' : List Matcher}
    (h : ExecsOn k document row fs row') (h' : ExecsOn k document row fs' row'') :
    fs = fs' ∧ row' = row'' := by
  induction h generalizing fs' with
  | fails failed =>
    cases h' with
    | fails failed' =>
      cases failed.symm.trans failed'
      exact ⟨rfl, rfl⟩
    | finds found' => cases failed.symm.trans found'
  | finds found rest ih =>
    cases h' with
    | fails failed' => cases found.symm.trans failed'
    | finds found' rest' =>
      cases found.symm.trans found'
      obtain ⟨rfl, rfl⟩ := ih rest'
      exact ⟨rfl, rfl⟩

theorem execsOn_new (row : List Matcher) (document : Text) :
    ExecsOn row.length document (row ++ [new]) (findFragments document) (row ++ [⟨0⟩]) := by
  have hnew := new.untilFailure_exec document
  rw [show new.lastIndex = units [] from rfl, ← List.nil_append document, fragmentsFrom_units] at hnew
  exact UntilFailure.execsOn hnew row

/-- A search finds the fragments of the document, and the row is as before. -/
theorem eq_of_search {made next : List Matcher} {a : Answer} {last : Matcher}
    (hnew : step row .new = some (made, a))
    (h : ExecsOn row.length document made fs (next ++ [last])) :
    fs = findFragments document ∧ next = row := by
  cases hnew
  obtain ⟨rfl, hrow⟩ := h.unique (execsOn_new row document)
  exact ⟨rfl, (List.append_inj' hrow rfl).1⟩

end Search

section Run

variable {row row' : List Matcher} {trace : List (Call × Shown)}

/-- A matcher goes the way of its own steps, on a row where it is the only one. -/
theorem Runs.own_steps (h : Runs row trace row') (k : ℕ) :
    steps row[k]?.toList ((own k row.length trace).map Prod.fst) =
      some (row'[k]?.toList, (own k row.length trace).map Prod.snd) := by
  induction h with
  | done row => rfl
  | @step row next row' s a rest taken others ih =>
    have seen := seenFrom_step taken k
    rw [seen.length] at ih
    simp only [own]
    split
    next hk => exact steps_cons_eq_some.mpr ⟨_, seen.here hk, ih⟩
    next hk => rwa [← seen.elsewhere hk]
  | search hnew execs others ih =>
    obtain ⟨-, rfl⟩ := eq_of_search hnew execs
    exact ih

/-- The row takes its steps as if nobody searched. -/
theorem Runs.stepsOnly_steps (h : Runs row trace row') :
    steps row ((stepsOnly trace).map Prod.fst) = some (row', (stepsOnly trace).map Prod.snd) := by
  induction h with
  | done row => rfl
  | step taken others ih => exact steps_cons_eq_some.mpr ⟨_, taken, ih⟩
  | search hnew execs others ih =>
    obtain ⟨-, rfl⟩ := eq_of_search hnew execs
    exact ih

/-- A search shows the fragments of its document, whatever stands in the row. -/
theorem Runs.search_shown (h : Runs row trace row') {document : Text} {shown : Shown}
    (hmem : (.search document, shown) ∈ trace) : shown = .fragments (findFragments document) := by
  induction h with
  | done row => cases hmem
  | step taken others ih =>
    rcases List.mem_cons.mp hmem with heq | hmem
    · cases heq
    · exact ih hmem
  | search hnew execs others ih =>
    rcases List.mem_cons.mp hmem with heq | hmem
    · cases heq
      rw [(eq_of_search hnew execs).1]
    · exact ih hmem

/-- No step takes a matcher away. -/
theorem length_le_of_steps {taken : List (Step × Answer)}
    (h : steps row (taken.map Prod.fst) = some (row', taken.map Prod.snd)) :
    row.length ≤ row'.length := by
  induction taken generalizing row with
  | nil =>
    cases h
    exact Nat.le_refl _
  | cons first rest ih =>
    obtain ⟨next, hs, hrest⟩ := steps_cons_eq_some.mp h
    have hmade : row.length ≤ first.1.madeAfter row.length := by
      cases first.1 with
      | new => exact Nat.le_succ _
      | exec | test | seek => exact Nat.le_refl _
    calc row.length ≤ first.1.madeAfter row.length := hmade
      _ = next.length := (seenFrom_step hs 0).length.symm
      _ ≤ row'.length := ih hrest

/-- The steps of one matcher, each with its answer: none at all, or those of a new matcher behind the
step that makes it. -/
inductive Alone : List (Step × Answer) → Option Matcher → Prop
  | absent : Alone [] none
  | made {taken : List (Step × Answer)} {m : Matcher}
    (goes : steps [new] (taken.map Prod.fst) = some ([m], taken.map Prod.snd)) :
    Alone ((.new, .made new) :: taken) (some m)

/-- The first step on an empty row makes the matcher that the other steps use. -/
theorem alone_of_steps {taken : List (Step × Answer)} {left : Option Matcher}
    (h : steps [] (taken.map Prod.fst) = some (left.toList, taken.map Prod.snd)) :
    Alone taken left := by
  cases taken with
  | nil =>
    cases left with
    | none => exact .absent
    | some m => cases h
  | cons first rest =>
    obtain ⟨s, a⟩ := first
    obtain ⟨next, hs, hrest⟩ := steps_cons_eq_some.mp h
    rcases eq_new_or_onMatcher s with rfl | ⟨k, act, -, hrow, -⟩
    · cases hs
      cases left with
      | none => exact absurd (length_le_of_steps hrest) (Nat.not_succ_le_zero 0)
      | some m => exact .made hrest
    · rw [hrow] at hs
      cases hs

theorem exists_runs (row : List Matcher) {calls : List Call} (h : Numbered row.length calls) :
    ∃ trace row', trace.map Prod.fst = calls ∧ Runs row trace row' := by
  induction calls generalizing row with
  | nil => exact ⟨[], row, rfl, .done row⟩
  | cons c calls ih =>
    cases c with
    | step s =>
      obtain ⟨hs, hcalls⟩ := h
      obtain ⟨next, a, taken⟩ := exists_step hs
      rw [← (seenFrom_step taken 0).length] at hcalls
      obtain ⟨trace, row', rfl, others⟩ := ih next hcalls
      exact ⟨(.step s, .answer a) :: trace, row', rfl, .step taken others⟩
    | search document =>
      obtain ⟨trace, row', rfl, others⟩ := ih row h
      exact ⟨(.search document, .fragments (findFragments document)) :: trace, row', rfl,
        .search rfl (execsOn_new row document) others⟩

/-- What calls show depends on nothing but the calls and the row in front of them. -/
theorem Runs.unique (h : Runs row trace row') {trace' : List (Call × Shown)} {row'' : List Matcher}
    (h' : Runs row trace' row'') (hcalls : trace'.map Prod.fst = trace.map Prod.fst) :
    trace' = trace ∧ row'' = row' := by
  induction h generalizing trace' with
  | done row =>
    cases h' with
    | done => exact ⟨rfl, rfl⟩
    | step => cases hcalls
    | search => cases hcalls
  | step taken others ih =>
    cases h' with
    | done => cases hcalls
    | step taken' others' =>
      obtain ⟨hs, hrest⟩ := List.cons.inj hcalls
      cases hs
      cases taken.symm.trans taken'
      obtain ⟨rfl, rfl⟩ := ih others' hrest
      exact ⟨rfl, rfl⟩
    | search => cases (List.cons.inj hcalls).1
  | search hnew execs others ih =>
    cases h' with
    | done => cases hcalls
    | step => cases (List.cons.inj hcalls).1
    | search hnew' execs' others' =>
      obtain ⟨hs, hrest⟩ := List.cons.inj hcalls
      cases hs
      obtain ⟨rfl, rfl⟩ := eq_of_search hnew execs
      obtain ⟨rfl, rfl⟩ := eq_of_search hnew' execs'
      obtain ⟨rfl, rfl⟩ := ih others' hrest
      exact ⟨rfl, rfl⟩

end Run

/-- Calls that name only matchers made before can be made in any order. Each matcher then answers
its own steps as a new matcher that takes nothing but these, and is left like it. A search shows the
fragments of its document, and all steps go as without the searches. -/
theorem runs_alone (calls : List Call) (h : Numbered 0 calls) :
    ∃ trace row, trace.map Prod.fst = calls ∧ Runs [] trace row ∧
      (∀ trace' row', trace'.map Prod.fst = calls → Runs [] trace' row' →
        trace' = trace ∧ row' = row) ∧
      (∀ k, Alone (own k 0 trace) row[k]?) ∧
      (∀ document shown, (.search document, shown) ∈ trace →
        shown = .fragments (findFragments document)) ∧
      steps [] ((stepsOnly trace).map Prod.fst) = some (row, (stepsOnly trace).map Prod.snd) := by
  obtain ⟨trace, row, rfl, hruns⟩ := exists_runs [] h
  exact ⟨trace, row, rfl, hruns, fun _ _ hcalls h' => hruns.unique h' hcalls,
    fun k => alone_of_steps (hruns.own_steps k), fun _ _ hmem => hruns.search_shown hmem,
    hruns.stepsOnly_steps⟩

/-- Two nodes of the old shape. -/
def twoNodes : Text := "(name:\"a\",ty:\"b\",inner:(1))(name:\"c\",ty:\"d\",inner:(2))".toList

/-- Two matchers on the same document that go on in turn, with a search for all its fragments. -/
def turns : List Call :=
  [.step .new, .step (.exec 0 twoNodes), .step .new, .step (.test 1 twoNodes), .search twoNodes,
    .step (.exec 1 twoNodes), .step (.seek 0 2), .step (.exec 0 twoNodes)]

theorem runs_alone_turns :
    Numbered 0 turns ∧ ∃ trace row, trace.map Prod.fst = turns ∧ Runs [] trace row ∧
      ∀ k, Alone (own k 0 trace) row[k]? := by
  have hnumbered : Numbered 0 turns := by simp [turns, Numbered, Step.matcher, Step.madeAfter]
  obtain ⟨trace, row, hcalls, hruns, -, hown, -, -⟩ := runs_alone turns hnumbered
  exact ⟨hnumbered, trace, row, hcalls, hruns, hown⟩

end NodeReshape.Matcher
