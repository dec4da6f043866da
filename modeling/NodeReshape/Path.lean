import NodeReshape.Text

/-! Paths as text: segments between slashes, and the purely lexical operations on them. Nothing here
looks at files, so `a/..` is dropped whatever `a` may be. -/
namespace NodeReshape.Path

/-- The segments between the slashes of a path, empty ones included. -/
def segments : Text → List Text
  | [] => [[]]
  | c :: t =>
    if c = '/' then [] :: segments t
    else match segments t with
      | [] => [[c]]
      | s :: rest => (c :: s) :: rest

/-- Segments with a slash between neighbours. -/
def ofSegments (segments : List Text) : Text := List.intercalate ['/'] segments

def dot : Text := ['.']
def dotdot : Text := ['.', '.']

/-- One more segment on a path that is kept in reverse. Going up from the start is possible only
when `above` says so. -/
def push (above : Bool) (made : List Text) (segment : Text) : List Text :=
  if segment = [] ∨ segment = dot then made
  else if segment = dotdot then
    match made with
    | [] => if above then [dotdot] else []
    | last :: rest => if last = dotdot then (if above then dotdot :: made else made) else rest
  else segment :: made

/-- The segments of a path without empty ones, dots, and segments that are left again. -/
def collapse (above : Bool) (segments : List Text) : List Text :=
  (segments.foldl (push above) []).reverse

def isAbsolute (p : Text) : Bool := p.head? == some '/'

/-- The shortest spelling of a path. A slash at the end stays, and nothing is written as a dot. -/
def normalize (p : Text) : Text :=
  let body := ofSegments (collapse (!isAbsolute p) (segments p))
  let closing : Text := if p.getLast? = some '/' then ['/'] else []
  if isAbsolute p then if body = [] then ['/'] else '/' :: (body ++ closing)
  else if body = [] then dot ++ closing
  else body ++ closing

/-- Two paths one behind the other. -/
def join (a b : Text) : Text := normalize (ofSegments ([a, b].filter (· ≠ [])))

/-- The path that a path denotes from the working directory. It is absolute when one of the two is.
An empty path and a dot denote an absolute working directory exactly as it is spelled. -/
def resolve (workingDirectory p : Text) : Text :=
  if (p = [] ∨ p = dot) ∧ isAbsolute workingDirectory then workingDirectory
  else
    let absolute := isAbsolute p || isAbsolute workingDirectory
    let whole := if isAbsolute p then p else workingDirectory ++ '/' :: p
    let body := ofSegments (collapse (!absolute) (segments whole))
    if absolute then '/' :: body else if body = [] then dot else body

/-- The last segment, slashes at the end aside. -/
def base (p : Text) : Text :=
  let trimmed := p.reverse.dropWhile (· == '/')
  (trimmed.takeWhile (· != '/')).reverse

/-- The texts in front of the slashes of a path, the shortest first. -/
def fronts : Text → List Text
  | [] => []
  | c :: t => (if c = '/' then [[]] else []) ++ (fronts t).map (c :: ·)

/-- The text in front of the last slash, if there is one. -/
def parent? (p : Text) : Option Text := (fronts p).getLast?

theorem mem_fronts_iff {p q : Text} : q ∈ fronts p ↔ ∃ rest, p = q ++ '/' :: rest := by
  induction p generalizing q with
  | nil => simp [fronts]
  | cons c t ih =>
    by_cases hc : c = '/'
    · subst hc
      cases q with
      | nil => simp [fronts]
      | cons a q =>
        simp only [fronts, if_true, List.cons_append, List.nil_append, List.mem_cons,
          List.mem_map, ih, List.cons.injEq, reduceCtorEq, false_or]
        constructor
        · rintro ⟨_, ⟨rest, rfl⟩, rfl, rfl⟩
          exact ⟨rest, rfl, rfl⟩
        · rintro ⟨rest, rfl, rfl⟩
          exact ⟨q, ⟨rest, rfl⟩, rfl, rfl⟩
    · cases q with
      | nil => simp [fronts, hc]
      | cons a q =>
        simp only [fronts, hc, if_false, List.nil_append, List.mem_map, ih, List.cons_append,
          List.cons.injEq]
        constructor
        · rintro ⟨_, ⟨rest, rfl⟩, rfl, rfl⟩
          exact ⟨rest, rfl, rfl⟩
        · rintro ⟨rest, rfl, rfl⟩
          exact ⟨q, ⟨rest, rfl⟩, rfl, rfl⟩

end NodeReshape.Path
