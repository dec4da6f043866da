import NodeReshape.LetterCase

/-! Log levels and how the environment chooses one. -/
namespace NodeReshape

/-- From the rarest records to no records at all. -/
inductive Level where
  | fatal
  | error
  | warn
  | info
  | debug
  | trace
  | silent
  deriving DecidableEq

namespace Level

def all : List Level := [fatal, error, warn, info, debug, trace, silent]

def name : Level → Text
  | fatal => "fatal".toList
  | error => "error".toList
  | warn => "warn".toList
  | info => "info".toList
  | debug => "debug".toList
  | trace => "trace".toList
  | silent => "silent".toList

/-- The level of this name. -/
def ofName? (t : Text) : Option Level := all.find? fun l => l.name = t

theorem ofName?_name (l : Level) : ofName? l.name = some l := by cases l <;> decide

/-- How grave a record of this level is. -/
def rank : Level → Nat
  | trace => 10
  | debug => 20
  | info => 30
  | warn => 40
  | error => 50
  | fatal => 60
  | silent => 70

/-- A record of level `l` is written under the threshold `threshold`. Nothing is ever recorded at
the silent level. -/
def admits (threshold l : Level) : Bool := l != silent && threshold.rank ≤ l.rank

end Level

/-- The two environment variables that matter. -/
structure Environment where
  logLevel : Option Text
  nodeEnv : Option Text
  deriving DecidableEq

/-- The threshold that the environment asks for, or the lower-cased name that is no level. The
variable unset or empty means everything from `info` up, and silence in tests. -/
def Environment.threshold (env : Environment) : Except Text Level :=
  match env.logLevel with
  | some (c :: t) =>
    let asked := lowerCase (c :: t)
    match Level.ofName? asked with
    | some l => .ok l
    | none => .error asked
  | _ => .ok (if env.nodeEnv = some "test".toList then .silent else .info)

/-- The name of the environment, which is `development` unless it is given. -/
def Environment.name (env : Environment) : Text := env.nodeEnv.getD "development".toList

end NodeReshape
