import NodeReshape.Number

/-! Untyped data as it arrives from outside: nulls, booleans, numbers, strings, arrays and objects.
An object keeps its entries in the order they were first given, each key once. -/
namespace NodeReshape

inductive Value where
  | null
  | bool (b : Bool)
  | number (x : Number)
  | string (t : Text)
  | array (items : List Value)
  | object (fields : List (Text × Value))

abbrev Fields := List (Text × Value)

/-- The entry is replaced in its place, or added at the end when the key is new. -/
def assign {α : Type} (key : Text) (a : α) : List (Text × α) → List (Text × α)
  | [] => [(key, a)]
  | (k, b) :: rest => if k = key then (key, a) :: rest else (k, b) :: assign key a rest

/-- The entries assigned one after another. -/
def ofAssignments {α : Type} (entries : List (Text × α)) : List (Text × α) :=
  entries.foldl (fun made e => assign e.1 e.2 made) []

def lookup? {α : Type} (key : Text) : List (Text × α) → Option α
  | [] => none
  | (k, a) :: rest => if k = key then some a else lookup? key rest

theorem lookup?_assign {α : Type} (key k : Text) (a : α) (entries : List (Text × α)) :
    lookup? k (assign key a entries) = if key = k then some a else lookup? k entries := by
  induction entries with
  | nil => simp [assign, lookup?]
  | cons e rest ih =>
    obtain ⟨k', b⟩ := e
    by_cases hk : k' = key
    · subst hk
      by_cases h : k' = k <;> simp [assign, lookup?, h]
    · by_cases h : k' = k
      · subst h
        simp [assign, lookup?, hk, Ne.symm hk]
      · simp [assign, lookup?, hk, h, ih]

theorem lookup?_eq_none_iff {α : Type} {key : Text} {entries : List (Text × α)} :
    lookup? key entries = none ↔ ∀ a, (key, a) ∉ entries := by
  induction entries with
  | nil => simp [lookup?]
  | cons e rest ih =>
    obtain ⟨k, b⟩ := e
    by_cases h : k = key
    · subst h
      exact iff_of_false (by simp [lookup?]) fun hn => hn b List.mem_cons_self
    · simp [lookup?, h, ih, Ne.symm h]

/-- The number that a text writes as an array index: decimal, without leading zeros, below
4294967295. -/
def arrayIndex? (key : Text) : Option Nat :=
  if key ≠ [] ∧ key.all Char.isDigit then
    let n := key.foldl (fun n c => 10 * n + (c.toNat - 48)) 0
    if natText n = key ∧ n < 4294967295 then some n else none
  else none

/-- The key is put in front of the first one with a larger index. -/
def insertByIndex (n : Nat) (key : Text) : List (Nat × Text) → List (Nat × Text)
  | [] => [(n, key)]
  | e :: rest => if n ≤ e.1 then (n, key) :: e :: rest else e :: insertByIndex n key rest

/-- The array indices among the keys, ascending. -/
def indexedKeys : List Text → List (Nat × Text)
  | [] => []
  | key :: rest =>
    match arrayIndex? key with
    | some n => insertByIndex n key (indexedKeys rest)
    | none => indexedKeys rest

/-- The keys of an object in the order in which they are listed: array indices ascending, then the
others as given. -/
def ownKeys (keys : List Text) : List Text :=
  (indexedKeys keys).map Prod.snd ++ keys.filter fun k => (arrayIndex? k).isNone

/-- The entries of an object in the order in which they are listed. -/
def listed (fields : Fields) : Fields :=
  (ownKeys (fields.map Prod.fst)).filterMap fun key => (lookup? key fields).map fun v => (key, v)

namespace Value

def typeName : Value → Text
  | null => "null".toList
  | bool _ => "boolean".toList
  | number _ => "number".toList
  | string _ => "string".toList
  | array _ => "array".toList
  | object _ => "object".toList

/-- The entry under which an object would hold its own way to be written. -/
def writerName : Text := "toString".toList

mutual

/-- The text of a value. An array is written as its elements between commas, an object without its
entries. An object with an entry for the way to write it relies on that entry, and data can write
nothing: such an object has no text, and neither has an array that holds one. -/
def text? : Value → Option Text
  | null => some "null".toList
  | bool b => some (if b then "true".toList else "false".toList)
  | number x => some x.text
  | string t => some t
  | array items => (elementTexts? items).map (List.intercalate [','])
  | object fields =>
    match lookup? writerName fields with
    | none => some "[object Object]".toList
    | some _ => none

/-- The texts of array elements; a null is written as nothing. -/
def elementTexts? : List Value → Option (List Text)
  | [] => some []
  | null :: rest => (elementTexts? rest).map ([] :: ·)
  | v :: rest =>
    match v.text? with
    | none => none
    | some t => (elementTexts? rest).map (t :: ·)

end

def string? : Value → Option Text
  | string t => some t
  | _ => none

/-- What an object holds under a name. -/
def get? (v : Value) (name : Text) : Option Value :=
  match v with
  | object fields => lookup? name fields
  | _ => none

/-- Whether a value counts as given: nulls, falsehood, zeros and the empty string do not. -/
def truthy : Value → Bool
  | null => false
  | bool b => b
  | number x => x.truthy
  | string t => t ≠ []
  | array _ => true
  | object _ => true

end Value
end NodeReshape
