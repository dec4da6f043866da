import NodeReshape.Value

/-! Values as JSON text, on one line and without blanks. -/
namespace NodeReshape

namespace JsonText

/-- A character between double quotes. Control characters are escaped, all others stand for
themselves. -/
def escape (c : Char) : Text :=
  if c = '"' then ['\\', '"']
  else if c = '\\' then ['\\', '\\']
  else if c = '\n' then ['\\', 'n']
  else if c = '\t' then ['\\', 't']
  else if c = '\r' then ['\\', 'r']
  else if c.toNat < 0x20 then
    "\\u00".toList ++ [Nat.digitChar (c.toNat / 16), Nat.digitChar (c.toNat % 16)]
  else [c]

def quote (t : Text) : Text := '"' :: (t.flatMap escape ++ ['"'])

def array (items : List Text) : Text := '[' :: (List.intercalate [','] items ++ [']'])

/-- Entries between braces, the names being quoted already. -/
def ofEntries (entries : List (Text × Text)) : Text :=
  '\x7b' :: (List.intercalate [','] (entries.map fun e => e.1 ++ ':' :: e.2) ++ ['\x7d'])

def object (entries : List (Text × Text)) : Text :=
  ofEntries (entries.map fun e => (quote e.1, e.2))

/-- The text means itself between double quotes. -/
def isPlain (t : Text) : Bool := t.all fun c => c != '"' && c != '\\' && 0x20 ≤ c.toNat

end JsonText

namespace Value

mutual

/-- A value as JSON. A number that is not finite has no JSON form and becomes a null. -/
def json : Value → Text
  | null => "null".toList
  | bool b => if b then "true".toList else "false".toList
  | number x => if x.isFinite then x.text else "null".toList
  | string t => JsonText.quote t
  | array items => JsonText.array (jsonItems items)
  | object fields => JsonText.object (jsonEntries fields)

def jsonItems : List Value → List Text
  | [] => []
  | v :: rest => v.json :: jsonItems rest

def jsonEntries : List (Text × Value) → List (Text × Text)
  | [] => []
  | (key, v) :: rest => (key, v.json) :: jsonEntries rest

end

end Value
end NodeReshape
