import NodeReshape.JsonText

/-! Reading JSON text. `Value.ofJson?` accepts exactly one value with blanks around it. In an object
that gives a name more than once the last value counts. -/
namespace NodeReshape

namespace JsonText

/-- The text without its leading blanks, of which there are only four kinds. -/
def skipSpace (t : Text) : Text :=
  t.dropWhile fun c => c == ' ' || c == '\t' || c == '\n' || c == '\r'

def hexDigit? (c : Char) : Option Nat :=
  if c.isDigit then some (c.toNat - 48)
  else if 'a' ≤ c ∧ c ≤ 'f' then some (c.toNat - 87)
  else if 'A' ≤ c ∧ c ≤ 'F' then some (c.toNat - 55)
  else none

/-- The 16-bit unit that four hexadecimal digits stand for. -/
def unit? (a b c d : Char) : Option Nat := do
  return ((16 * (← hexDigit? a) + (← hexDigit? b)) * 16 + (← hexDigit? c)) * 16 + (← hexDigit? d)

/-- The character that a backslash and this character stand for. -/
def unescape? (c : Char) : Option Char :=
  if c = '"' ∨ c = '\\' ∨ c = '/' then some c
  else if c = 'n' then some '\n'
  else if c = 't' then some '\t'
  else if c = 'r' then some '\r'
  else if c = 'b' then some '\x08'
  else if c = 'f' then some '\x0c'
  else none

/-- A string as far as it is read: its characters, the last one first, and a unit that is the first
half of a character whose second half may follow. -/
structure Spelled where
  done : Text
  half : Option Nat

namespace Spelled

/-- A half that is left alone is read as U+FFFD. -/
def chars (s : Spelled) : Text :=
  match s.half with
  | none => s.done
  | some _ => '\uFFFD' :: s.done

def push (s : Spelled) (c : Char) : Spelled := ⟨c :: s.chars, none⟩

def pushUnit (s : Spelled) (n : Nat) : Spelled :=
  if 0xD800 ≤ n ∧ n < 0xDC00 then ⟨s.chars, some n⟩
  else if 0xDC00 ≤ n ∧ n < 0xE000 then
    match s.half with
    | some high =>
      ⟨Char.ofNat (0x10000 + (high - 0xD800) * 1024 + (n - 0xDC00)) :: s.done, none⟩
    | none => s.push '\uFFFD'
  else s.push (Char.ofNat n)

end Spelled

/-- The rest of a string behind `s`, and the text behind its closing quote. -/
def readString (s : Spelled) : Text → Option (Text × Text)
  | [] => none
  | '"' :: rest => some (s.chars.reverse, rest)
  | '\\' :: 'u' :: a :: b :: c :: d :: rest =>
    match unit? a b c d with
    | some n => readString (s.pushUnit n) rest
    | none => none
  | '\\' :: c :: rest =>
    match unescape? c with
    | some c => readString (s.push c) rest
    | none => none
  | c :: rest => if c.toNat < 0x20 ∨ c = '\\' then none else readString (s.push c) rest

def digitsValue (digits : Text) : Nat := digits.foldl (fun n c => 10 * n + (c.toNat - 48)) 0

/-- The digits in front of a text, of which there must be one, and the rest. -/
def readDigits (t : Text) : Option (Text × Text) :=
  match t.takeWhile Char.isDigit with
  | [] => none
  | digits => some (digits, t.dropWhile Char.isDigit)

/-- The part of a number in front of its point: a zero alone, or digits that begin with no zero. -/
def readWhole : Text → Option (Text × Text)
  | '0' :: rest => some (['0'], rest)
  | t => readDigits t

def readFraction : Text → Option (Text × Text)
  | '.' :: rest => readDigits rest
  | t => some ([], t)

/-- The power of ten behind a number. -/
def readPower (t : Text) : Option (Int × Text) :=
  match t with
  | e :: rest =>
    if e = 'e' ∨ e = 'E' then
      match rest with
      | '-' :: rest => (readDigits rest).map fun (ds, rest) => (-(digitsValue ds : Int), rest)
      | '+' :: rest => (readDigits rest).map fun (ds, rest) => ((digitsValue ds : Int), rest)
      | rest => (readDigits rest).map fun (ds, rest) => ((digitsValue ds : Int), rest)
    else some (0, t)
  | [] => some (0, t)

def readNumber (t : Text) : Option (Number × Text) := do
  let (negative, t) := match t with
    | '-' :: rest => (true, rest)
    | t => (false, t)
  let (whole, t) ← readWhole t
  let (fraction, t) ← readFraction t
  let (power, t) ← readPower t
  return (Number.ofDecimal negative (digitsValue (whole ++ fraction)) (power - fraction.length), t)

/-- A null, a boolean or a number in front of a text. -/
def readPlain (t : Text) : Option (Value × Text) :=
  match after? "null".toList t, after? "true".toList t, after? "false".toList t with
  | some rest, _, _ => some (.null, rest)
  | _, some rest, _ => some (.bool true, rest)
  | _, _, some rest => some (.bool false, rest)
  | _, _, _ => (readNumber t).map fun (x, rest) => (.number x, rest)

mutual

/-- The value in front of a text and the text behind it, in at most as many steps as given. -/
def readValue : Nat → Text → Option (Value × Text)
  | 0, _ => none
  | n + 1, t =>
    match skipSpace t with
    | '"' :: rest => (readString ⟨[], none⟩ rest).map fun (s, rest) => (.string s, rest)
    | '[' :: rest =>
      match skipSpace rest with
      | ']' :: rest => some (.array [], rest)
      | rest => readItems n [] rest
    | '\x7b' :: rest =>
      match skipSpace rest with
      | '\x7d' :: rest => some (.object [], rest)
      | rest => readEntries n [] rest
    | t => readPlain t

/-- The rest of an array behind the items `done`, the last one first. -/
def readItems : Nat → List Value → Text → Option (Value × Text)
  | 0, _, _ => none
  | n + 1, done, t =>
    match readValue n t with
    | none => none
    | some (v, rest) =>
      match skipSpace rest with
      | ',' :: rest => readItems n (v :: done) rest
      | ']' :: rest => some (.array (v :: done).reverse, rest)
      | _ => none

/-- The rest of an object behind the entries `done`, the last one first. -/
def readEntries : Nat → Fields → Text → Option (Value × Text)
  | 0, _, _ => none
  | n + 1, done, t =>
    match skipSpace t with
    | '"' :: rest =>
      match readString ⟨[], none⟩ rest with
      | none => none
      | some (name, rest) =>
        match skipSpace rest with
        | ':' :: rest =>
          match readValue n rest with
          | none => none
          | some (v, rest) =>
            match skipSpace rest with
            | ',' :: rest => readEntries n ((name, v) :: done) rest
            | '\x7d' :: rest => some (.object (ofAssignments ((name, v) :: done).reverse), rest)
            | _ => none
        | _ => none
    | _ => none

end

end JsonText

/-- The value that a JSON text stands for. Of two steps at least one takes a character off the text,
so that twice its length is enough of them. -/
def Value.ofJson? (t : Text) : Option Value :=
  match JsonText.readValue (2 * t.length + 2) t with
  | some (v, rest) => if JsonText.skipSpace rest = [] then some v else none
  | none => none

end NodeReshape
