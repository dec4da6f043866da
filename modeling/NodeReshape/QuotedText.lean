import NodeReshape.Units

/-! Text in quotes for a message: backslashes, quotes and control characters are escaped. Single
quotes are used unless the text contains them; then double quotes, then backquotes are tried. -/
namespace NodeReshape.QuotedText

def hexDigit (n : Nat) : Char := (Nat.digitChar n).toUpper

/-- The escape of a character inside quotes of this kind, if it needs one. -/
def escape? (quote c : Char) : Option Text :=
  let n := c.toNat
  if c = '\n' then some "\\n".toList
  else if c = '\t' then some "\\t".toList
  else if c = '\r' then some "\\r".toList
  else if n = 0x08 then some "\\b".toList
  else if n = 0x0C then some "\\f".toList
  else if c = '\\' then some "\\\\".toList
  else if n < 0x20 ∨ (0x7F ≤ n ∧ n < 0xA0) then
    some ['\\', 'x', hexDigit (n / 16), hexDigit (n % 16)]
  else if c = quote ∧ quote = '\'' then some ['\\', '\'']
  else none

/-- The quote to use around a text. -/
def quoteFor (t : Text) : Char :=
  if '\'' ∉ t then '\''
  else if '"' ∉ t then '"'
  else if '`' ∉ t ∧ ('$', '\x7b') ∉ t.zip t.tail then '`'
  else '\''

/-- The text between quotes. -/
def quote (t : Text) : Text :=
  let q := quoteFor t
  q :: (t.flatMap fun c => (escape? q c).getD [c]) ++ [q]

/-- The lines of a text, each with its line feed. -/
def lines : Text → List Text
  | [] => []
  | c :: t =>
    if c = '\n' then [c] :: lines t
    else match lines t with
      | [] => [[c]]
      | l :: rest => (c :: l) :: rest

/-- The quoted text of a value in a message. A text of more than 76 units is quoted line by line,
and no more than 128 units are shown. What stands behind the first 10000 units does not decide about
the quotes. -/
def shown (t : Text) : Text :=
  let t := takeUnits 10000 t
  let whole :=
    if units t ≤ 76 then quote t
    else List.intercalate " +\n  ".toList ((lines t).map quote)
  if units whole ≤ 128 then whole else takeUnits 128 whole ++ "...".toList

end NodeReshape.QuotedText
