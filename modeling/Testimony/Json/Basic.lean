/-!
# JSON

A JSON value and its two written forms: `compact`, without blanks, and `pretty`, one member or
item a line. A number is kept as it is written. The type of texts is a parameter, because a
written string can name code units that are no text.
-/

namespace Testimony

inductive Json (τ : Type) where
  | null
  | bool (b : Bool)
  | number (literal : String)
  | string (text : τ)
  | array (items : List (Json τ))
  | object (members : List (τ × Json τ))

namespace Json

/-- The four hexadecimal digits of a code unit. -/
def hexDigits (n : Nat) : List Char :=
  [n / 4096 % 16, n / 256 % 16, n / 16 % 16, n % 16].map Nat.digitChar

/-- How a character stands in a string: quote, backslash and control characters by an escape. -/
def escape (c : Char) : List Char :=
  match c with
  | '"' => ['\\', '"']
  | '\\' => ['\\', '\\']
  | '\x08' => ['\\', 'b']
  | '\x0c' => ['\\', 'f']
  | '\n' => ['\\', 'n']
  | '\r' => ['\\', 'r']
  | '\t' => ['\\', 't']
  | c => if c.toNat < 0x20 then '\\' :: 'u' :: hexDigits c.toNat else [c]

def quoted (s : String) : List Char :=
  '"' :: (s.toList.flatMap escape ++ ['"'])

def boolLiteral (b : Bool) : List Char :=
  if b then ['t', 'r', 'u', 'e'] else ['f', 'a', 'l', 's', 'e']

def nullLiteral : List Char := ['n', 'u', 'l', 'l']

/-! ### Compact form -/

mutual

/-- Writes a value without blanks in front of `rest`. -/
def writeCompact : Json String → (rest : List Char) → List Char
  | .null, rest => nullLiteral ++ rest
  | .bool b, rest => boolLiteral b ++ rest
  | .number literal, rest => literal.toList ++ rest
  | .string s, rest => quoted s ++ rest
  | .array [], rest => '[' :: ']' :: rest
  | .array (j :: js), rest => '[' :: j.writeCompact (writeItems js rest)
  | .object [], rest => '\x7b' :: '\x7d' :: rest
  | .object ((k, j) :: ms), rest =>
    '\x7b' :: (quoted k ++ ':' :: j.writeCompact (writeMembers ms rest))

/-- Writes the items after the first, and the closing bracket. -/
def writeItems : List (Json String) → (rest : List Char) → List Char
  | [], rest => ']' :: rest
  | j :: js, rest => ',' :: j.writeCompact (writeItems js rest)

/-- Writes the members after the first, and the closing brace. -/
def writeMembers : List (String × Json String) → (rest : List Char) → List Char
  | [], rest => '\x7d' :: rest
  | (k, j) :: ms, rest => ',' :: (quoted k ++ ':' :: j.writeCompact (writeMembers ms rest))

end

def compact (j : Json String) : String :=
  String.ofList (j.writeCompact [])

/-! ### Pretty form -/

/-- A new line, indented by two blanks a level. -/
def newLine (level : Nat) : List Char :=
  '\n' :: List.replicate (2 * level) ' '

mutual

/-- Writes a value that stands `level` levels deep in front of `rest`. -/
def writePretty : Json String → (level : Nat) → (rest : List Char) → List Char
  | .null, _, rest => nullLiteral ++ rest
  | .bool b, _, rest => boolLiteral b ++ rest
  | .number literal, _, rest => literal.toList ++ rest
  | .string s, _, rest => quoted s ++ rest
  | .array [], _, rest => '[' :: ']' :: rest
  | .array (j :: js), level, rest =>
    '[' :: (newLine (level + 1) ++ j.writePretty (level + 1) (writeItemLines js level rest))
  | .object [], _, rest => '\x7b' :: '\x7d' :: rest
  | .object ((k, j) :: ms), level, rest =>
    '\x7b' :: (newLine (level + 1) ++ quoted k ++ ':' :: ' ' ::
      j.writePretty (level + 1) (writeMemberLines ms level rest))

/-- Writes the items after the first, and the closing bracket on its own line. -/
def writeItemLines : List (Json String) → (level : Nat) → (rest : List Char) → List Char
  | [], level, rest => newLine level ++ ']' :: rest
  | j :: js, level, rest =>
    ',' :: (newLine (level + 1) ++ j.writePretty (level + 1) (writeItemLines js level rest))

/-- Writes the members after the first, and the closing brace on its own line. -/
def writeMemberLines :
    List (String × Json String) → (level : Nat) → (rest : List Char) → List Char
  | [], level, rest => newLine level ++ '\x7d' :: rest
  | (k, j) :: ms, level, rest =>
    ',' :: (newLine (level + 1) ++ quoted k ++ ':' :: ' ' ::
      j.writePretty (level + 1) (writeMemberLines ms level rest))

end

def pretty (j : Json String) : String :=
  String.ofList (j.writePretty 0 [])

/-! ### Values -/

def ofNat (n : Nat) : Json String :=
  .number n.repr

end Json

end Testimony
