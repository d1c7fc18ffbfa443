import Testimony.Json.Token

/-!
# Reading JSON

The value that a list of tokens writes. The reader keeps the brackets that are open around the
place it stands at, each with what has been read inside it, and moves on one token at a time.
-/

namespace Testimony.Json

/-- A value as read: a string with lone surrogates names no text. -/
abbrev Reading := Json (Option String)

/-- An open bracket with the items or members before the reading point, the latest first. -/
inductive Frame where
  | array (done : List Reading)
  | object (done : List (Option String × Reading)) (key : Option String)

mutual

/-- Reads a value at the front of the tokens, inside the open brackets. -/
def readValue? : List Token → List Frame → Option Reading
  | .null :: ts, outer => readAfter? ts .null outer
  | .bool b :: ts, outer => readAfter? ts (.bool b) outer
  | .number literal :: ts, outer => readAfter? ts (.number literal) outer
  | .string text :: ts, outer => readAfter? ts (.string text) outer
  | .openArray :: .closeArray :: ts, outer => readAfter? ts (.array []) outer
  | .openArray :: ts, outer => readValue? ts (.array [] :: outer)
  | .openObject :: .closeObject :: ts, outer => readAfter? ts (.object []) outer
  | .openObject :: .string key :: .colon :: ts, outer => readValue? ts (.object [] key :: outer)
  | _, _ => none

/-- Goes on after a value: ends the text, or the innermost bracket, or reads its next value. -/
def readAfter? : List Token → Reading → List Frame → Option Reading
  | [], j, [] => some j
  | .comma :: ts, j, .array done :: outer => readValue? ts (.array (j :: done) :: outer)
  | .closeArray :: ts, j, .array done :: outer =>
    readAfter? ts (.array (j :: done).reverse) outer
  | .comma :: .string key :: .colon :: ts, j, .object done k :: outer =>
    readValue? ts (.object ((k, j) :: done) key :: outer)
  | .closeObject :: ts, j, .object done k :: outer =>
    readAfter? ts (.object ((k, j) :: done).reverse) outer
  | _, _, _ => none

end

/-- The value that a whole text writes. -/
def ofText? (s : String) : Option Reading := do
  readValue? (← Token.split? s.toList) []

end Testimony.Json
