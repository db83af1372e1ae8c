import Core65C02.Json.Basic
import Core65C02.Text.Hex

/-!
# Writing JSON

The compact form has no blanks. The indented form puts every item and every member on a line of
its own, two blanks deeper than the line of its bracket; a colon is followed by a blank, and an
empty list or object stays on its line.
-/

namespace Core65C02.Json

/-- A character inside a string literal. Quotes, backslashes and control characters are escaped. -/
def escapeChar (c : Char) : List Char :=
  match c with
  | '"' => ['\\', '"']
  | '\\' => ['\\', '\\']
  | '\x08' => ['\\', 'b']
  | '\x0c' => ['\\', 'f']
  | '\n' => ['\\', 'n']
  | '\r' => ['\\', 'r']
  | '\t' => ['\\', 't']
  | c =>
    if c.toNat < 0x20 then
      ['\\', 'u', '0', '0', Hex.lowerDigit (c.toNat / 16), Hex.lowerDigit (c.toNat % 16)]
    else [c]

/-- A string literal with its quotes. -/
def quote (s : String) : String :=
  String.ofList ('"' :: (s.toList.flatMap escapeChar ++ ['"']))

/-- The string of a literal; one that stands for no string is written empty. -/
def writeLiteral (l : Literal) : String := quote (l.value?.getD "")

mutual

/-- Appends the compact form of a value to a text. -/
def append (out : String) : Json → String
  | null => out ++ "null"
  | bool true => out ++ "true"
  | bool false => out ++ "false"
  | natural n => out ++ toString n
  | otherNumber spelling => out ++ spelling
  | text l => out ++ writeLiteral l
  | list items => appendItems (out ++ "[") true items ++ "]"
  | object members => appendMembers (out ++ "\x7b") true members ++ "\x7d"

/-- Appends items, with a comma before each but the first. -/
def appendItems (out : String) (first : Bool) : List Json → String
  | [] => out
  | item :: rest => appendItems (append (if first then out else out ++ ",") item) false rest

/-- Appends members, with a comma before each but the first. -/
def appendMembers (out : String) (first : Bool) : List (Literal × Json) → String
  | [] => out
  | (key, value) :: rest =>
    appendMembers (append ((if first then out else out ++ ",") ++ writeLiteral key ++ ":") value)
      false rest

end

/-- The compact form of a value. -/
def render (value : Json) : String := append "" value

/-- A new line with the indentation of a depth. -/
def newLine (depth : Nat) : String := String.ofList ('\n' :: List.replicate (2 * depth) ' ')

mutual

/-- Appends the indented form of a value to a text. -/
def appendIndented (out : String) (depth : Nat) : Json → String
  | list [] => out ++ "[]"
  | list (item :: rest) =>
    appendIndentedItems (out ++ "[") (depth + 1) true (item :: rest) ++ newLine depth ++ "]"
  | object [] => out ++ "\x7b\x7d"
  | object (member :: rest) =>
    appendIndentedMembers (out ++ "\x7b") (depth + 1) true (member :: rest) ++ newLine depth ++
      "\x7d"
  | null => out ++ "null"
  | bool true => out ++ "true"
  | bool false => out ++ "false"
  | natural n => out ++ toString n
  | otherNumber spelling => out ++ spelling
  | text l => out ++ writeLiteral l

/-- Appends items, each on its own line. -/
def appendIndentedItems (out : String) (depth : Nat) (first : Bool) : List Json → String
  | [] => out
  | item :: rest =>
    let out := (if first then out else out ++ ",") ++ newLine depth
    appendIndentedItems (appendIndented out depth item) depth false rest

/-- Appends members, each on its own line. -/
def appendIndentedMembers (out : String) (depth : Nat) (first : Bool) :
    List (Literal × Json) → String
  | [] => out
  | (key, value) :: rest =>
    let out := (if first then out else out ++ ",") ++ newLine depth ++ writeLiteral key ++ ": "
    appendIndentedMembers (appendIndented out depth value) depth false rest

end

/-- The indented form of a value. -/
def renderIndented (value : Json) : String := appendIndented "" 0 value

end Core65C02.Json
