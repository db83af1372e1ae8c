import Core65C02.Json.Basic
import Core65C02.Text.Hex

/-!
# Reading JSON

A recursive-descent reader over the characters of a text. Each function gives the rest of the text
after what it read. The grammar is strict: no trailing comma, no leading zero, no raw control
character in a string, nothing but blanks around the value.
-/

namespace Core65C02.Json

/-- The four blanks of JSON. -/
def isBlank (c : Char) : Bool := c == ' ' || c == '\n' || c == '\t' || c == '\r'

/-- The text from its first character on that is no blank. -/
def skipBlanks (cs : List Char) : List Char := cs.dropWhile isBlank

/-- The number behind four hexadecimal digits. -/
def readUnit : List Char → Option (Nat × List Char)
  | a :: b :: c :: d :: rest => do
    let a ← Hex.digitValue? a
    let b ← Hex.digitValue? b
    let c ← Hex.digitValue? c
    let d ← Hex.digitValue? d
    return (((a * 16 + b) * 16 + c) * 16 + d, rest)
  | _ => none

/-- Whether a number is the first half of a surrogate pair. -/
def isHighSurrogate (n : Nat) : Bool := 0xD800 ≤ n && n < 0xDC00

/-- Whether a number is the second half of a surrogate pair. -/
def isLowSurrogate (n : Nat) : Bool := 0xDC00 ≤ n && n < 0xE000

/-- The character that a backslash followed by a letter stands for, the letter `u` apart. -/
def simpleEscape? : Char → Option Char
  | '"' => some '"'
  | '\\' => some '\\'
  | '/' => some '/'
  | 'b' => some '\x08'
  | 'f' => some '\x0c'
  | 'n' => some '\n'
  | 'r' => some '\r'
  | 't' => some '\t'
  | _ => none

/-- The pieces of a string literal, up to its closing quote: characters, and numbers given by `\u`
escapes. -/
def readPieces : (fuel : Nat) → List (Char ⊕ Nat) → Bool → List Char →
    Option (List (Char ⊕ Nat) × Bool × List Char)
  | 0, _, _, _ => none
  | fuel + 1, pieces, escaped, cs =>
    match cs with
    | [] => none
    | '"' :: rest => some (pieces.reverse, escaped, rest)
    | '\\' :: 'u' :: rest => do
      let (unit, rest) ← readUnit rest
      readPieces fuel (.inr unit :: pieces) true rest
    | '\\' :: c :: rest => do
      let c ← simpleEscape? c
      readPieces fuel (.inl c :: pieces) true rest
    | c :: rest =>
      if c.toNat < 0x20 then none else readPieces fuel (.inl c :: pieces) escaped rest

/-- The characters that pieces stand for, if the surrogates among them pair up. -/
def joinPieces : List Char → List (Char ⊕ Nat) → Option (List Char)
  | cs, [] => some cs.reverse
  | cs, .inl c :: rest => joinPieces (c :: cs) rest
  | cs, .inr high :: .inr low :: rest =>
    if isHighSurrogate high then
      if isLowSurrogate low then
        joinPieces (Char.ofNat (0x10000 + (high - 0xD800) * 0x400 + (low - 0xDC00)) :: cs) rest
      else none
    else if isLowSurrogate high then none
    else joinPieces (Char.ofNat high :: cs) (.inr low :: rest)
  | cs, .inr unit :: rest =>
    if isHighSurrogate unit || isLowSurrogate unit then none
    else joinPieces (Char.ofNat unit :: cs) rest
termination_by _ pieces => pieces.length

/-- The rest of a string literal after its opening quote. -/
def readLiteral (cs : List Char) : Option (Literal × List Char) := do
  let (pieces, escaped, rest) ← readPieces (cs.length + 1) [] false cs
  return (⟨(joinPieces [] pieces).map String.ofList, escaped⟩, rest)

/-- Whether a character is one of the ten digits. -/
def isDigit (c : Char) : Bool := '0' ≤ c && c ≤ '9'

/-- The number that decimal digits stand for. -/
def ofDigits (digits : List Char) : Nat :=
  digits.foldl (fun n c => n * 10 + (c.toNat - 48)) 0

/-- The characters of an optional fraction. -/
def readFraction : List Char → Option (List Char × List Char)
  | '.' :: rest =>
    match rest.takeWhile isDigit with
    | [] => none
    | digits => some ('.' :: digits, rest.dropWhile isDigit)
  | rest => some ([], rest)

/-- The digits of an exponent. -/
def readExponentDigits (marks : List Char) (cs : List Char) : Option (List Char × List Char) :=
  match cs.takeWhile isDigit with
  | [] => none
  | digits => some (marks ++ digits, cs.dropWhile isDigit)

/-- The characters of an optional exponent. -/
def readExponent : List Char → Option (List Char × List Char)
  | c :: rest =>
    if c == 'e' || c == 'E' then
      match rest with
      | sign :: digits =>
        if sign == '+' || sign == '-' then readExponentDigits [c, sign] digits
        else readExponentDigits [c] rest
      | [] => none
    else some ([], c :: rest)
  | [] => some ([], [])

/-- A number without its sign. -/
def readUnsigned (negative : Bool) (cs : List Char) : Option (Json × List Char) := do
  let digits := cs.takeWhile isDigit
  let wellFormed : Bool := match digits with
    | [] => false
    | '0' :: _ :: _ => false
    | _ => true
  guard wellFormed
  let (fraction, rest) ← readFraction (cs.dropWhile isDigit)
  let (exponent, rest) ← readExponent rest
  if negative || !fraction.isEmpty || !exponent.isEmpty then
    let sign := if negative then ['-'] else []
    return (.otherNumber (String.ofList (sign ++ digits ++ fraction ++ exponent)), rest)
  else return (.natural (ofDigits digits), rest)

/-- The rest of a word of which the first character has been seen. -/
def readWord (value : Json) (word cs : List Char) : Option (Json × List Char) :=
  if word.isPrefixOf cs then some (value, cs.drop word.length) else none

mutual

/-- One value. -/
def readValue : (fuel : Nat) → List Char → Option (Json × List Char)
  | 0, _ => none
  | fuel + 1, cs =>
    match skipBlanks cs with
    | 'n' :: rest => readWord .null ['u', 'l', 'l'] rest
    | 't' :: rest => readWord (.bool true) ['r', 'u', 'e'] rest
    | 'f' :: rest => readWord (.bool false) ['a', 'l', 's', 'e'] rest
    | '"' :: rest => (readLiteral rest).map fun (l, rest) => (.text l, rest)
    | '-' :: rest => readUnsigned true rest
    | '[' :: rest =>
      match skipBlanks rest with
      | ']' :: rest => some (.list [], rest)
      | rest => readItems fuel [] rest
    | '\x7b' :: rest =>
      match skipBlanks rest with
      | '\x7d' :: rest => some (.object [], rest)
      | rest => readMembers fuel [] rest
    | rest => readUnsigned false rest

/-- The items of a list from one of them on, up to the closing bracket. -/
def readItems : (fuel : Nat) → List Json → List Char → Option (Json × List Char)
  | 0, _, _ => none
  | fuel + 1, items, cs =>
    match readValue fuel cs with
    | none => none
    | some (item, rest) =>
      match skipBlanks rest with
      | ',' :: rest => readItems fuel (item :: items) rest
      | ']' :: rest => some (.list (item :: items).reverse, rest)
      | _ => none

/-- The members of an object from one of them on, up to the closing brace. -/
def readMembers : (fuel : Nat) → List (Literal × Json) → List Char → Option (Json × List Char)
  | 0, _, _ => none
  | fuel + 1, members, cs =>
    match skipBlanks cs with
    | '"' :: rest =>
      match readLiteral rest with
      | none => none
      | some (key, rest) =>
        match skipBlanks rest with
        | ':' :: rest =>
          match readValue fuel rest with
          | none => none
          | some (value, rest) =>
            match skipBlanks rest with
            | ',' :: rest => readMembers fuel ((key, value) :: members) rest
            | '\x7d' :: rest => some (.object ((key, value) :: members).reverse, rest)
            | _ => none
        | _ => none
    | _ => none

end

/-- The value that a text stands for, if it is well formed. Every call of the reader consumes a
character of the text, which bounds their number. -/
def parse? (text : String) : Option Json :=
  let cs := text.toList
  match readValue (cs.length + 1) cs with
  | some (value, rest) => if (skipBlanks rest).isEmpty then some value else none
  | none => none

end Core65C02.Json
