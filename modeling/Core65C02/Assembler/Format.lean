/-!
# Formatted output of scripts

The escapes of a text that a script prints, and the directives of a format. A format is used again
for the arguments that are left over.
-/

namespace Core65C02.Script

/-- The value of up to `width` octal digits that follow `value`, with the rest of the text. -/
def readOctal : (width : Nat) → Nat → List Char → Nat × List Char
  | width + 1, value, c :: rest =>
    if '0' ≤ c ∧ c ≤ '7' then readOctal width (value * 8 + (c.toNat - 48)) rest
    else (value, c :: rest)
  | _, value, rest => (value, rest)

/-- The byte that a letter after a backslash stands for. -/
def escape? : Char → Option UInt8
  | 'a' => some 7
  | 'b' => some 8
  | 't' => some 9
  | 'n' => some 10
  | 'v' => some 11
  | 'f' => some 12
  | 'r' => some 13
  | '\\' => some 92
  | '"' => some 34
  | _ => none

/-- The bytes of a character. -/
def charBytes (c : Char) : List UInt8 := (String.singleton c).toUTF8.toList

/-- What a text after a backslash stands for, with the rest of the text. -/
def readEscape : List Char → List UInt8 × List Char
  | [] => (charBytes '\\', [])
  | c :: rest =>
    if '0' ≤ c ∧ c ≤ '7' then
      let (value, rest) := readOctal 3 0 (c :: rest)
      ([UInt8.ofNat value], rest)
    else match escape? c with
      | some b => ([b], rest)
      | none => (charBytes '\\' ++ charBytes c, rest)

/-- One pass over a format: the bytes, the arguments that are left, and whether one was taken. -/
def formatPass : (fuel : Nat) → List UInt8 → Bool → List String → List Char →
    List UInt8 × List String × Bool
  | 0, out, taken, args, _ => (out, args, taken)
  | _ + 1, out, taken, args, [] => (out, args, taken)
  | fuel + 1, out, taken, args, '\\' :: rest =>
    let (bytes, rest) := readEscape rest
    formatPass fuel (out ++ bytes) taken args rest
  | fuel + 1, out, taken, args, '%' :: '%' :: rest =>
    formatPass fuel (out ++ charBytes '%') taken args rest
  | fuel + 1, out, taken, args, '%' :: kind :: rest =>
    let argument := args.headD ""
    if kind = 's' ∨ kind = 'd' then
      let text := if kind = 'd' ∧ argument = "" then "0" else argument
      formatPass fuel (out ++ text.toUTF8.toList) true args.tail rest
    else if kind = 'c' then
      formatPass fuel (out ++ (argument.toUTF8.toList.take 1)) true args.tail rest
    else formatPass fuel (out ++ charBytes '%' ++ charBytes kind) taken args rest
  | fuel + 1, out, taken, args, c :: rest => formatPass fuel (out ++ charBytes c) taken args rest

/-- Passes over a format until no argument is left. -/
def formatPasses : (fuel : Nat) → List UInt8 → List Char → List String → List UInt8
  | 0, out, _, _ => out
  | fuel + 1, out, format, args =>
    let (out, rest, taken) := formatPass format.length out false args format
    if taken && !rest.isEmpty then formatPasses fuel out format rest else out

/-- The bytes of a format with its arguments. -/
def formatted (format : String) (args : List String) : List UInt8 :=
  formatPasses (args.length + 1) [] format.toList args

/-- The bytes of a text in which escapes are replaced. -/
def unescaped (text : String) : List UInt8 :=
  go (text.toList.length + 1) [] text.toList
where
  /-- Replaces escapes in what follows the bytes in `out`. -/
  go : (fuel : Nat) → List UInt8 → List Char → List UInt8
    | 0, out, _ => out
    | _ + 1, out, [] => out
    | fuel + 1, out, '\\' :: rest =>
      let (bytes, rest) := readEscape rest
      go fuel (out ++ bytes) rest
    | fuel + 1, out, c :: rest => go fuel (out ++ charBytes c) rest

end Core65C02.Script
