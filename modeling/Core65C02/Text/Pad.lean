/-!
# Columns

Texts in columns of a least width. A text that is wider than its column is not cut.
-/

namespace Core65C02.Text

/-- Where a text stands in its column. -/
inductive Alignment
  | left | right
  /-- In the middle; if that is not possible, one place to the left of it. -/
  | center
deriving DecidableEq

/-- How many of `missing` places are filled in front of a text. -/
def Alignment.leading (alignment : Alignment) (missing : Nat) : Nat :=
  match alignment with
  | left => 0
  | right => missing
  | center => missing / 2

/-- A text in a column of `width` characters. -/
def pad (alignment : Alignment) (fill : Char) (width : Nat) (s : String) : String :=
  let missing := width - s.length
  let leading := alignment.leading missing
  String.ofList (List.replicate leading fill ++ s.toList ++
    List.replicate (missing - leading) fill)

/-- At most `count` characters of a text; all of them if there is no limit. -/
def cut (count : Option Nat) (s : String) : String :=
  match count with
  | some n => String.ofList (s.toList.take n)
  | none => s

end Core65C02.Text
