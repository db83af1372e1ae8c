/-!
# Run-length encoding

A list of bytes is cut into runs of one value, at most 255 bytes each. A run is written as a
triple of a marker, its length and its value if that pays or if the value is zero, and byte by
byte otherwise; a marker among single bytes is followed by a zero, which no run has as its length.
-/

namespace Core65C02.RunLength

/-- The byte that is not itself. -/
def marker : UInt8 := 0xFF

/-- The length of the longest run that one triple can carry. -/
def longest : Nat := 255

/-- A byte and how often it is repeated. -/
structure Run where
  /-- The repeated byte. -/
  value : UInt8
  /-- How often it occurs. -/
  length : Nat
deriving DecidableEq

/-- The bytes of a run. -/
def Run.bytes (run : Run) : List UInt8 := List.replicate run.length run.value

/-- Adds a byte to the newest of the runs, which comes first, or opens a new one if the byte differs
or the run is full. -/
def extend (runs : List Run) (value : UInt8) : List Run :=
  match runs with
  | run :: older =>
    if run.value = value ∧ run.length < longest then ⟨value, run.length + 1⟩ :: older
    else ⟨value, 1⟩ :: run :: older
  | [] => [⟨value, 1⟩]

/-- The runs of a list of bytes, each as long as it can be. -/
def runs (bytes : List UInt8) : List Run := (bytes.foldl extend []).reverse

/-- How a run is written. -/
def Run.encode (run : Run) : List UInt8 :=
  if 3 < run.length ∨ run.value = 0 then [marker, .ofNat run.length, run.value]
  else if run.value = marker then (List.replicate run.length [marker, 0]).flatten
  else run.bytes

/-- How a list of bytes is written. -/
def encode (bytes : List UInt8) : List UInt8 := (runs bytes).flatMap Run.encode

/-- Why bytes are no encoding. -/
inductive Failure
  /-- They end after a marker. -/
  | endsAfterMarker
  /-- They end after the length of a run. -/
  | endsInRun
  /-- They stand for more bytes than are wanted; so many were found. -/
  | tooLong (length : Nat)
deriving DecidableEq

/-- Decodes what follows the bytes in `out`. After each marker the bytes so far are counted, and
more than `limit` of them are refused; single bytes are not counted until then. -/
def decodeAfter (limit : Nat) (out : Array UInt8) : List UInt8 → Except Failure (Array UInt8)
  | [] => .ok out
  | b :: rest =>
    if b = marker then
      match rest with
      | [] => .error .endsAfterMarker
      | n :: rest =>
        if n = 0 then
          let out := out.push marker
          if limit < out.size then .error (.tooLong out.size) else decodeAfter limit out rest
        else
          match rest with
          | [] => .error .endsInRun
          | value :: rest =>
            let out := out ++ Array.replicate n.toNat value
            if limit < out.size then .error (.tooLong out.size) else decodeAfter limit out rest
    else decodeAfter limit (out.push b) rest

/-- The bytes that an encoding stands for. -/
def decode (limit : Nat) (bytes : List UInt8) : Except Failure (Array UInt8) :=
  decodeAfter limit #[] bytes

end Core65C02.RunLength
