import Core65C02.Memory

/-!
# What changed between two images

The difference of two images is reported as maximal runs of adjacent changed addresses, each with
the bytes that the later image holds there.
-/

namespace Core65C02.Memory

/-- Adjacent addresses from `start` on, with the bytes they hold. -/
structure Run where
  /-- The first address of the run. -/
  start : Nat
  /-- The bytes at `start` and the addresses after it. -/
  bytes : List UInt8
deriving DecidableEq

/-- Walks the addresses below `limit` from the top down. A changed address joins the run that starts
just above it, or opens one. -/
def changesBelow (before after : Memory) : (limit : Nat) → List Run → List Run
  | 0, runs => runs
  | limit + 1, runs =>
    if h : limit < 65536 then
      if before.bytes[limit] = after.bytes[limit] then changesBelow before after limit runs
      else match runs with
        | [] => changesBelow before after limit [⟨limit, [after.bytes[limit]]⟩]
        | run :: rest =>
          if run.start = limit + 1 then
            changesBelow before after limit (⟨limit, after.bytes[limit] :: run.bytes⟩ :: rest)
          else changesBelow before after limit (⟨limit, [after.bytes[limit]]⟩ :: run :: rest)
    else changesBelow before after limit runs

/-- The maximal runs of addresses at which `after` differs from `before`, in ascending order. -/
def changes (before after : Memory) : List Run :=
  changesBelow before after size []

end Core65C02.Memory
