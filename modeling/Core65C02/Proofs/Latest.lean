/-!
# The last assignment to a place

Where assignments follow each other, the last one that names a place decides what is there, and a
place that none of them names is as it was before. Both the bits that instructions set and clear and
the overrides of a snapshot are described in this way.
-/

namespace Core65C02

variable {α β : Type}

/-- The value of the last of some assignments that is about a place, or what was there before. -/
def latest (about : α → Bool) (value : α → β) (before : β) (xs : List α) : β :=
  ((xs.reverse.find? about).map value).getD before

/-- The first assignment matters as far as it is what was there before the others. -/
theorem latest_cons (about : α → Bool) (value : α → β) (before : β) (x : α) (xs : List α) :
    latest about value before (x :: xs) =
      latest about value (if about x then value x else before) xs := by
  unfold latest
  rw [List.reverse_cons, List.find?_append]
  cases xs.reverse.find? about with
  | some y => rfl
  | none => cases h : about x <;> simp [h]

end Core65C02
