import Core65C02.Proofs.Snapshot
import Mathlib.Data.List.Sort

/-!
# Overrides of a list

In the overrides that are made of a list the last byte for an address wins, and a list that ascends
already is taken as it is. The entries of a view, of either kind, are found on a walk over all
addresses that keeps those which the view lists.
-/

namespace Core65C02

namespace Overrides

variable {entries : List (UInt16 × UInt8)}

/-- The first entry for an address is the one that is found. -/
theorem lookup_cons_eq (a : UInt16) (v : UInt8) (entries : List (UInt16 × UInt8))
    (address : UInt16) : ((a, v) :: entries).lookup address =
      if address = a then some v else entries.lookup address := by
  rw [List.lookup_cons]
  by_cases h : address = a
  · simp [h]
  · rw [if_neg h, beq_eq_false_iff_ne.mpr h]

/-- An address in front of all listed ones gets the first place. -/
theorem put_of_lt {address : UInt16} (h : ∀ e ∈ entries, address < e.1) (fresh : UInt8)
    (settle : UInt8 → UInt8) : put address fresh settle entries = (address, fresh) :: entries := by
  cases entries with
  | nil => rfl
  | cons e entries => rw [put, if_pos (h e List.mem_cons_self)]

/-- Putting a byte at its place changes the byte of its address only. -/
theorem lookup_put (hascending : entries.Pairwise fun p q => p.1 < q.1) (address : UInt16)
    (fresh : UInt8) (settle : UInt8 → UInt8) (other : UInt16) :
    (put address fresh settle entries).lookup other =
      if other = address then some ((entries.lookup address).elim fresh settle)
      else entries.lookup other := by
  induction entries with
  | nil => exact lookup_cons_eq address fresh [] other
  | cons e entries ih =>
    obtain ⟨a, v⟩ := e
    obtain ⟨hhead, htail⟩ := List.pairwise_cons.mp hascending
    -- as in `put`: in front of the first entry, in its place, or behind it
    by_cases hlt : address < a
    · have hall : ∀ q ∈ (a, v) :: entries, address < q.1 := by
        intro q hq
        rcases List.mem_cons.mp hq with rfl | hq
        · exact hlt
        · exact UInt16.lt_trans hlt (hhead q hq)
      have hnone : ((a, v) :: entries).lookup address = none := by
        rw [List.lookup_eq_none_iff]
        intro q hq
        simpa using UInt16.ne_of_lt (hall q hq)
      rw [put_of_lt hall, lookup_cons_eq address fresh, hnone]
      rfl
    · rw [put, if_neg hlt]
      by_cases heq : address = a
      · subst heq
        rw [if_pos rfl, lookup_cons_eq, lookup_cons_eq, lookup_cons_eq, if_pos rfl]
        by_cases hother : other = address <;> simp [hother]
      · rw [if_neg heq, lookup_cons_eq, lookup_cons_eq, lookup_cons_eq, ih htail, if_neg heq]
        by_cases hother : other = a
        · subst hother
          rw [if_pos rfl, if_pos rfl, if_neg (Ne.symm heq)]
        · rw [if_neg hother, if_neg hother]

/-- A byte that is there already is kept. -/
theorem get?_insertAbsent (o : Overrides) (address : UInt16) (value : UInt8) (other : UInt16) :
    (o.insertAbsent address value).get? other =
      if other = address then some ((o.get? address).getD value) else o.get? other := by
  have h := lookup_put o.ascending address value id other
  rw [get?, insertAbsent, h, get?]
  cases o.entries.lookup address <;> rfl

/-- The first entry is put in after the others, unless there is one for its address. -/
theorem ofList_cons (e : UInt16 × UInt8) (entries : List (UInt16 × UInt8)) :
    ofList (e :: entries) = (ofList entries).insertAbsent e.1 e.2 :=
  rfl

/-- In the overrides of a list the last byte for an address wins. -/
theorem get?_ofList (entries : List (UInt16 × UInt8)) (address : UInt16) :
    (ofList entries).get? address =
      ((entries.filter fun e => e.1 = address).getLast?).map Prod.snd := by
  induction entries with
  | nil => rfl
  | cons e entries ih =>
    rw [ofList_cons, get?_insertAbsent]
    by_cases haddress : address = e.1
    · subst haddress
      rw [if_pos rfl, ih, List.filter_cons_of_pos (by simp), List.getLast?_cons]
      cases (entries.filter fun q => q.1 = e.1).getLast? <;> rfl
    · rw [if_neg haddress, ih, List.filter_cons_of_neg (by simpa using Ne.symm haddress)]

/-- A list that ascends already is taken as it is. -/
theorem entries_ofList (hascending : entries.Pairwise fun p q => p.1 < q.1) :
    (ofList entries).entries = entries := by
  induction entries with
  | nil => rfl
  | cons e entries ih =>
    obtain ⟨hhead, htail⟩ := List.pairwise_cons.mp hascending
    calc (ofList (e :: entries)).entries
      _ = put e.1 e.2 id (ofList entries).entries := rfl
      _ = put e.1 e.2 id entries := by rw [ih htail]
      _ = e :: entries := put_of_lt hhead e.2 id

/-- Overrides are made again of their entries. -/
theorem ofList_entries (o : Overrides) : ofList o.entries = o := by
  have h := entries_ofList o.ascending
  obtain ⟨entries, hascending⟩ := o
  rcases hlist : ofList entries with ⟨entries', hascending'⟩
  rw [hlist] at h
  obtain rfl : entries' = entries := h
  rfl

/-- Ascending lists with the same entries are equal. -/
theorem eq_of_ascending {entries' : List (UInt16 × UInt8)}
    (hascending : entries.Pairwise fun p q => p.1 < q.1)
    (hascending' : entries'.Pairwise fun p q => p.1 < q.1)
    (hmem : ∀ e, e ∈ entries ↔ e ∈ entries') : entries = entries' := by
  have hirrefl : Std.Irrefl fun p q : UInt16 × UInt8 => p.1 < q.1 :=
    ⟨fun p => UInt16.lt_irrefl p.1⟩
  have hantisymm : Std.Antisymm fun p q : UInt16 × UInt8 => p.1 < q.1 :=
    ⟨fun p q h h' => absurd (UInt16.lt_trans h h') (UInt16.lt_irrefl p.1)⟩
  exact hascending.eq_of_mem_iff hascending' hmem

end Overrides

namespace Memory

/-- Every address is on the list of addresses. -/
theorem mem_addresses (address : UInt16) : address ∈ addresses := by
  refine List.mem_map.mpr ⟨address.toNat, ?_, UInt16.ofNat_toNat⟩
  exact List.mem_range.mpr address.toNat_lt

/-- The list of addresses ascends. -/
theorem ascending_addresses : addresses.Pairwise fun a b => a < b := by
  rw [addresses, List.pairwise_map]
  refine List.pairwise_lt_range.imp_of_mem ?_
  intro i j hi hj hij
  have hi : i < 65536 := List.mem_range.mp hi
  have hj : j < 65536 := List.mem_range.mp hj
  rw [UInt16.lt_iff_toNat_lt, UInt16.toNat_ofNat_of_lt' hi, UInt16.toNat_ofNat_of_lt' hj]
  exact hij

end Memory

namespace MemoryView

/-- The entries of a view are found on a walk over all addresses. -/
theorem entries_eq (view : MemoryView) :
    view.entries = Memory.addresses.filterMap fun address =>
      (view.listed? address).map fun value => (address, value) := by
  refine Overrides.eq_of_ascending view.ascending_entries ?_ ?_
  · refine Memory.ascending_addresses.filterMap _ ?_
    intro a b hab p hp q hq
    obtain ⟨v, -, rfl⟩ := Option.map_eq_some_iff.mp hp
    obtain ⟨w, -, rfl⟩ := Option.map_eq_some_iff.mp hq
    exact hab
  · rintro ⟨address, value⟩
    rw [mem_entries, List.mem_filterMap]
    constructor
    · intro hlisted
      exact ⟨address, Memory.mem_addresses address, by rw [hlisted]; rfl⟩
    · rintro ⟨a, -, ha⟩
      obtain ⟨v, hlisted, heq⟩ := Option.map_eq_some_iff.mp ha
      cases heq
      exact hlisted

end MemoryView

end Core65C02
