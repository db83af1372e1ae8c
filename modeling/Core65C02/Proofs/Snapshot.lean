import Core65C02.Proofs.Byte
import Core65C02.Snapshot.Basic

/-!
# Taking over a snapshot

A snapshot is taken over by overriding an image of zeros with the entries of its view. The entries
ascend, so none replaces an earlier one, and the image holds just what the view says. Nothing but
bit 5 of the packed status is lost on the way.
-/

namespace Core65C02

namespace Memory

/-- An image has as many bytes as there are addresses. -/
@[simp] theorem length_toList (m : Memory) : m.toList.length = size := by
  simp [toList, size]

/-- An address without an override keeps its byte. -/
theorem read_overlay_of_forall_ne (m : Memory) {entries : List (UInt16 × UInt8)} {address : UInt16}
    (hentries : ∀ e ∈ entries, e.1 ≠ address) :
    (m.overlay entries).read address = m.read address := by
  induction entries generalizing m with
  | nil => rfl
  | cons e entries ih =>
    rw [List.forall_mem_cons] at hentries
    exact (ih _ hentries.2).trans (read_write_of_ne m e.2 (Ne.symm hentries.1))

/-- An override is in effect if no other one is for its address. -/
theorem read_overlay_of_mem (m : Memory) {entries : List (UInt16 × UInt8)} {e : UInt16 × UInt8}
    (hascending : entries.Pairwise fun p q => p.1 < q.1) (he : e ∈ entries) :
    (m.overlay entries).read e.1 = e.2 := by
  induction entries generalizing m with
  | nil => cases he
  | cons first entries ih =>
    obtain ⟨hfirst, hascending⟩ := List.pairwise_cons.mp hascending
    rcases List.mem_cons.mp he with rfl | he
    · have hothers : ∀ q ∈ entries, q.1 ≠ e.1 := fun q hq =>
        (UInt16.ne_of_lt (hfirst q hq)).symm
      exact (read_overlay_of_forall_ne _ hothers).trans (read_write_self m e.1 e.2)
    · exact ih _ hascending he

end Memory

namespace Overrides

/-- The byte that is given for an address is the one that is listed with it. -/
theorem get?_eq_some_iff {o : Overrides} {address : UInt16} {value : UInt8} :
    o.get? address = some value ↔ (address, value) ∈ o.entries := by
  obtain ⟨entries, hascending⟩ := o
  unfold get?
  induction entries with
  | nil => simp
  | cons e entries ih =>
    obtain ⟨hfirst, hrest⟩ := List.pairwise_cons.mp hascending
    obtain ⟨a, v⟩ := e
    rw [List.lookup_cons, List.mem_cons]
    by_cases h : address = a
    · subst h
      have hothers : (address, value) ∉ entries := fun hmem =>
        UInt16.lt_irrefl address (hfirst _ hmem)
      simp [hothers, eq_comm]
    · rw [beq_eq_false_iff_ne.mpr h]
      simpa [h] using ih hrest

end Overrides

namespace MemoryView

/-- The byte that a view lists for an address. -/
def listed? : MemoryView → UInt16 → Option UInt8
  | sparse overrides, address => overrides.get? address
  | full bytes, address => bytes[address.toNat]?

/-- A byte that a view does not list is zero in it. -/
theorem get_eq (view : MemoryView) (address : UInt16) :
    view.get address = (view.listed? address).getD 0 := by
  cases view <;> rfl

/-- The entries are what is listed. A full view lists its bytes with their positions as addresses,
as far as there are addresses. -/
theorem mem_entries {view : MemoryView} {address : UInt16} {value : UInt8} :
    (address, value) ∈ view.entries ↔ view.listed? address = some value := by
  cases view with
  | sparse overrides => exact Overrides.get?_eq_some_iff.symm
  | full bytes =>
    have haddress : address.toNat < Memory.size := address.toNat_lt
    simp only [entries, listed?, List.mem_map, Prod.mk.injEq, List.mem_zipIdx_iff_getElem?]
    constructor
    · rintro ⟨⟨v, i⟩, hv, rfl, rfl⟩
      obtain ⟨hi, _⟩ := List.getElem?_eq_some_iff.mp hv
      rw [List.length_take] at hi
      have hsize : i < Memory.size := Nat.lt_of_lt_of_le hi (Nat.min_le_left _ _)
      have htoNat : (UInt16.ofNat i).toNat = i := UInt16.toNat_ofNat_of_lt' hsize
      rw [List.getElem?_take_of_lt hsize, Array.getElem?_toList] at hv
      rwa [htoNat]
    · intro h
      refine ⟨(value, address.toNat), ?_, UInt16.ofNat_toNat, rfl⟩
      rw [List.getElem?_take_of_lt haddress]
      simpa using h

/-- The entries of a view ascend by their addresses. -/
theorem ascending_entries (view : MemoryView) : view.entries.Pairwise fun p q => p.1 < q.1 := by
  cases view with
  | sparse overrides => exact overrides.ascending
  | full bytes =>
    unfold entries
    rw [List.pairwise_map, List.pairwise_iff_getElem]
    intro i j hi hj hij
    simp only [List.getElem_zipIdx, Nat.zero_add]
    have hsize : j < 65536 := by
      rw [List.length_zipIdx, List.length_take] at hj
      exact Nat.lt_of_lt_of_le hj (Nat.min_le_left _ _)
    rw [UInt16.lt_iff_toNat_lt, UInt16.toNat_ofNat', UInt16.toNat_ofNat',
      Nat.mod_eq_of_lt (Nat.lt_trans hij hsize), Nat.mod_eq_of_lt hsize]
    exact hij

/-- The image of a view holds what the view says. -/
theorem read_toMemory (view : MemoryView) (address : UInt16) :
    view.toMemory.read address = view.get address := by
  rw [get_eq, toMemory]
  cases h : view.listed? address with
  | some value =>
    exact Memory.read_overlay_of_mem _ view.ascending_entries (mem_entries.mpr h)
  | none =>
    have hentries : ∀ e ∈ view.entries, e.1 ≠ address := fun e he haddress => by
      subst haddress
      rw [mem_entries.mp he] at h
      cases h
    rw [Memory.read_overlay_of_forall_ne _ hentries, Memory.read_zero]
    rfl

/-- The full view of an image describes the image. -/
theorem toMemory_full (m : Memory) : (full m.bytes.toArray).toMemory = m := by
  refine Memory.ext_read fun address => ?_
  have haddress : address.toNat < m.bytes.toArray.size := by
    rw [Vector.size_toArray]
    exact address.toNat_lt
  rw [read_toMemory, get, Array.getElem?_eq_getElem haddress]
  rfl

end MemoryView

namespace StatusFlags

/-- Packing loses no flag. -/
theorem unpack_pack (s : StatusFlags) : unpack s.pack = s := by
  obtain ⟨c, z, i, d, b, v, n⟩ := s
  revert c z i d b v n
  decide

/-- Unpacking loses no bit behind which a flag stands. -/
theorem pack_unpack (p : UInt8) : (unpack p).pack = p &&& modeledMask := by
  revert p
  decide +kernel

end StatusFlags

end Core65C02
