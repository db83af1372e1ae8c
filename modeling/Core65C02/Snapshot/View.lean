import Core65C02.Memory

/-!
# Views of memory

A snapshot says what is in memory either byte by byte from address zero on, or by listing the
addresses that matter. Addresses that a view does not list hold zero.
-/

namespace Core65C02

/-- Bytes for some addresses, each address once and in ascending order. -/
structure Overrides where
  /-- The addresses with their bytes. -/
  entries : List (UInt16 × UInt8)
  /-- Addresses ascend, so an address occurs once. -/
  ascending : entries.Pairwise fun p q => p.1 < q.1
deriving DecidableEq

namespace Overrides

/-- No address. -/
def empty : Overrides := ⟨[], .nil⟩

instance : Inhabited Overrides := ⟨empty⟩

/-- Puts a byte at its place in an ascending list. If the address has a byte already, `settle` says
which one it has from now on. -/
def put (address : UInt16) (fresh : UInt8) (settle : UInt8 → UInt8) :
    List (UInt16 × UInt8) → List (UInt16 × UInt8)
  | [] => [(address, fresh)]
  | (a, v) :: rest =>
    if address < a then (address, fresh) :: (a, v) :: rest
    else if address = a then (a, settle v) :: rest
    else (a, v) :: put address fresh settle rest

theorem mem_put {address : UInt16} {fresh : UInt8} {settle : UInt8 → UInt8}
    {entries : List (UInt16 × UInt8)} {p : UInt16 × UInt8}
    (h : p ∈ put address fresh settle entries) : p.1 = address ∨ p ∈ entries := by
  induction entries with
  | nil => simp [put] at h; exact .inl (by rw [h])
  | cons e rest ih =>
    obtain ⟨a, v⟩ := e
    simp only [put] at h
    split at h
    · rcases List.mem_cons.mp h with rfl | h
      · exact .inl rfl
      · exact .inr h
    · split at h
      · rename_i heq
        rcases List.mem_cons.mp h with rfl | h
        · exact .inl heq.symm
        · exact .inr (List.mem_cons_of_mem _ h)
      · rcases List.mem_cons.mp h with rfl | h
        · exact .inr List.mem_cons_self
        · exact (ih h).imp_right (List.mem_cons_of_mem _)

theorem pairwise_put {address : UInt16} {fresh : UInt8} {settle : UInt8 → UInt8}
    {entries : List (UInt16 × UInt8)} (h : entries.Pairwise fun p q => p.1 < q.1) :
    (put address fresh settle entries).Pairwise fun p q => p.1 < q.1 := by
  induction entries with
  | nil => simp [put]
  | cons e rest ih =>
    obtain ⟨a, v⟩ := e
    obtain ⟨hhead, htail⟩ := List.pairwise_cons.mp h
    simp only [put]
    split
    · rename_i hlt
      refine List.pairwise_cons.mpr ⟨fun q hq => ?_, h⟩
      rcases List.mem_cons.mp hq with rfl | hq
      · exact hlt
      · exact UInt16.lt_trans hlt (hhead q hq)
    · split
      · exact List.pairwise_cons.mpr ⟨hhead, htail⟩
      · rename_i hlt hne
        refine List.pairwise_cons.mpr ⟨fun q hq => ?_, ih htail⟩
        rcases mem_put hq with hq | hq
        · rcases UInt16.lt_or_lt_of_ne hne with h' | h'
          · exact absurd h' hlt
          · exact hq ▸ h'
        · exact hhead q hq

/-- Gives an address a byte. -/
def insert (o : Overrides) (address : UInt16) (value : UInt8) : Overrides :=
  ⟨put address value (fun _ => value) o.entries, pairwise_put o.ascending⟩

/-- Gives an address a byte, unless it has one already. -/
def insertAbsent (o : Overrides) (address : UInt16) (value : UInt8) : Overrides :=
  ⟨put address value id o.entries, pairwise_put o.ascending⟩

/-- The overrides of a list in which the last byte for an address wins. The list is taken from its
end, so that a byte which is already there is the later one. -/
def ofList (entries : List (UInt16 × UInt8)) : Overrides :=
  entries.foldr (fun e o => o.insertAbsent e.1 e.2) empty

/-- The byte that is given for an address. -/
def get? (o : Overrides) (address : UInt16) : Option UInt8 := o.entries.lookup address

end Overrides

/-- What a snapshot says about memory. -/
inductive MemoryView
  /-- Bytes for some addresses; the others hold zero. -/
  | sparse (overrides : Overrides)
  /-- Bytes from address zero on; addresses past the last one hold zero. -/
  | full (bytes : Array UInt8)
deriving DecidableEq

namespace MemoryView

instance : Inhabited MemoryView := ⟨.sparse .empty⟩

/-- The byte at an address. -/
def get : MemoryView → UInt16 → UInt8
  | sparse overrides, address => (overrides.get? address).getD 0
  | full bytes, address => bytes[address.toNat]?.getD 0

/-- The addresses about which a view says something, with their bytes, in ascending order. -/
def entries : MemoryView → List (UInt16 × UInt8)
  | sparse overrides => overrides.entries
  | full bytes => (bytes.toList.take Memory.size).zipIdx.map fun (v, i) => (UInt16.ofNat i, v)

/-- Gives an address a byte. A byte past the end of a full view is not kept. -/
def set : MemoryView → UInt16 → UInt8 → MemoryView
  | sparse overrides, address, value => .sparse (overrides.insert address value)
  | full bytes, address, value => .full (bytes.setIfInBounds address.toNat value)

/-- The image that a view describes. -/
def toMemory (view : MemoryView) : Memory := Memory.zero.overlay view.entries

end MemoryView

end Core65C02
