import Core65C02.Proofs.Opcode
import Core65C02.Proofs.Step
import Mathlib.Data.List.Dedup

/-!
# Tables of rows

A table that is made of rows can be looked up by opcode, walked, counted and searched for a
mnemonic. All of these are derived from one place for each opcode, so a row that was replaced is
gone from each of them. The main statement says for rows of any number, in which opcodes may repeat,
what each of the views shows.
-/

namespace Core65C02

namespace OpcodeTable

/-- The opcodes in ascending order. -/
def opcodes : List UInt8 := (List.range 256).map UInt8.ofNat

/-- Every byte is on the list of opcodes. -/
theorem mem_opcodes (opcode : UInt8) : opcode ∈ opcodes :=
  List.mem_map.mpr ⟨opcode.toNat, List.mem_range.mpr opcode.toNat_lt, UInt8.ofNat_toNat⟩

/-- The list of opcodes ascends. -/
theorem ascending_opcodes : opcodes.Pairwise fun a b => a < b := by
  rw [opcodes, List.pairwise_map]
  refine List.pairwise_lt_range.imp_of_mem ?_
  intro i j hi hj hij
  have hi : i < 256 := List.mem_range.mp hi
  have hj : j < 256 := List.mem_range.mp hj
  rw [UInt8.lt_iff_toNat_lt, UInt8.toNat_ofNat_of_lt' hi, UInt8.toNat_ofNat_of_lt' hj]
  exact hij

/-- The rows of a table are found on a walk over all opcodes. -/
theorem toList_eq (table : OpcodeTable) : table.toList = opcodes.filterMap table.get? := by
  have hentries : table.entries.toList = opcodes.map table.get? := by
    refine List.ext_getElem (by simp [opcodes]) fun i hi _ => ?_
    have hlt : i < 256 := by simpa using hi
    have htoNat : (UInt8.ofNat i).toNat = i := UInt8.toNat_ofNat_of_lt' hlt
    simp [opcodes, get?, htoNat]
  rw [toList, hentries, List.filterMap_map]
  rfl

section Rows

variable (rows : List Descriptor)

/-- The last row for an opcode is the one that is found. -/
theorem get?_ofList_eq_getLast? (opcode : UInt8) :
    (ofList rows).get? opcode = (rows.filter fun d => d.opcode = opcode).getLast? := by
  rw [get?_ofList, List.getLast?_filter]
  rfl

/-- What is found under an opcode is there if the opcode is listed. -/
theorem exists_get?_ofList_iff (opcode : UInt8) :
    (∃ d, (ofList rows).get? opcode = some d) ↔ opcode ∈ rows.map Descriptor.opcode := by
  rw [get?_ofList, ← Option.isSome_iff_exists, List.find?_isSome, List.mem_map]
  simp

/-- A row is on the walk if it is found under its own opcode. -/
theorem mem_toList_ofList (d : Descriptor) :
    d ∈ (ofList rows).toList ↔ (ofList rows).get? d.opcode = some d := by
  rw [toList_eq, List.mem_filterMap]
  constructor
  · rintro ⟨opcode, -, hd⟩
    rwa [(mem_of_get?_ofList hd).2]
  · exact fun hd => ⟨d.opcode, mem_opcodes d.opcode, hd⟩

/-- The rows on the walk ascend by their opcodes. -/
theorem ascending_toList_ofList :
    (ofList rows).toList.Pairwise fun d e => d.opcode < e.opcode := by
  rw [toList_eq]
  refine ascending_opcodes.filterMap _ ?_
  intro a b hab d hd e he
  rw [(mem_of_get?_ofList hd).2, (mem_of_get?_ofList he).2]
  exact hab

/-- The walk meets no opcode twice. -/
theorem nodup_opcodes_ofList : ((ofList rows).toList.map Descriptor.opcode).Nodup :=
  List.pairwise_map.mpr ((ascending_toList_ofList rows).imp UInt8.ne_of_lt)

/-- The opcodes on the walk are those of the rows, each once. -/
theorem opcodes_toList_perm :
    ((ofList rows).toList.map Descriptor.opcode).Perm (rows.map Descriptor.opcode).dedup := by
  refine (List.perm_ext_iff_of_nodup (nodup_opcodes_ofList rows) (List.nodup_dedup _)).mpr ?_
  intro opcode
  rw [List.mem_dedup, ← exists_get?_ofList_iff rows, List.mem_map]
  constructor
  · rintro ⟨d, hd, rfl⟩
    exact ⟨d, (mem_toList_ofList rows d).mp hd⟩
  · rintro ⟨d, hd⟩
    obtain ⟨-, rfl⟩ := mem_of_get?_ofList hd
    exact ⟨d, (mem_toList_ofList rows d).mpr hd, rfl⟩

/-- A table has as many rows as there are different opcodes among those that it was made of. -/
theorem length_ofList : (ofList rows).length = (rows.map Descriptor.opcode).dedup.length := by
  rw [← (opcodes_toList_perm rows).length_eq, List.length_map]
  rfl

/-- A table is empty if it was made of no rows. -/
theorem isEmpty_ofList_iff : (ofList rows).isEmpty = true ↔ rows = [] := by
  rw [isEmpty, beq_iff_eq, length_ofList, List.length_eq_zero_iff, List.dedup_eq_nil,
    List.map_eq_nil_iff]

/-- Rows of different mnemonics are different. -/
theorem disjoint_byMnemonic (table : OpcodeTable) {m m' : Mnemonic} (hne : m ≠ m') :
    (table.byMnemonic m).Disjoint (table.byMnemonic m') := by
  intro d hd hd'
  have hm : d.mnemonic = m := by simpa using (List.mem_filter.mp hd).2
  have hm' : d.mnemonic = m' := by simpa using (List.mem_filter.mp hd').2
  exact hne (hm.symm.trans hm')

/-- The list of mnemonics names each of them once. -/
theorem nodup_mnemonics : Mnemonic.all.Nodup := by
  decide +kernel

/-- The rows of all mnemonics are the rows of the table. -/
theorem byMnemonic_perm :
    (Mnemonic.all.flatMap (ofList rows).byMnemonic).Perm (ofList rows).toList := by
  have hnodup : (ofList rows).toList.Nodup := (nodup_opcodes_ofList rows).of_map
  refine (List.perm_ext_iff_of_nodup ?_ hnodup).mpr fun d => ?_
  · refine List.nodup_flatMap.mpr ⟨fun m _ => hnodup.filter _, ?_⟩
    exact nodup_mnemonics.imp fun hne => disjoint_byMnemonic _ hne
  · rw [List.mem_flatMap]
    constructor
    · rintro ⟨m, -, hd⟩
      exact List.mem_of_mem_filter hd
    · intro hd
      exact ⟨d.mnemonic, d.mnemonic.mem_all, List.mem_filter.mpr ⟨hd, beq_self_eq_true _⟩⟩

end Rows

/-- What the views of a table show of the rows that it was made of. -/
structure Shows (table : OpcodeTable) (rows : List Descriptor) : Prop where
  /-- Under an opcode the last row for it is found, and none if there is none. -/
  get?_eq : ∀ opcode, table.get? opcode = (rows.filter fun d => d.opcode = opcode).getLast?
  /-- To look an opcode up is to find this row, or a fault that names the opcode and where it was
  fetched. -/
  lookup_eq : ∀ opcode pc, table.lookup opcode pc =
    ((rows.filter fun d => d.opcode = opcode).getLast?).elim
      (.error (.unsupportedInstruction opcode pc)) .ok
  /-- The rows that are found are on the walk, and no others. -/
  mem_toList : ∀ d, d ∈ table.toList ↔ ∃ opcode, table.get? opcode = some d
  /-- The walk goes through the opcodes in ascending order and meets each at most once. -/
  ascending : table.toList.Pairwise fun d e => d.opcode < e.opcode
  /-- Each opcode counts once. -/
  length_eq : table.length = (rows.map Descriptor.opcode).dedup.length
  /-- A table is empty if no row was listed. -/
  isEmpty_iff : table.isEmpty = true ↔ rows = []
  /-- The rows of a mnemonic stand in the order of the walk. -/
  byMnemonic_sublist : ∀ m, (table.byMnemonic m).Sublist table.toList
  /-- They are the rows of the walk that have the mnemonic. -/
  mem_byMnemonic : ∀ m d, d ∈ table.byMnemonic m ↔ d ∈ table.toList ∧ d.mnemonic = m
  /-- No row has two mnemonics. -/
  disjoint : ∀ m m', m ≠ m' → (table.byMnemonic m).Disjoint (table.byMnemonic m')
  /-- Every row of the walk has a mnemonic. -/
  covered : (Mnemonic.all.flatMap table.byMnemonic).Perm table.toList

/-- A table is a map in which the last row for an opcode wins, and all its views agree about that:
what is found under an opcode or looked up, the walk in ascending order, the count of opcodes, and
the rows of each mnemonic, which make up the walk. -/
theorem ofList_shows (rows : List Descriptor) : (ofList rows).Shows rows where
  get?_eq := get?_ofList_eq_getLast? rows
  lookup_eq := by
    intro opcode pc
    rw [OpcodeTable.lookup_eq, get?_ofList_eq_getLast?]
  mem_toList := by
    intro d
    rw [mem_toList_ofList]
    constructor
    · exact fun hd => ⟨d.opcode, hd⟩
    · rintro ⟨opcode, hd⟩
      rwa [(mem_of_get?_ofList hd).2]
  ascending := ascending_toList_ofList rows
  length_eq := length_ofList rows
  isEmpty_iff := isEmpty_ofList_iff rows
  byMnemonic_sublist := fun _ => List.filter_sublist
  mem_byMnemonic := by
    intro m d
    rw [byMnemonic, List.mem_filter, beq_iff_eq]
  disjoint := fun _ _ hne => disjoint_byMnemonic _ hne
  covered := byMnemonic_perm rows

/-- A row that is replaced by one of another mnemonic is gone. -/
example : ((ofList [.single 0x0A .asl .accumulator 2, .single 0xEA .nop .implied 2,
    .single 0x0A .inc .accumulator 3]).byMnemonic .asl).length = 0 := by
  decide +kernel

end OpcodeTable

end Core65C02
