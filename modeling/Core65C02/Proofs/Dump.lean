import Core65C02.Proofs.Hexadecimal
import Core65C02.Proofs.Snapshot.RoundTrip
import Core65C02.Proofs.Standard

/-!
# Listings of memory

Memory is listed in three ways: as its entries other than zero, as the lines of the text that an
instruction reports, and as the entries of the raw state of a processor. An image has one listing
only, and lines tell which entries they stand for, so each of the three says what the whole image
is. The main statement is that they agree about every image, and that to list it in a report is all
that the instruction does.
-/

namespace Core65C02

namespace Text

/-- The lines of a text, without their ends. -/
def lines (text : String) : List String := (text.toList.splitOn '\n').map String.ofList

/-- To put a separator between parts is to put it before each but the first. -/
theorem intercalate_eq_append {α : Type} (separator : α) (first : List α) (rest : List (List α)) :
    [separator].intercalate (first :: rest) =
      first ++ rest.flatMap fun line => separator :: line := by
  induction rest generalizing first with
  | nil => simp
  | cons line rest ih =>
    rw [List.intercalate_cons_cons, ih, List.flatMap_cons, List.append_assoc]
    rfl

/-- Lines that follow each other after ends of line are found again. -/
theorem lines_append_join {first : String} {rest : List String}
    (hlines : ∀ line ∈ first :: rest, '\n' ∉ line.toList) :
    lines (first ++ String.join (rest.map fun line => "\n" ++ line)) = first :: rest := by
  have htext : (first ++ String.join (rest.map fun line => "\n" ++ line)).toList =
      ['\n'].intercalate ((first :: rest).map String.toList) := by
    rw [List.map_cons, intercalate_eq_append, String.toList_append, String.toList_join,
      List.flatMap_map, List.flatMap_map]
    simp only [String.toList_append]
    rfl
  rw [lines, htext, List.splitOn_intercalate]
  · simp
  · simpa using hlines
  · simp

end Text

namespace Memory

/-- What the listing of an image is: every address that holds a byte other than zero, with that
byte, in ascending order. -/
structure Lists (m : Memory) (entries : List (UInt16 × UInt8)) : Prop where
  /-- The entries are the addresses with their bytes. -/
  mem_iff : ∀ address value, (address, value) ∈ entries ↔ m.read address = value ∧ value ≠ 0
  /-- Addresses ascend, so each occurs once. -/
  ascending : entries.Pairwise fun p q => p.1 < q.1

variable {m m' : Memory} {entries entries' : List (UInt16 × UInt8)}

/-- The entries of an image other than zero are its listing. -/
theorem lists_nonZero (m : Memory) : m.Lists m.nonZero where
  mem_iff := by
    intro address value
    simp only [nonZero, List.mem_filter, List.mem_map, Prod.mk.injEq, bne_iff_ne]
    constructor
    · rintro ⟨⟨_, -, rfl, hvalue⟩, hne⟩
      exact ⟨hvalue, hne⟩
    · rintro ⟨hvalue, hne⟩
      exact ⟨⟨address, mem_addresses address, rfl, hvalue⟩, hne⟩
  ascending := by
    refine List.Pairwise.filter _ ?_
    rw [List.pairwise_map]
    exact ascending_addresses

/-- An image has one listing. -/
theorem Lists.unique (h : m.Lists entries) (h' : m.Lists entries') : entries = entries' := by
  apply Overrides.eq_of_ascending h.ascending h'.ascending
  rintro ⟨address, value⟩
  rw [h.mem_iff, h'.mem_iff]

/-- A listing is the listing of one image. -/
theorem Lists.injective (h : m.Lists entries) (h' : m'.Lists entries) : m = m' := by
  apply ext_read
  intro address
  have hagree (value : UInt8) (hne : value ≠ 0) :
      m.read address = value ↔ m'.read address = value := by
    have hmem := (h.mem_iff address value).symm.trans (h'.mem_iff address value)
    simpa [hne] using hmem
  -- a byte that is zero is not listed, and then it is zero in the other image too
  by_cases hzero : m.read address = 0
  · by_contra hne
    have hne' : m'.read address ≠ 0 := fun hzero' => hne (hzero.trans hzero'.symm)
    exact hne ((hagree _ hne').mpr rfl)
  · exact ((hagree _ hzero).mp rfl).symm

/-- An image with one byte other than zero has that byte for its listing. -/
theorem lists_zero_write (address : UInt16) {value : UInt8} (hvalue : value ≠ 0) :
    (zero.write address value).Lists [(address, value)] where
  mem_iff := by
    intro other value'
    rw [read_write, read_zero, List.mem_singleton, Prod.mk.injEq]
    by_cases hother : other = address
    · rw [if_pos hother]
      constructor
      · rintro ⟨-, rfl⟩
        exact ⟨rfl, hvalue⟩
      · rintro ⟨rfl, -⟩
        exact ⟨hother, rfl⟩
    · rw [if_neg hother]
      constructor
      · exact fun h => absurd h.1 hother
      · exact fun h => absurd h.1.symm h.2
  ascending := List.pairwise_singleton _ _

end Memory

/-- What is exchanged of the full view of an image is its listing. -/
theorem Snapshot.lists_exchanged (m : Memory) :
    m.Lists (exchanged (.full m.bytes.toArray)) where
  mem_iff := by
    intro address value
    have hlisted : (MemoryView.full m.bytes.toArray).listed? address = some (m.read address) := by
      rw [MemoryView.listed?, Vector.getElem?_toArray]
      exact Vector.getElem?_eq_getElem address.toNat_lt
    rw [exchanged, List.mem_filter, MemoryView.mem_entries, hlisted, Option.some_inj, bne_iff_ne]
  ascending := ascending_exchanged _

namespace Operation

/-- The line of a memory dump for one byte, without what separates it from the line before. -/
def entryLine (entry : UInt16 × UInt8) : String :=
  "[" ++ Hex.address entry.1 ++ "] = " ++ Hex.byte entry.2

/-- An entry of a report is its line behind the end of the line before. -/
theorem dumpLine_eq (entry : UInt16 × UInt8) : dumpLine entry = "\n" ++ entryLine entry := by
  rw [← String.toList_inj]
  simp [dumpLine, entryLine]

/-- The line of an entry is one line. -/
theorem newline_notMem_entryLine (entry : UInt16 × UInt8) : '\n' ∉ (entryLine entry).toList := by
  simp [entryLine, Hex.newline_notMem_address, Hex.newline_notMem_byte]

/-- A line tells which entry it stands for, for its columns have fixed widths. -/
theorem entryLine_inj {e e' : UInt16 × UInt8} (h : entryLine e = entryLine e') : e = e' := by
  simp only [entryLine, String.append_assoc, String.append_right_inj] at h
  obtain ⟨haddress, h⟩ := Hex.address_append_inj.mp h
  exact Prod.ext haddress (Hex.byte_inj.mp ((String.append_right_inj _).mp h))

/-- Below the heading, a memory dump has one line for each entry of the listing. -/
theorem lines_dumpText (m : Memory) :
    Text.lines (dumpText m) = "Memory Dump:" :: m.nonZero.map entryLine := by
  have hlines : m.nonZero.map dumpLine =
      (m.nonZero.map entryLine).map fun line => "\n" ++ line := by
    rw [List.map_map]
    apply List.map_congr_left
    intro e _
    exact dumpLine_eq e
  rw [dumpText, hlines]
  refine Text.lines_append_join ?_
  rw [List.forall_mem_cons, List.forall_mem_map]
  exact ⟨by decide, fun e _ => newline_notMem_entryLine e⟩

/-- Equal memory dumps are of equal images. -/
theorem dumpText_inj {m m' : Memory} (h : dumpText m = dumpText m') : m = m' := by
  have hlines := congrArg Text.lines h
  rw [lines_dumpText, lines_dumpText] at hlines
  obtain ⟨-, hentries⟩ := List.cons_eq_cons.mp hlines
  have hnonZero : m.nonZero = m'.nonZero :=
    List.map_inj_right (fun _ _ => entryLine_inj) |>.mp hentries
  have hlists := m.lists_nonZero
  rw [hnonZero] at hlists
  exact hlists.injective m'.lists_nonZero

end Operation

namespace Cpu

/-- The instruction at PC has the descriptor `d` and reports what is in memory. -/
structure Dumps (c : Cpu) (d : Descriptor) : Prop where
  /-- The program has not ended. -/
  running : c.halted = false
  /-- The opcode at PC is in the table. -/
  described : c.descriptor? = some d
  /-- Its mnemonic has the operation. -/
  operation : c.dispatch d.mnemonic = some .dumpMemory

/-- Reporting what is in memory takes the processor past the instruction and does nothing else. -/
theorem Dumps.step_eq {c : Cpu} {d : Descriptor} (h : c.Dumps d) :
    c.step =
      ⟨{ c with
          pc := c.pc + 1, last := some ⟨d, c.pc, 0⟩
          totalCycles := c.totalCycles + d.cycles.toNat },
        .ok .proceed, [Operation.dumpText c.memory]⟩ := by
  rw [(StepsTo.executed h.running d h.described .dumpMemory h.operation _ rfl).step_eq, executed_eq]
  rfl

/-- With the dispatch of the standard set, the instruction is the one of its opcode. -/
theorem dumps_of_opcode {c : Cpu} (hrunning : c.halted = false) (hopcode : c.opcode = 0x13)
    (hdispatch : c.dispatch = .standard) : c.Dumps (.single 0x13 .dmp .implied 1) where
  running := hrunning
  described := by
    rw [descriptor?, hopcode]
    decide +kernel
  operation := by
    rw [hdispatch]
    rfl

/-- Every image has one listing, and the entries other than zero, the raw state of a processor and
the lines of the report that the instruction makes are this listing. The report is the only one; the
step succeeds and changes PC, the record of the last instruction and the count of cycles, and
nothing else. No line can be taken for that of another entry, so processors whose reports are equal
have equal memories. -/
theorem listings_agree :
    (∀ c : Cpu, ∃ entries, c.memory.Lists entries ∧
      (∀ entries', c.memory.Lists entries' → entries' = entries) ∧
      c.memory.nonZero = entries ∧
      c.snapshot.toRaw.ram = entries.map (fun e => (e.1.toNat, e.2.toNat)) ∧
      ∀ d, c.Dumps d → ∃ text,
        Text.lines text = "Memory Dump:" :: entries.map Operation.entryLine ∧
        c.step =
          ⟨{ c with
              pc := c.pc + 1, last := some ⟨d, c.pc, 0⟩
              totalCycles := c.totalCycles + d.cycles.toNat },
            .ok .proceed, [text]⟩) ∧
    (∀ e e', Operation.entryLine e = Operation.entryLine e' → e = e') ∧
    ∀ (c c' : Cpu) (d d' : Descriptor), c.Dumps d → c'.Dumps d' → c.step.report = c'.step.report →
      c.memory = c'.memory := by
  refine ⟨?_, ?_, ?_⟩
  · intro c
    have hlists := c.memory.lists_nonZero
    have hexchanged : Snapshot.exchanged c.snapshot.memory = c.memory.nonZero :=
      (Snapshot.lists_exchanged c.memory).unique hlists
    refine ⟨c.memory.nonZero, hlists, fun _ h => h.unique hlists, rfl, ?_, ?_⟩
    · rw [Snapshot.toRaw, hexchanged]
    · intro d hdumps
      exact ⟨_, Operation.lines_dumpText c.memory, hdumps.step_eq⟩
  · intro e e' hline
    exact Operation.entryLine_inj hline
  · intro c c' d d' hdumps hdumps' hreport
    rw [hdumps.step_eq, hdumps'.step_eq] at hreport
    exact Operation.dumpText_inj (List.singleton_inj.mp hreport)

/-- A processor whose memory holds the instruction and nothing else. -/
def dumping : Cpu where
  memory := Memory.zero.write 0 0x13

/-- Registers and counters make no difference to what is reported, and this is what the raw state
lists. -/
theorem listings_agree_dumping :
    let other : Cpu := { dumping with a := 7, totalCycles := 9 }
    dumping.Dumps (.single 0x13 .dmp .implied 1) ∧ other.Dumps (.single 0x13 .dmp .implied 1) ∧
      (∃ text, dumping.step.report = [text] ∧ other.step.report = [text] ∧
        Text.lines text = ["Memory Dump:", "[0000] = 13"]) ∧
      dumping.snapshot.toRaw.ram = [(0, 0x13)] ∧ other.memory = dumping.memory := by
  intro other
  obtain ⟨hlisted, -, hinj⟩ := listings_agree
  have hopcode : dumping.opcode = 0x13 := by
    simp [opcode, dumping, Memory.read_write]
  have hdumps : dumping.Dumps (.single 0x13 .dmp .implied 1) := dumps_of_opcode rfl hopcode rfl
  have hdumps' : other.Dumps (.single 0x13 .dmp .implied 1) := dumps_of_opcode rfl hopcode rfl
  obtain ⟨entries, -, hunique, -, hram, hreport⟩ := hlisted dumping
  obtain rfl := hunique _ (Memory.lists_zero_write 0 (by decide))
  obtain ⟨text, hlines, hstep⟩ := hreport _ hdumps
  have hsame : other.step.report = dumping.step.report := by
    rw [hdumps'.step_eq, hdumps.step_eq]
  have htext : dumping.step.report = [text] := by rw [hstep]
  exact ⟨hdumps, hdumps', ⟨text, htext, hsame.trans htext, hlines⟩, hram,
    hinj other dumping _ _ hdumps' hdumps hsame⟩

end Cpu

end Core65C02
