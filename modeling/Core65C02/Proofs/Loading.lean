import Core65C02.Cpu.Basic
import Core65C02.Proofs.Word

/-!
# Loading at the edges of memory

Bytes are loaded one after the other and stop at the last address, while the two bytes of a word go
around the end of the space. What is in memory after a load is said address by address, for bytes of
any number and any start. The main statement collects what this means: which bytes arrive and which
are dropped, that loads in succession are one load, that words are read as they were written, and
that a program is loaded into a processor of which nothing but memory and dispatch is left.
-/

namespace Core65C02

namespace Memory

/-- A byte that is placed below the end of the space is written, and the next one is placed behind
it. -/
theorem place_cons_of_lt (m : Memory) (b : UInt8) (rest : List UInt8) {start : Nat}
    (hstart : start < 65536) :
    place (b :: rest) start m = place rest (start + 1) (m.write (.ofNat start) b) := by
  have htoNat : (UInt16.ofNat start).toNat = start := UInt16.toNat_ofNat_of_lt' hstart
  rw [place, dif_pos hstart]
  simp only [write, htoNat]

/-- Behind the end of the address space nothing is put into memory. -/
theorem place_of_le (m : Memory) (bytes : List UInt8) {start : Nat} (hstart : 65536 ≤ start) :
    place bytes start m = m := by
  cases bytes with
  | nil => rfl
  | cons b rest => rw [place, dif_neg (Nat.not_lt.mpr hstart)]

/-- An address holds the byte that is placed there, or what it held before. -/
theorem read_place (m : Memory) (bytes : List UInt8) (start : Nat) (address : UInt16) :
    (place bytes start m).read address =
      if start ≤ address.toNat then bytes[address.toNat - start]?.getD (m.read address)
      else m.read address := by
  have haddress := address.toNat_lt
  induction bytes generalizing start m with
  | nil => simp [place]
  | cons b rest ih =>
    by_cases hstart : start < 65536
    · have hwritten : (m.write (.ofNat start) b).read address =
          if address.toNat = start then b else m.read address := by
        rw [read_write]
        simp only [← UInt16.toNat_inj, UInt16.toNat_ofNat_of_lt' hstart]
      rw [place_cons_of_lt m b rest hstart, ih, hwritten]
      -- in front of the byte, at its address, or behind it
      rcases Nat.lt_trichotomy address.toNat start with hlt | hat | hgt
      · rw [if_neg (show ¬ start + 1 ≤ address.toNat by omega), if_neg (Nat.ne_of_lt hlt),
          if_neg (Nat.not_le.mpr hlt)]
      · rw [if_neg (show ¬ start + 1 ≤ address.toNat by omega), if_pos hat,
          if_pos (Nat.le_of_eq hat.symm), hat, Nat.sub_self]
        rfl
      · have hindex : address.toNat - start = address.toNat - (start + 1) + 1 := by omega
        rw [if_pos (show start + 1 ≤ address.toNat from hgt), if_neg (Nat.ne_of_gt hgt),
          if_pos (Nat.le_of_lt hgt), hindex, List.getElem?_cons_succ]
    · rw [place_of_le m _ (by omega), if_neg (by omega)]

/-- What is loaded can be read from the start on, as far as it fits, and everything else is as it
was. -/
theorem read_load (m : Memory) (bytes : List UInt8) (start address : UInt16) :
    (m.load bytes start).read address =
      if start.toNat ≤ address.toNat then
        bytes[address.toNat - start.toNat]?.getD (m.read address)
      else m.read address :=
  m.read_place bytes start.toNat address

/-- What loading bytes leads to: the first `count` of them, which are as many as there are addresses
for, are at the start and behind it, and no other address has changed. -/
structure Loads (m m' : Memory) (bytes : List UInt8) (start : UInt16) (count : Nat) : Prop where
  /-- Either all bytes are loaded or all addresses from the start on are used. -/
  count_eq : count = min bytes.length (65536 - start.toNat)
  /-- The loaded bytes follow each other, and none goes around the end of the space. -/
  loaded : ∀ i < count, (start + .ofNat i).toNat = start.toNat + i ∧
    bytes[i]? = some (m'.read (start + .ofNat i))
  /-- The other addresses are as before. -/
  kept : ∀ address : UInt16, address.toNat < start.toNat ∨ start.toNat + count ≤ address.toNat →
    m'.read address = m.read address

/-- Addresses do not wrap around as long as they are in the address space. -/
theorem toNat_add_ofNat {start : UInt16} {i : Nat} (h : start.toNat + i < 65536) :
    (start + .ofNat i).toNat = start.toNat + i := by
  rw [UInt16.toNat_add, UInt16.toNat_ofNat', Nat.add_mod_mod, Nat.mod_eq_of_lt h]

/-- A program is loaded as it should be. -/
theorem loads_load (m : Memory) (bytes : List UInt8) (start : UInt16) :
    m.Loads (m.load bytes start) bytes start (loadedCount bytes.length start) where
  count_eq := rfl
  loaded := by
    intro i hi
    have hlength : i < bytes.length := Nat.lt_of_lt_of_le hi (Nat.min_le_left _ _)
    have hspace : i < 65536 - start.toNat := Nat.lt_of_lt_of_le hi (Nat.min_le_right _ _)
    have htoNat := @toNat_add_ofNat start i (by omega)
    refine ⟨htoNat, ?_⟩
    rw [read_load, htoNat, if_pos (Nat.le_add_right _ _), Nat.add_sub_cancel_left,
      List.getElem?_eq_getElem hlength]
    rfl
  kept := by
    intro address haddress
    have hlt := address.toNat_lt
    have hcount : loadedCount bytes.length start = min bytes.length (65536 - start.toNat) := rfl
    rw [read_load]
    by_cases hstart : start.toNat ≤ address.toNat
    · have hnone : bytes[address.toNat - start.toNat]? = none := by
        rw [List.getElem?_eq_none_iff]
        omega
      rw [if_pos hstart, hnone]
      rfl
    · rw [if_neg hstart]

/-- Bytes that are loaded behind others are loaded with them. -/
theorem load_load (m : Memory) (xs ys : List UInt8) {start : UInt16}
    (hspace : start.toNat + xs.length < 65536) :
    (m.load xs start).load ys (start + .ofNat xs.length) = m.load (xs ++ ys) start := by
  apply ext_read
  intro address
  rw [read_load, read_load, read_load, toNat_add_ofNat hspace, List.getElem?_append]
  by_cases hxs : address.toNat - start.toNat < xs.length
  · rw [if_neg (by omega), if_pos hxs]
  · rw [if_neg hxs, Nat.sub_sub]
    by_cases hstart : start.toNat ≤ address.toNat
    · rw [if_pos (by omega), if_pos hstart, if_pos hstart,
        List.getElem?_eq_none_iff.mpr (Nat.not_lt.mp hxs)]
      rfl
    · have hempty : xs.length = 0 := by omega
      rw [if_neg (by omega), if_neg hstart, if_neg hstart]

/-- What is loaded in two parts is as long as what is loaded at once, if the first part leaves space
for more. -/
theorem loadedCount_add {xs ys : List UInt8} {start : UInt16}
    (hspace : start.toNat + xs.length < 65536) :
    loadedCount xs.length start + loadedCount ys.length (start + .ofNat xs.length) =
      loadedCount (xs ++ ys).length start := by
  simp only [loadedCount, size, toNat_add_ofNat hspace, List.length_append]
  omega

/-- An address is not the next one. -/
theorem ne_add_one (address : UInt16) : address ≠ address + 1 := by
  intro h
  have htoNat := congrArg UInt16.toNat h
  rw [UInt16.toNat_add] at htoNat
  change address.toNat = (address.toNat + 1) % 65536 at htoNat
  have hlt := address.toNat_lt
  omega

/-- A word is read as it was written. -/
theorem readWord_writeWord (m : Memory) (address value : UInt16) :
    (m.writeWord address value).readWord address = value := by
  have hlow : (m.writeWord address value).read address = value.toUInt8 := by
    rw [writeWord, read_write_of_ne _ _ (ne_add_one address), read_write_self]
  have hhigh : (m.writeWord address value).read (address + 1) = (value >>> 8).toUInt8 :=
    read_write_self _ _ _
  calc (m.writeWord address value).readWord address
    _ = wordOf ((m.writeWord address value).read (address + 1))
          ((m.writeWord address value).read address) := rfl
    _ = value := by rw [hlow, hhigh, wordOf_bytes]

/-- A word that is written changes nothing but its two bytes. -/
theorem read_writeWord_of_ne (m : Memory) (value : UInt16) {address other : UInt16}
    (hlow : other ≠ address) (hhigh : other ≠ address + 1) :
    (m.writeWord address value).read other = m.read other := by
  rw [writeWord, read_write_of_ne _ _ hhigh, read_write_of_ne _ _ hlow]

end Memory

/-- Nothing is lost but what cannot be placed. Loading puts bytes at the start and the addresses
behind it, says how many there was room for, drops the rest and touches no other address; to load
more bytes behind those that were loaded is to load all of them at once. A word is read as it was
written at any address, the last one included, and writing it touches its own address and the next
one around the end of the space only. A processor into which a program was loaded is the same
whatever it has done before, but for its memory outside the program and its dispatch. -/
theorem Memory.load_exact (m : Memory) :
    (∀ bytes start,
      m.Loads (m.load bytes start) bytes start (loadedCount bytes.length start)) ∧
    (∀ xs ys start, start.toNat + xs.length < 65536 →
      (m.load xs start).load ys (start + .ofNat xs.length) = m.load (xs ++ ys) start ∧
      loadedCount xs.length start + loadedCount ys.length (start + .ofNat xs.length) =
        loadedCount (xs ++ ys).length start) ∧
    (∀ address value, (m.writeWord address value).readWord address = value ∧
      ∀ other, other ≠ address → other ≠ address + 1 →
        (m.writeWord address value).read other = m.read other) ∧
    ∀ (c : Cpu) (program : List UInt8) (base : UInt16), c.memory = m →
      c.loadProgram program base =
        { a := 0, x := 0, y := 0, s := 0xFF, pc := base, status := {}, halted := false, last := none
          totalCycles := 0, memory := m.load program base, dispatch := c.dispatch } := by
  refine ⟨m.loads_load, ?_, ?_, ?_⟩
  · intro xs ys start hspace
    exact ⟨m.load_load xs ys hspace, loadedCount_add hspace⟩
  · intro address value
    exact ⟨m.readWord_writeWord address value, fun other => m.read_writeWord_of_ne value⟩
  · rintro c program base rfl
    rfl

/-- Two bytes that end one address below the last one and two more behind them, of which one finds
no room; and a processor that is halted. -/
theorem Memory.load_exact_atTop :
    let worn : Cpu := { a := 7, s := 3, halted := true, totalCycles := 9 }
    (0xFFFD : UInt16).toNat + [1, 2].length < 65536 ∧ worn.memory = zero ∧
      (zero.load [1, 2] 0xFFFD).load [3, 4] 0xFFFF = zero.load [1, 2, 3, 4] 0xFFFD ∧
      (worn.loadProgram [0xEA] 0xFFFF).halted = false := by
  intro worn
  obtain ⟨-, happend, -, hprogram⟩ := load_exact zero
  refine ⟨by decide, rfl, (happend [1, 2] [3, 4] 0xFFFD (by decide)).1, ?_⟩
  rw [hprogram worn [0xEA] 0xFFFF rfl]

end Core65C02
