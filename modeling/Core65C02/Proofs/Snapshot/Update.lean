import Core65C02.Proofs.Latest
import Core65C02.Proofs.Snapshot.Overrides
import Mathlib.Logic.Function.Basic

/-!
# Overriding bytes of a snapshot

A snapshot tells the byte at each address, and a byte that is given for an address replaces the one
that was there. A sparse view takes such a byte for any address. A full view takes it only if its
bytes reach that far: one that ends early tells zeros behind its end, but it keeps no byte there.
The main statement says exactly when this is to be seen.
-/

namespace Core65C02

/-- What was put in last for an address is found there, and elsewhere what was there before. -/
theorem Overrides.get?_insert (o : Overrides) (address : UInt16) (value : UInt8) (other : UInt16) :
    (o.insert address value).get? other = if other = address then some value else o.get? other := by
  have h := lookup_put o.ascending address value (fun _ => value) other
  rw [get?, insert, h, get?]
  cases o.entries.lookup address <;> rfl

/-- Overrides that give the same bytes are the same. -/
theorem Overrides.ext_get? {o o' : Overrides} (h : ∀ address, o.get? address = o'.get? address) :
    o = o' := by
  have hentries : o.entries = o'.entries := by
    have hlisted : (MemoryView.sparse o).listed? = (MemoryView.sparse o').listed? := funext h
    have hwalk := (MemoryView.sparse o).entries_eq
    rw [hlisted, ← MemoryView.entries_eq] at hwalk
    exact hwalk
  rw [← o.ofList_entries, hentries, o'.ofList_entries]

namespace MemoryView

/-- Whether a view has a place for a byte: a sparse view for any, and a full one as far as its bytes
reach. -/
def covers : MemoryView → UInt16 → Bool
  | sparse _, _ => true
  | full bytes, address => address.toNat < bytes.size

/-- What a view does not cover is zero. -/
theorem get_of_not_covers {view : MemoryView} {address : UInt16}
    (hcovers : view.covers address = false) : view.get address = 0 := by
  cases view with
  | sparse overrides => cases hcovers
  | full bytes =>
    have hsize : bytes.size ≤ address.toNat := by simpa [covers] using hcovers
    rw [get, Array.getElem?_eq_none hsize]
    rfl

/-- A byte that is given for an address which a view covers replaces the one at this address. -/
theorem get_set {view : MemoryView} {address : UInt16} (hcovers : view.covers address = true)
    (value : UInt8) : (view.set address value).get = Function.update view.get address value := by
  funext other
  rw [Function.update_apply]
  cases view with
  | sparse overrides =>
    rw [set, get, Overrides.get?_insert]
    by_cases h : other = address <;> simp [h, get]
  | full bytes =>
    have hsize : address.toNat < bytes.size := by simpa [covers] using hcovers
    rw [set, get, Array.getElem?_setIfInBounds]
    by_cases h : other = address
    · simp [h, hsize]
    · have hne : address.toNat ≠ other.toNat := fun e => h (UInt16.toNat_inj.mp e.symm)
      simp [h, hne, get]

/-- A byte that is given for an address which a view does not cover is lost. -/
theorem set_of_not_covers {view : MemoryView} {address : UInt16}
    (hcovers : view.covers address = false) (value : UInt8) : view.set address value = view := by
  cases view with
  | sparse overrides => cases hcovers
  | full bytes =>
    have hsize : bytes.size ≤ address.toNat := by simpa [covers] using hcovers
    exact congrArg full (Array.setIfInBounds_eq_of_size_le hsize)

/-- A view covers the same addresses after a byte was set. -/
theorem covers_set (view : MemoryView) (address : UInt16) (value : UInt8) :
    (view.set address value).covers = view.covers := by
  cases view with
  | sparse overrides => rfl
  | full bytes => simp [set, covers, funext_iff]

/-- Bytes for different addresses can be given in any order. -/
theorem set_comm (view : MemoryView) {a b : UInt16} (h : a ≠ b) (v w : UInt8) :
    (view.set a v).set b w = (view.set b w).set a v := by
  cases view with
  | sparse overrides =>
    refine congrArg sparse (Overrides.ext_get? fun address => ?_)
    simp only [Overrides.get?_insert]
    by_cases hb : address = b
    · rw [if_pos hb, if_neg (hb ▸ h.symm), if_pos hb]
    · rw [if_neg hb, if_neg hb]
  | full bytes =>
    have hne : a.toNat ≠ b.toNat := fun e => h (UInt16.toNat_inj.mp e)
    exact congrArg full (Array.setIfInBounds_comm v w hne)

end MemoryView

namespace Snapshot

/-- Gives bytes for addresses, in turn. -/
def withBytes (state : Snapshot) (given : List (UInt16 × UInt8)) : Snapshot :=
  given.foldl (fun state e => state.withByte e.1 e.2) state

/-- The byte at each address after bytes were given for some addresses: the last one that was given
for it, or the one before if none was. -/
def updated (before : UInt16 → UInt8) (given : List (UInt16 × UInt8)) (address : UInt16) : UInt8 :=
  latest (·.1 == address) (·.2) (before address) given

/-- The first byte that is given changes what the others find. -/
theorem updated_cons (before : UInt16 → UInt8) (e : UInt16 × UInt8)
    (given : List (UInt16 × UInt8)) :
    updated before (e :: given) = updated (Function.update before e.1 e.2) given := by
  funext address
  unfold updated
  rw [latest_cons, Function.update_apply]
  simp only [beq_iff_eq, eq_comm (a := address)]

/-- Bytes are given one after another. -/
theorem withBytes_cons (state : Snapshot) (e : UInt16 × UInt8) (given : List (UInt16 × UInt8)) :
    state.withBytes (e :: given) = (state.withByte e.1 e.2).withBytes given :=
  rfl

/-- Bytes that are given are told where the view covers their addresses. -/
theorem get_withBytes (state : Snapshot) (given : List (UInt16 × UInt8)) (address : UInt16) :
    (state.withBytes given).memory.get address =
      if state.memory.covers address then updated state.memory.get given address else 0 := by
  induction given generalizing state with
  | nil =>
    cases hcovers : state.memory.covers address with
    | true => rfl
    | false => exact MemoryView.get_of_not_covers hcovers
  | cons e given ih =>
    rw [withBytes_cons, ih, updated_cons, withByte, MemoryView.covers_set]
    -- a byte that is lost is for an address that the view does not cover, where zero is told anyway
    cases hcovers : state.memory.covers e.1 with
    | true => rw [MemoryView.get_set hcovers]
    | false =>
      rw [MemoryView.set_of_not_covers hcovers]
      by_cases haddress : address = e.1
      · rw [haddress, hcovers]
        rfl
      · unfold updated
        rw [Function.update_of_ne haddress]

/-- Giving bytes touches no register. -/
theorem withBytes_eq (state : Snapshot) (given : List (UInt16 × UInt8)) :
    state.withBytes given = { state with memory := (state.withBytes given).memory } := by
  induction given generalizing state with
  | nil => rfl
  | cons e given ih => exact ih (state.withByte e.1 e.2)

/-- Bytes for two addresses can be given in either order. -/
theorem withByte_comm (state : Snapshot) {a b : UInt16} (h : a ≠ b) (v w : UInt8) :
    (state.withByte a v).withByte b w = (state.withByte b w).withByte a v := by
  unfold withByte
  rw [MemoryView.set_comm state.memory h v w]

/-- Bytes for addresses that are all different can be given in any order. -/
theorem withBytes_perm (state : Snapshot) {given given' : List (UInt16 × UInt8)}
    (hperm : given.Perm given') (hnodup : (given.map Prod.fst).Nodup) :
    state.withBytes given = state.withBytes given' := by
  refine hperm.foldl_eq' (fun e he e' he' state => ?_) state
  by_cases h : e.1 = e'.1
  · rw [List.inj_on_of_nodup_map hnodup he he' h]
  · exact state.withByte_comm h e.2 e'.2

/-- Giving bytes is an update of what is told at each address exactly if those that are lost,
because a full view ends before their addresses, would be zeros in the end. What is told then is
zero at such an address and the last byte given at any other. No register changes, bytes for
different addresses can be given in any order, and two snapshots that tell the same still do so
afterwards exactly if zeros are given in the end where one of them covers an address and the other
does not. -/
theorem withBytes_updates_iff (state : Snapshot) (given : List (UInt16 × UInt8)) :
    ((state.withBytes given).memory.get = updated state.memory.get given ↔
      ∀ address, state.memory.covers address = false →
        updated state.memory.get given address = 0) ∧
    (∀ address, (state.withBytes given).memory.get address =
      if state.memory.covers address then updated state.memory.get given address else 0) ∧
    state.withBytes given = { state with memory := (state.withBytes given).memory } ∧
    (∀ given', given.Perm given' → (given.map Prod.fst).Nodup →
      state.withBytes given = state.withBytes given') ∧
    ∀ other : Snapshot, other.memory.get = state.memory.get →
      ((other.withBytes given).memory.get = (state.withBytes given).memory.get ↔
        ∀ address, other.memory.covers address ≠ state.memory.covers address →
          updated state.memory.get given address = 0) := by
  refine ⟨?_, state.get_withBytes given, state.withBytes_eq given,
    fun _ => state.withBytes_perm, fun other hsame => ?_⟩
  · rw [funext_iff]
    refine forall_congr' fun address => ?_
    rw [get_withBytes]
    cases state.memory.covers address <;> simp [eq_comm]
  · rw [funext_iff]
    refine forall_congr' fun address => ?_
    rw [get_withBytes, get_withBytes, hsame]
    cases other.memory.covers address <;> cases state.memory.covers address <;> simp [eq_comm]

/-- A snapshot of zeros with a view of memory. -/
def viewing (memory : MemoryView) : Snapshot := ⟨0, 0, 0, 0, 0, 0, memory⟩

/-- A byte behind the end of a full view that is given and taken back is not missed. -/
theorem withBytes_updates_iff_takenBack :
    let short := viewing (.full #[])
    let sparse := viewing (.sparse .empty)
    let given := [(1, 7), (0xFFFF, 0), (1, 0)]
    (short.withBytes given).memory.get = updated short.memory.get given ∧
      (sparse.withBytes given).memory.get = (short.withBytes given).memory.get := by
  intro short sparse given
  have hlost (address : UInt16) : updated short.memory.get given address = 0 := by
    by_cases hfirst : 1 = address
    · subst hfirst
      rfl
    · by_cases hlast : 0xFFFF = address <;>
        simp [updated, latest, given, hfirst, hlast, short, viewing, MemoryView.get]
  obtain ⟨hupdates, -, -, -, hagree⟩ := withBytes_updates_iff short given
  exact ⟨hupdates.mpr fun address _ => hlost address,
    (hagree sparse rfl).mpr fun address _ => hlost address⟩

/-- A full view that ends early loses a byte that is not zero. A sparse view that tells the same
keeps it. -/
theorem withByte_loses :
    let short := viewing (.full #[])
    let sparse := viewing (.sparse .empty)
    sparse.memory.get = short.memory.get ∧ updated short.memory.get [(0, 1)] 0 = 1 ∧
      (short.withBytes [(0, 1)]).memory.get 0 = 0 ∧ (sparse.withBytes [(0, 1)]).memory.get 0 = 1 :=
  ⟨rfl, rfl, rfl, rfl⟩

end Snapshot

end Core65C02
