import Core65C02.Proofs.Encoding.RunLength
import Mathlib.Data.List.Chain

/-!
# The size of an encoding

A run is written in less than five bytes for two, unless it is a zero by itself, which takes three.
No two such zeros follow each other, because runs are as long as they can be. So the half byte that
one of them takes too much is saved by the run before it, and only the first run of a list has none
before it. The main statement is the bound that results, with lists that need as much, and that the
length of a run always fits into the byte in which it is written.
-/

namespace Core65C02.RunLength

/-- A run ends before another one if that has another value or if the run is full. -/
def Run.EndsBefore (run next : Run) : Prop := run.value = next.value → longest ≤ run.length

/-- A byte opens a new run only if it does not fit into the newest one. -/
theorem isChain_extend {runs : List Run}
    (hruns : runs.IsChain fun newer older => older.EndsBefore newer) (value : UInt8) :
    (extend runs value).IsChain fun newer older => older.EndsBefore newer := by
  cases runs with
  | nil => exact List.isChain_singleton _
  | cons newest older =>
    by_cases h : newest.value = value ∧ newest.length < longest
    · -- the newest run becomes longer but keeps its value, which is all that the one before it needs
      rw [extend, if_pos h, ← h.1]
      rw [List.isChain_cons] at hruns ⊢
      exact hruns
    · rw [extend, if_neg h]
      have hends : newest.EndsBefore ⟨value, 1⟩ :=
        fun hvalue => Nat.le_of_not_lt fun hlength => h ⟨hvalue, hlength⟩
      exact List.isChain_cons_cons.mpr ⟨hends, hruns⟩

/-- The runs of a list are as long as they can be. -/
theorem isChain_runs (bytes : List UInt8) : (runs bytes).IsChain Run.EndsBefore := by
  rw [runs, List.isChain_reverse]
  exact List.foldlRecOn bytes extend List.isChain_nil
    fun _ hruns value _ => isChain_extend hruns value

/-- A zero by itself. -/
def Run.loneZero : Run := ⟨0, 1⟩

/-- Two zeros by themselves do not follow each other, since they would be one run. -/
theorem Run.EndsBefore.ne_loneZero {next : Run} (h : Run.loneZero.EndsBefore next) :
    next ≠ Run.loneZero := by
  rintro rfl
  exact absurd (h rfl) (by decide)

/-- A run takes three bytes with a count, and otherwise its bytes, or two for each marker among
them. -/
theorem Run.length_encode (run : Run) :
    run.encode.length =
      if 3 < run.length ∨ run.value = 0 then 3
      else if run.value = marker then 2 * run.length
      else run.length := by
  unfold Run.encode
  split
  · rfl
  · split
    · simp [Nat.mul_comm]
    · exact List.length_replicate

/-- Any other run than a zero by itself leaves at least half a byte. -/
theorem Run.two_mul_length_encode_lt {run : Run} (hpositive : 0 < run.length)
    (hrun : run ≠ loneZero) : 2 * run.encode.length < 5 * run.length := by
  rw [length_encode]
  split
  · next htriple =>
    have hlength : run.length ≠ 1 := by
      intro hone
      rcases htriple with hlong | hzero
      · omega
      · obtain ⟨value, length⟩ := run
        subst hone hzero
        exact hrun rfl
    omega
  · split <;> omega

/-- The half bytes that runs take too much: one if a zero by itself comes first, as no run before it
has saved any. -/
def unpaid : List Run → Nat
  | [] => 0
  | run :: _ => if run = .loneZero then 1 else 0

/-- Never more than half a byte is unpaid. -/
theorem unpaid_le_one (runs : List Run) : unpaid runs ≤ 1 := by
  cases runs with
  | nil => exact Nat.zero_le 1
  | cons run others =>
    rw [unpaid]
    split <;> omega

/-- Behind a zero by itself nothing is left to be paid. -/
theorem unpaid_of_loneZero {others : List Run}
    (hchain : (Run.loneZero :: others).IsChain Run.EndsBefore) : unpaid others = 0 := by
  cases others with
  | nil => rfl
  | cons next _ => exact if_neg (List.isChain_cons_cons.mp hchain).1.ne_loneZero

/-- Runs that are as long as they can be are written in five bytes for two, but for a zero by itself
that comes first. -/
theorem two_mul_length_encodings_le {runs : List Run} (hcarriable : ∀ run ∈ runs, run.IsCarriable)
    (hchain : runs.IsChain Run.EndsBefore) :
    2 * (runs.flatMap Run.encode).length ≤ 5 * (runs.flatMap Run.bytes).length + unpaid runs := by
  induction runs with
  | nil => exact Nat.zero_le _
  | cons run others ih =>
    rw [List.forall_mem_cons] at hcarriable
    have hothers := ih hcarriable.2 hchain.tail
    have hbytes : run.bytes.length = run.length := List.length_replicate
    rw [List.flatMap_cons, List.flatMap_cons, List.length_append, List.length_append, hbytes, unpaid]
    by_cases hrun : run = .loneZero
    · subst hrun
      have hpaid := unpaid_of_loneZero hchain
      have hencode : Run.loneZero.encode.length = 3 := rfl
      have hlength : Run.loneZero.length = 1 := rfl
      rw [if_pos rfl]
      omega
    · -- this run saves the half byte that the others may take too much
      have hlt := Run.two_mul_length_encode_lt hcarriable.1.1 hrun
      have hunpaid := unpaid_le_one others
      rw [if_neg hrun]
      omega

/-- If a run is written as a triple, the byte behind the marker is the length of the run. -/
theorem Run.toNat_of_encode_eq {run : Run} (hrun : run.IsCarriable) {n value : UInt8}
    (h : run.encode = [marker, n, value]) : n.toNat = run.length := by
  have hlongest : run.length ≤ 255 := hrun.2
  unfold Run.encode at h
  split at h
  · cases h
    exact UInt8.toNat_ofNat_of_lt' (Nat.lt_succ_of_le hlongest)
  · split at h
    · -- markers one by one are an even number of bytes
      have heven : 2 * run.length = 3 := by simpa [Nat.mul_comm] using congrArg List.length h
      omega
    · next hmarker =>
      -- other bytes one by one hold no marker
      have hmem : marker ∈ run.bytes := by
        rw [h]
        exact List.mem_cons_self
      exact absurd (List.eq_of_mem_replicate hmem).symm hmarker

/-- A byte opens a new run if it differs from the one before it. -/
theorem extend_of_ne {runs : List Run} {value : UInt8}
    (h : ∀ run ∈ runs.head?, run.value ≠ value) : extend runs value = ⟨value, 1⟩ :: runs := by
  cases runs with
  | nil => rfl
  | cons run older => exact if_neg fun hfits => h run rfl hfits.1

/-- If no two neighbours are alike, each byte is a run. -/
theorem runs_of_isChain_ne {bytes : List UInt8} (hbytes : bytes.IsChain (· ≠ ·)) :
    runs bytes = bytes.map fun b => ⟨b, 1⟩ := by
  have hfold (older : List Run)
      (holder : ∀ run ∈ older.head?, ∀ b ∈ bytes.head?, run.value ≠ b) :
      bytes.foldl extend older = (bytes.map fun b => (⟨b, 1⟩ : Run)).reverse ++ older := by
    induction bytes generalizing older with
    | nil => rfl
    | cons b bytes ih =>
      rw [List.isChain_cons] at hbytes
      have hfirst : extend older b = ⟨b, 1⟩ :: older :=
        extend_of_ne fun run hrun => holder run hrun b rfl
      have hnext : ∀ run ∈ ((⟨b, 1⟩ : Run) :: older).head?, ∀ b' ∈ bytes.head?, run.value ≠ b' := by
        intro run hrun b' hb'
        rw [List.head?_cons, Option.mem_some] at hrun
        exact hrun ▸ hbytes.1 b' hb'
      rw [List.foldl_cons, hfirst, ih hbytes.2 _ hnext]
      simp
  rw [runs, hfold [] (by simp)]
  simp

/-- Zeros and markers in turn, `n` bytes that begin with a zero. -/
def alternating : Nat → List UInt8
  | 0 => []
  | 1 => [0]
  | n + 2 => 0 :: marker :: alternating n

/-- There are as many alternating bytes as are asked for. -/
theorem length_alternating (n : Nat) : (alternating n).length = n := by
  induction n using alternating.induct with
  | case1 => rfl
  | case2 => rfl
  | case3 n ih => rw [alternating, List.length_cons, List.length_cons, ih]

/-- Neighbours among alternating bytes differ, and the first of them is not the marker. -/
theorem isChain_alternating (n : Nat) : (marker :: alternating n).IsChain (· ≠ ·) := by
  induction n using alternating.induct with
  | case1 => exact List.isChain_singleton _
  | case2 => simp [alternating, marker]
  | case3 n ih =>
    rw [alternating, List.isChain_cons_cons, List.isChain_cons_cons]
    exact ⟨by decide, by decide, ih⟩

/-- Alternating bytes are runs by themselves. -/
theorem runs_alternating (n : Nat) : runs (alternating n) = (alternating n).map fun b => ⟨b, 1⟩ :=
  runs_of_isChain_ne (isChain_alternating n).tail

/-- Each zero is written in three bytes and each marker in two. -/
theorem length_encode_alternating (n : Nat) :
    (encode (alternating n)).length = (5 * n + 1) / 2 := by
  rw [encode, runs_alternating, List.flatMap_map]
  induction n using alternating.induct with
  | case1 => rfl
  | case2 => rfl
  | case3 n ih =>
    have hzero : (Run.encode ⟨0, 1⟩).length = 3 := rfl
    have hmarker : (Run.encode ⟨marker, 1⟩).length = 2 := rfl
    rw [alternating, List.flatMap_cons, List.flatMap_cons, List.length_append, List.length_append,
      hzero, hmarker, ih]
    omega

/-- The encoding of a list is at most half a byte longer than five bytes for two, and there are
lists of each length that need as much. A run that is written as a triple has between 1 and 255
bytes, and it is this number that is written. -/
theorem length_encode_le (bytes : List UInt8) :
    2 * (encode bytes).length ≤ 5 * bytes.length + 1 ∧
    (∃ worst : List UInt8, worst.length = bytes.length ∧
      (encode worst).length = (5 * bytes.length + 1) / 2) ∧
    ∀ run ∈ runs bytes, ∀ n value, run.encode = [marker, n, value] →
      n.toNat = run.length ∧ 1 ≤ n.toNat ∧ n.toNat ≤ 255 := by
  refine ⟨?_, ⟨_, length_alternating bytes.length, length_encode_alternating bytes.length⟩, ?_⟩
  · have hle := two_mul_length_encodings_le (isCarriable_runs bytes) (isChain_runs bytes)
    have hunpaid := unpaid_le_one (runs bytes)
    rw [flatMap_bytes_runs] at hle
    exact hle.trans (Nat.add_le_add_left hunpaid _)
  · intro run hrun n value hencode
    have hcarriable := isCarriable_runs bytes run hrun
    rw [run.toNat_of_encode_eq hcarriable hencode]
    exact ⟨rfl, hcarriable.1, hcarriable.2⟩

/-- A full run of zeros, and a zero for which there is no room in it. -/
theorem length_encode_le_fullRun :
    runs (List.replicate 256 0) = [⟨0, 255⟩, ⟨0, 1⟩] ∧
    2 * (encode (List.replicate 256 0)).length ≤ 5 * 256 + 1 ∧
    Run.encode ⟨0, 255⟩ = [marker, 255, 0] ∧
    (255 : UInt8).toNat = 255 ∧ 1 ≤ (255 : UInt8).toNat ∧ (255 : UInt8).toNat ≤ 255 := by
  have hruns : runs (List.replicate 256 0) = [⟨0, 255⟩, ⟨0, 1⟩] := by decide +kernel
  have hencode : Run.encode ⟨0, 255⟩ = [marker, 255, 0] := rfl
  obtain ⟨hbound, -, htriples⟩ := length_encode_le (List.replicate 256 0)
  rw [List.length_replicate] at hbound
  have hmem : ⟨0, 255⟩ ∈ runs (List.replicate 256 0) := hruns ▸ List.mem_cons_self
  exact ⟨hruns, hbound, hencode, htriples _ hmem 255 0 hencode⟩

end Core65C02.RunLength
