import Core65C02.Proofs.Encoding.Parsing

/-!
# The limit of the decoder

More bytes than the limit are refused, but the decoder counts only after tokens that begin with a
marker. So it stops at the first token that carries it past the limit if that token is counted, and
runs on if it is a single byte. The main statement is that this is the only way past the limit, and
that single bytes in a row are all that can be decoded beyond it.
-/

namespace Core65C02.RunLength

/-- No token stands for more than 255 bytes. -/
theorem Token.length_expanded_le (t : Token) : t.expanded.length ≤ 255 := by
  cases t with
  | run n _ value =>
    have hn := n.toNat_lt
    simp only [expanded, List.length_replicate]
    omega
  | _ => simp [expanded]

/-- Every token stands for a byte at least. -/
theorem Token.length_expanded_pos (t : Token) : 0 < t.expanded.length := by
  cases t with
  | run n hn value =>
    have hpos : n.toNat ≠ 0 := fun h => hn (UInt8.toNat_inj.mp h)
    simp only [expanded, List.length_replicate]
    omega
  | _ => simp [expanded]

/-- A token without a count stands for one byte. -/
theorem Token.length_expanded_of_not_isCounted {t : Token} (ht : t.isCounted = false) :
    t.expanded.length = 1 := by
  cases t with
  | single => rfl
  | literalMarker | run => cases ht

/-- What is made of tokens and a tail by a decoder that counts after every token, whatever its kind,
and so stops at the first one with which there are more than `limit` bytes. -/
def decodeCounting (limit : Nat) (out : Array UInt8) :
    List Token → Tail → Except Failure (Array UInt8)
  | [], tail => tail.outcome out
  | t :: tokens, tail =>
    if limit < out.size + t.expanded.length then .error (.tooLong (out.size + t.expanded.length))
    else decodeCounting limit (out ++ t.expanded.toArray) tokens tail

/-- The first token with which there are more than `limit` bytes, after `size` bytes before it. -/
def firstExcess? (limit size : Nat) : List Token → Option Token
  | [] => none
  | t :: tokens =>
    if limit < size + t.expanded.length then some t
    else firstExcess? limit (size + t.expanded.length) tokens

/-- The greatest number of single bytes in a row, the first of which follow `n` single bytes. -/
def longestPlain (n : Nat) : List Token → Nat
  | [] => n
  | t :: tokens => if t.isCounted then max n (longestPlain 0 tokens) else longestPlain (n + 1) tokens

/-- The limit is kept for some tokens and a tail: decoding stops at the first token with which there
are too many bytes, so that what comes out is within the limit, and what is refused is not longer
than one token beyond it. -/
structure KeepsLimit (limit : Nat) (tokens : List Token) (tail : Tail) : Prop where
  /-- Decoding stops in time. -/
  stops : decode limit (assemble tokens tail) = decodeCounting limit #[] tokens tail
  /-- What comes out is within the limit. -/
  size_le : ∀ out, decode limit (assemble tokens tail) = .ok out → out.size ≤ limit
  /-- What is refused is at most one token longer. -/
  length_le : ∀ n, decode limit (assemble tokens tail) = .error (.tooLong n) → n ≤ limit + 255

section Outcomes

variable {limit : Nat} {tail : Tail}

/-- A tail that does no harm adds nothing. -/
theorem outcome_eq_ok {out out' : Array UInt8} (h : tail.outcome out = .ok out') : out = out' := by
  cases tail with
  | complete => exact Except.ok.inj h
  | afterMarker | inRun => cases h

/-- No tail is refused for the length of what came before it. -/
theorem outcome_ne_tooLong (out : Array UInt8) (n : Nat) :
    tail.outcome out ≠ .error (.tooLong n) := by
  cases tail <;> nofun

/-- A token adds the bytes for which it stands. -/
theorem size_append_expanded (out : Array UInt8) (t : Token) :
    (out ++ t.expanded.toArray).size = out.size + t.expanded.length := by
  simp only [Array.size_append, List.size_toArray]

/-- A decoder that always counts keeps the limit. -/
theorem decodeCounting_le {tokens : List Token} {out : Array UInt8} (hout : out.size ≤ limit) :
    (∀ out', decodeCounting limit out tokens tail = .ok out' → out'.size ≤ limit) ∧
      ∀ n, decodeCounting limit out tokens tail = .error (.tooLong n) → n ≤ limit + 255 := by
  induction tokens generalizing out with
  | nil =>
    refine ⟨fun out' h => ?_, fun n h => absurd h (outcome_ne_tooLong out n)⟩
    rwa [← outcome_eq_ok h]
  | cons t tokens ih =>
    rw [decodeCounting]
    by_cases hexcess : limit < out.size + t.expanded.length
    · have ht := t.length_expanded_le
      rw [if_pos hexcess]
      refine ⟨nofun, fun n h => ?_⟩
      cases h
      omega
    · rw [if_neg hexcess]
      apply ih
      rw [size_append_expanded]
      omega

/-- Whatever is refused is longer than what was there before. -/
theorem size_lt_of_decodeAfter_tooLong {tokens : List Token} {out : Array UInt8} {n : Nat}
    (h : decodeAfter limit out (assemble tokens tail) = .error (.tooLong n)) : out.size < n := by
  induction tokens generalizing out with
  | nil => exact absurd (decodeAfter_tail limit out tail ▸ h) (outcome_ne_tooLong out n)
  | cons t tokens ih =>
    have ht := t.length_expanded_pos
    rw [assemble_cons, decodeAfter_written] at h
    split at h
    · cases h
      omega
    · have hlater := ih h
      rw [size_append_expanded] at hlater
      omega

/-- The decoder stops like one that always counts if and only if the first token too many is one
after which it counts. If it is not, it has gone further by the time it counts again. -/
theorem decodeAfter_eq_decodeCounting_iff {tokens : List Token} {out : Array UInt8}
    (hout : out.size ≤ limit) :
    decodeAfter limit out (assemble tokens tail) = decodeCounting limit out tokens tail ↔
      ∀ t ∈ firstExcess? limit out.size tokens, t.isCounted = true := by
  induction tokens generalizing out with
  | nil =>
    rw [decodeCounting, firstExcess?]
    exact ⟨fun _ => nofun, fun _ => decodeAfter_tail limit out tail⟩
  | cons t tokens ih =>
    rw [assemble_cons, decodeAfter_written, decodeCounting, firstExcess?]
    by_cases hexcess : limit < out.size + t.expanded.length
    · rw [if_pos hexcess, if_pos hexcess]
      cases ht : t.isCounted with
      | true =>
        rw [if_pos ⟨rfl, hexcess⟩]
        exact iff_of_true rfl fun t' ht' => Option.mem_some.mp ht' ▸ ht
      | false =>
        rw [if_neg (by simp)]
        refine iff_of_false (fun h => ?_) fun h => ?_
        · have hlater := size_lt_of_decodeAfter_tooLong h
          rw [size_append_expanded] at hlater
          omega
        · exact Bool.false_ne_true (ht.symm.trans (h t rfl))
    · have hfits : (out ++ t.expanded.toArray).size ≤ limit := by
        rw [size_append_expanded]
        omega
      rw [if_neg hexcess, if_neg hexcess, if_neg fun h => hexcess h.2, ih hfits,
        size_append_expanded]

/-- Beyond the limit there are only single bytes that stand in a row, and the token at which they are
noticed. -/
theorem decodeAfter_le {tokens : List Token} {out : Array UInt8} {plain : Nat}
    (hout : out.size ≤ limit + plain) :
    (∀ out', decodeAfter limit out (assemble tokens tail) = .ok out' →
      out'.size ≤ limit + longestPlain plain tokens) ∧
      ∀ n, decodeAfter limit out (assemble tokens tail) = .error (.tooLong n) →
        n ≤ limit + longestPlain plain tokens + 255 := by
  induction tokens generalizing out plain with
  | nil =>
    have htail : decodeAfter limit out (assemble [] tail) = tail.outcome out :=
      decodeAfter_tail limit out tail
    rw [htail]
    refine ⟨fun out' h => ?_, fun n h => absurd h (outcome_ne_tooLong out n)⟩
    rwa [← outcome_eq_ok h]
  | cons t tokens ih =>
    rw [assemble_cons, decodeAfter_written, longestPlain]
    cases ht : t.isCounted with
    | true =>
      have hmax := Nat.le_max_left plain (longestPlain 0 tokens)
      have hmax' := Nat.le_max_right plain (longestPlain 0 tokens)
      rw [if_pos rfl]
      by_cases hexcess : limit < out.size + t.expanded.length
      · have hlength := t.length_expanded_le
        rw [if_pos ⟨rfl, hexcess⟩]
        refine ⟨nofun, fun n h => ?_⟩
        cases h
        omega
      · have hfits : (out ++ t.expanded.toArray).size ≤ limit + 0 := by
          rw [size_append_expanded]
          omega
        obtain ⟨hok, htooLong⟩ := ih hfits
        rw [if_neg fun h => hexcess h.2]
        refine ⟨fun out' h => ?_, fun n h => ?_⟩
        · have := hok out' h
          omega
        · have := htooLong n h
          omega
    | false =>
      have hone := Token.length_expanded_of_not_isCounted ht
      rw [if_neg (by simp), if_neg (by simp)]
      apply ih
      rw [size_append_expanded]
      omega

end Outcomes

/-- All bytes are tokens and a tail. For these the limit is kept, that is, decoding stops at the
first token with which there are too many bytes, unless that token is a single byte. In any case
what is decoded exceeds the limit by no more than the single bytes that stand in a row, and what is
refused by no more than these and the bytes of one token. -/
theorem decode_keepsLimit_iff (limit : Nat) :
    (∀ bytes, ∃ tokens tail, assemble tokens tail = bytes) ∧
    ∀ tokens tail,
      (KeepsLimit limit tokens tail ↔ ∀ t ∈ firstExcess? limit 0 tokens, t.isCounted = true) ∧
      (∀ out, decode limit (assemble tokens tail) = .ok out →
        out.size ≤ limit + longestPlain 0 tokens) ∧
      ∀ n, decode limit (assemble tokens tail) = .error (.tooLong n) →
        n ≤ limit + longestPlain 0 tokens + 255 := by
  refine ⟨exists_assemble, fun tokens tail => ⟨?_, decodeAfter_le (Nat.zero_le _)⟩⟩
  have hstops : decode limit (assemble tokens tail) = decodeCounting limit #[] tokens tail ↔
      ∀ t ∈ firstExcess? limit 0 tokens, t.isCounted = true :=
    decodeAfter_eq_decodeCounting_iff (Nat.zero_le _)
  have hempty : (#[] : Array UInt8).size ≤ limit := Nat.zero_le limit
  obtain ⟨hok, htooLong⟩ := @decodeCounting_le limit tail tokens #[] hempty
  refine ⟨fun h => hstops.mp h.stops, fun h => ?_⟩
  have heq := hstops.mpr h
  exact ⟨heq, heq ▸ hok, heq ▸ htooLong⟩

/-- Single bytes are passed on without being counted. -/
theorem decodeAfter_singles (limit : Nat) {bytes : List UInt8} (hbytes : ∀ b ∈ bytes, b ≠ marker)
    (out : Array UInt8) (rest : List UInt8) :
    decodeAfter limit out (bytes ++ rest) = decodeAfter limit (out ++ bytes.toArray) rest := by
  induction bytes generalizing out with
  | nil => simp
  | cons b bytes ih =>
    rw [List.forall_mem_cons] at hbytes
    have hfirst := decodeAfter_written limit out (.single b hbytes.1) (bytes ++ rest)
    rw [if_neg (by simp [Token.isCounted])] at hfirst
    have happend : out ++ [b].toArray ++ bytes.toArray = out ++ (b :: bytes).toArray := by simp
    rw [← happend]
    exact hfirst.trans (ih hbytes.2 _)

/-- Runs, then single bytes, and then a marker. -/
def overrun (runs singles : Nat) : List UInt8 :=
  (List.replicate runs [0xFF, 0xFF, 0x01]).flatten ++
    (List.replicate singles 0x01 ++ [0xFF, 0x00])

/-- Copies of a plain byte are not the marker. -/
theorem ne_marker_of_mem_replicate (n : Nat) : ∀ b ∈ List.replicate n (0x01 : UInt8), b ≠ marker := by
  intro b hb
  rw [List.eq_of_mem_replicate hb]
  decide

/-- However many single bytes there are between runs that fit and a marker, they are noticed at the
marker. -/
theorem decode_overrun {limit runs singles : Nat} (hruns : runs * 255 ≤ limit)
    (hsingles : limit < runs * 255 + singles + 1) :
    decode limit (overrun runs singles) = .error (.tooLong (runs * 255 + singles + 1)) := by
  let tokens := List.replicate runs (Token.run 0xFF (by decide) 0x01)
  have hwritten : tokens.flatMap Token.written = (List.replicate runs [0xFF, 0xFF, 0x01]).flatten :=
    List.flatMap_replicate
  have hlength : (tokens.flatMap Token.expanded).length = runs * 255 := by
    rw [List.flatMap_replicate, List.length_flatten, List.map_replicate, List.sum_replicate_nat,
      Token.expanded, List.length_replicate]
    rfl
  have hfits : (#[] : Array UInt8).size + (tokens.flatMap Token.expanded).length ≤ limit := by
    rw [hlength, Array.size_empty, Nat.zero_add]
    exact hruns
  have hbefore := (decodeAfter_tokens tokens hfits (List.replicate singles 0x01 ++ [0xFF, 0x00])).trans
    (decodeAfter_singles limit (ne_marker_of_mem_replicate singles) _ _)
  have hsize : (#[] ++ (tokens.flatMap Token.expanded).toArray ++
      (List.replicate singles (0x01 : UInt8)).toArray).size = runs * 255 + singles := by
    simp [hlength]
  rw [decode, overrun, ← hwritten, hbefore]
  generalize #[] ++ (tokens.flatMap Token.expanded).toArray ++
    (List.replicate singles (0x01 : UInt8)).toArray = out at hsize
  rw [← hsize] at hsingles ⊢
  exact (decodeAfter_written limit out .literalMarker []).trans (if_pos ⟨rfl, hsingles⟩)

/-- An image can be decoded to more bytes than there are in memory if it ends in single bytes, and it
can be refused only when there are more than 255 bytes too many. -/
theorem decode_passesLimit :
    (∃ out, decode Memory.size (List.replicate (Memory.size + 1) 0x01) = .ok out ∧
      Memory.size < out.size) ∧
    ∃ n, decode Memory.size (overrun 257 257) = .error (.tooLong n) ∧ Memory.size + 255 < n := by
  constructor
  · refine ⟨(List.replicate (Memory.size + 1) 0x01).toArray, ?_, ?_⟩
    · have hsingles := decodeAfter_singles Memory.size
        (ne_marker_of_mem_replicate (Memory.size + 1)) #[] []
      rw [List.append_nil, Array.empty_append] at hsingles
      rw [decode, hsingles, decodeAfter]
    · rw [List.size_toArray, List.length_replicate]
      exact Nat.lt_succ_self _
  · exact ⟨_, decode_overrun (by decide) (by decide), by decide⟩

end Core65C02.RunLength
