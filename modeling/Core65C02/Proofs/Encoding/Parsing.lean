import Core65C02.Memory
import Core65C02.Proofs.Encoding.RunLength

/-!
# Reading run-length encodings

Any bytes are a sequence of tokens and at their end at most two bytes that begin a token, so what
the decoder makes of bytes is told by that sequence: it runs out of room at some token, or it
expands all of them and then stops at what is left. What the encoder writes is read back as it was,
wherever it stands.
-/

namespace Core65C02.RunLength

/-- What can be left of bytes behind the tokens. -/
inductive Tail
  /-- Nothing. -/
  | complete
  /-- A marker. -/
  | afterMarker
  /-- A marker and the length of a run. -/
  | inRun (n : UInt8) (hn : n ≠ 0)

namespace Tail

/-- The bytes that are left. -/
def written : Tail → List UInt8
  | complete => []
  | afterMarker => [marker]
  | inRun n _ => [marker, n]

/-- What decoding results in if the tokens were expanded to `out`. -/
def outcome (out : Array UInt8) : Tail → Except Failure (Array UInt8)
  | complete => .ok out
  | afterMarker => .error .endsAfterMarker
  | inRun _ _ => .error .endsInRun

end Tail

/-- The bytes of some tokens and of what is left behind them. -/
def assemble (tokens : List Token) (tail : Tail) : List UInt8 :=
  tokens.flatMap Token.written ++ tail.written

/-- With a complete tail the bytes are those of the tokens. -/
theorem assemble_complete (tokens : List Token) :
    assemble tokens .complete = tokens.flatMap Token.written :=
  List.append_nil _

/-- The bytes of the first token come first. -/
theorem assemble_cons (t : Token) (tokens : List Token) (tail : Tail) :
    assemble (t :: tokens) tail = t.written ++ assemble tokens tail := by
  rw [assemble, assemble, List.flatMap_cons, List.append_assoc]

/-- All bytes are read as tokens and a tail. -/
theorem exists_assemble : ∀ bytes : List UInt8, ∃ tokens tail, assemble tokens tail = bytes
  | [] => ⟨[], .complete, rfl⟩
  | b :: rest => by
    by_cases hb : b = marker
    · subst hb
      match rest with
      | [] => exact ⟨[], .afterMarker, rfl⟩
      | n :: rest =>
        by_cases hn : n = 0
        · subst hn
          obtain ⟨tokens, tail, rfl⟩ := exists_assemble rest
          exact ⟨.literalMarker :: tokens, tail, assemble_cons ..⟩
        · match rest with
          | [] => exact ⟨[], .inRun n hn, rfl⟩
          | value :: rest =>
            obtain ⟨tokens, tail, rfl⟩ := exists_assemble rest
            exact ⟨.run n hn value :: tokens, tail, assemble_cons ..⟩
    · obtain ⟨tokens, tail, rfl⟩ := exists_assemble rest
      exact ⟨.single b hb :: tokens, tail, assemble_cons ..⟩

/-- Behind the tokens, decoding ends as the tail says. -/
theorem decodeAfter_tail (limit : Nat) (out : Array UInt8) (tail : Tail) :
    decodeAfter limit out tail.written = tail.outcome out := by
  rw [decodeAfter.eq_def]
  cases tail with
  | complete => rfl
  | afterMarker => simp [Tail.written, Tail.outcome]
  | inRun n hn => simp [Tail.written, Tail.outcome, hn]

/-- The decoder expands all tokens and stops at what is left, or it finds too many bytes before that;
then it does so within what the tokens stand for. -/
theorem decodeAfter_assemble (limit : Nat) (out : Array UInt8) (tokens : List Token)
    (tail : Tail) :
    decodeAfter limit out (assemble tokens tail) =
        tail.outcome (out ++ (tokens.flatMap Token.expanded).toArray) ∨
      ∃ n, limit < n ∧ n ≤ out.size + (tokens.flatMap Token.expanded).length ∧
        decodeAfter limit out (assemble tokens tail) = .error (.tooLong n) := by
  induction tokens generalizing out with
  | nil =>
    left
    simpa [assemble] using decodeAfter_tail limit out tail
  | cons t tokens ih =>
    rw [assemble_cons, decodeAfter_written, List.flatMap_cons, List.length_append]
    by_cases hlong : t.isCounted ∧ limit < out.size + t.expanded.length
    · right
      rw [if_pos hlong]
      exact ⟨_, hlong.2, by omega, rfl⟩
    · rw [if_neg hlong]
      rcases ih (out ++ t.expanded.toArray) with hall | ⟨n, hlimit, hn, htooLong⟩
      · left
        rw [hall, Array.append_assoc, ← List.append_toArray]
      · right
        have hsize : (out ++ t.expanded.toArray).size = out.size + t.expanded.length := by simp
        exact ⟨n, hlimit, by omega, htooLong⟩

/-- Encodings one after the other are read in turn. -/
theorem decodeAfter_chunks {limit : Nat} (chunks : List (List UInt8)) {out : Array UInt8}
    (hlimit : out.size + chunks.flatten.length ≤ limit) :
    decodeAfter limit out (chunks.flatMap encode) = .ok (out ++ chunks.flatten.toArray) := by
  induction chunks generalizing out with
  | nil => simp [decodeAfter]
  | cons chunk chunks ih =>
    rw [List.flatten_cons, List.length_append] at hlimit
    have hsize : (out ++ chunk.toArray).size = out.size + chunk.length := by simp
    rw [List.flatMap_cons, decodeAfter_encode chunk (by omega), ih (by omega), Array.append_assoc,
      List.flatten_cons, ← List.append_toArray]

/-- What is encoded is read back as it was, if memory has room for it. It may be cut into chunks that
are encoded one by one, wherever the cuts are: no token of a chunk is taken for another one because
of what stands before or behind it. -/
theorem decode_encode_chunks {bytes : List UInt8} (hlength : bytes.length ≤ Memory.size) :
    decode Memory.size (encode bytes) = .ok bytes.toArray ∧
    ∀ chunks : List (List UInt8), chunks.flatten = bytes →
      decode Memory.size (chunks.flatMap encode) = .ok bytes.toArray := by
  refine ⟨decode_encode bytes hlength, fun chunks hchunks => ?_⟩
  have hroom : (#[] : Array UInt8).size + chunks.flatten.length ≤ Memory.size := by
    rw [hchunks, List.size_toArray, List.length_nil]
    omega
  have hdecode := decodeAfter_chunks chunks hroom
  rw [hchunks, Array.empty_append] at hdecode
  exact hdecode

/-- Markers as bytes, as lengths of nothing and before a zero, cut between two of them. -/
theorem decode_encode_chunks_markers :
    encode [0xFF, 0xFF, 0xAA, 0xFF, 0x00] =
      [0xFF, 0x00, 0xFF, 0x00, 0xAA, 0xFF, 0x00, 0xFF, 0x01, 0x00] ∧
    decode Memory.size (encode [0xFF, 0xFF, 0xAA, 0xFF, 0x00]) =
      .ok #[0xFF, 0xFF, 0xAA, 0xFF, 0x00] ∧
    decode Memory.size (encode [0xFF] ++ encode [0xFF, 0xAA, 0xFF] ++ encode [0x00]) =
      .ok #[0xFF, 0xFF, 0xAA, 0xFF, 0x00] := by
  have hlength : ([0xFF, 0xFF, 0xAA, 0xFF, 0x00] : List UInt8).length ≤ Memory.size := by decide
  obtain ⟨hwhole, hchunks⟩ := decode_encode_chunks hlength
  exact ⟨by decide, hwhole, hchunks [[0xFF], [0xFF, 0xAA, 0xFF], [0x00]] rfl⟩

end Core65C02.RunLength
