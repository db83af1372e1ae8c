import Core65C02.Proofs.Checkpoint
import Core65C02.Proofs.Encoding.Parsing

/-!
# Which checkpoints are accepted

The image of a checkpoint may be written in any tokens, not only in those that the encoder chooses.
It is accepted if they are complete, stand for exactly as many bytes as memory has, and have the
recorded digest; otherwise it is told which of these it lacks. Whether it can be restored is decided
with that.
-/

namespace Core65C02.Checkpoint

open RunLength

/-- What is wrong with the text of an image that cannot be decoded. -/
inductive Damaged (image : String) : Corruption → Prop
  /-- It is no base64. -/
  | text (hbytes : ∀ bytes, Base64.encode bytes ≠ image) : Damaged image .badText
  /-- The last token ends after its marker. -/
  | marker (tokens : List Token)
    (himage : Base64.encode (assemble tokens .afterMarker) = image) :
    Damaged image .endsAfterMarker
  /-- The last token is a run and ends after its length. -/
  | run (tokens : List Token) (n : UInt8) (hn : n ≠ 0)
    (himage : Base64.encode (assemble tokens (.inRun n hn)) = image) :
    Damaged image .endsInRun

/-- A text that encodes no bytes is no image. -/
theorem decodeImage_of_ne_encode {image : String} (hbytes : ∀ bytes, Base64.encode bytes ≠ image) :
    decodeImage image = .error (.corrupt .badText) := by
  have hnone : Base64.decode? image = none := by
    refine Option.eq_none_iff_forall_ne_some.mpr fun bytes hbytes' => ?_
    exact hbytes bytes (Base64.decode?_eq_some_iff.mp hbytes')
  rw [decodeImage, hnone]

/-- An image has the outcome of its tail, unless it is found too long before. -/
theorem decodeImage_assemble {image : String} {tokens : List Token} {tail : Tail}
    (himage : Base64.encode (assemble tokens tail) = image) :
    decodeImage image =
        (tail.outcome (tokens.flatMap Token.expanded).toArray).mapError rejection ∨
      ∃ n, Memory.size < n ∧ n ≤ (tokens.flatMap Token.expanded).length ∧
        decodeImage image = .error (.memorySize n) := by
  have hdecode : decodeImage image =
      (RunLength.decode Memory.size (assemble tokens tail)).mapError rejection := by
    rw [decodeImage, Base64.decode?_eq_some_iff.mpr himage]
    dsimp only
    cases RunLength.decode Memory.size (assemble tokens tail) with
    | error failure => rfl
    | ok bytes => rfl
  rcases decodeAfter_assemble Memory.size #[] tokens tail with hall | ⟨n, hlimit, hn, htooLong⟩
  · left
    rw [hdecode, RunLength.decode, hall, Array.empty_append]
  · right
    rw [Array.size_empty, Nat.zero_add] at hn
    refine ⟨n, hlimit, hn, ?_⟩
    rw [hdecode, RunLength.decode, htooLong]
    rfl

/-- An image that cannot be decoded is refused for that reason. -/
theorem memory_of_error {k : Checkpoint} {e : StateError} (h : decodeImage k.image = .error e) :
    k.memory = .error e := by
  rw [memory, h]
  rfl

/-- An image of another size is refused, whatever its digest is. -/
theorem memory_of_size_ne {k : Checkpoint} {bytes : Array UInt8}
    (h : decodeImage k.image = .ok bytes) (hsize : bytes.size ≠ Memory.size) :
    k.memory = .error (.memorySize bytes.size) := by
  simp [memory, h, bind, Except.bind, hsize, throw, throwThe, MonadExceptOf.throw]

/-- With an image of the right size the digest decides. -/
theorem memory_of_size_eq {k : Checkpoint} {bytes : Array UInt8}
    (h : decodeImage k.image = .ok bytes) (hsize : bytes.size = Memory.size) :
    k.memory = if Sha256.hexDigest bytes.toList = k.digest then .ok bytes
      else .error .digestMismatch := by
  by_cases hdigest : Sha256.hexDigest bytes.toList = k.digest
  · rw [if_pos hdigest]
    exact memory_eq_ok_iff.mpr ⟨h, hsize, hdigest⟩
  · rw [if_neg hdigest]
    simp [memory, h, bind, Except.bind, hsize, hdigest, throw, throwThe, MonadExceptOf.throw]

/-- An image of complete tokens is judged by its length and then by its digest. -/
theorem memory_of_complete {k : Checkpoint} {tokens : List Token}
    (himage : Base64.encode (tokens.flatMap Token.written) = k.image) :
    ((tokens.flatMap Token.expanded).length = Memory.size →
      k.memory = if Sha256.hexDigest (tokens.flatMap Token.expanded) = k.digest then
          .ok (tokens.flatMap Token.expanded).toArray
        else .error .digestMismatch) ∧
    ((tokens.flatMap Token.expanded).length ≠ Memory.size →
      ∃ n, n ≠ Memory.size ∧ k.memory = .error (.memorySize n)) := by
  rw [← assemble_complete] at himage
  rcases decodeImage_assemble himage with hall | ⟨n, hlimit, hn, htooLong⟩
  · exact ⟨fun hlength => memory_of_size_eq hall hlength,
      fun hlength => ⟨_, hlength, memory_of_size_ne hall hlength⟩⟩
  · refine ⟨fun hlength => ?_, fun _ => ⟨n, by omega, memory_of_error htooLong⟩⟩
    omega

/-- What can be made of the image of a checkpoint, and what is known in each case. -/
inductive Judged (k : Checkpoint) : Except StateError (Array UInt8) → Prop
  /-- It cannot be decoded. -/
  | corrupt {why : Corruption} (hdamaged : Damaged k.image why) : Judged k (.error (.corrupt why))
  /-- It has the wrong size, as far as it was decoded. -/
  | wrongSize {n : Nat} (hn : n ≠ Memory.size) : Judged k (.error (.memorySize n))
  /-- It has another digest. -/
  | wrongDigest (tokens : List Token)
    (himage : Base64.encode (tokens.flatMap Token.written) = k.image)
    (hlength : (tokens.flatMap Token.expanded).length = Memory.size)
    (hdigest : Sha256.hexDigest (tokens.flatMap Token.expanded) ≠ k.digest) :
    Judged k (.error .digestMismatch)
  /-- It is accepted. -/
  | accepted (tokens : List Token)
    (himage : Base64.encode (tokens.flatMap Token.written) = k.image)
    (hlength : (tokens.flatMap Token.expanded).length = Memory.size)
    (hdigest : Sha256.hexDigest (tokens.flatMap Token.expanded) = k.digest) :
    Judged k (.ok (tokens.flatMap Token.expanded).toArray)

/-- Every image of a checkpoint is judged. -/
theorem judged_memory (k : Checkpoint) : Judged k k.memory := by
  by_cases hbytes : ∃ bytes, Base64.encode bytes = k.image
  · obtain ⟨bytes, himage⟩ := hbytes
    obtain ⟨tokens, tail, rfl⟩ := exists_assemble bytes
    cases tail with
    | complete =>
      rw [assemble_complete] at himage
      obtain ⟨hright, hwrong⟩ := memory_of_complete himage
      by_cases hlength : (tokens.flatMap Token.expanded).length = Memory.size
      · rw [hright hlength]
        by_cases hdigest : Sha256.hexDigest (tokens.flatMap Token.expanded) = k.digest
        · rw [if_pos hdigest]
          exact .accepted tokens himage hlength hdigest
        · rw [if_neg hdigest]
          exact .wrongDigest tokens himage hlength hdigest
      · obtain ⟨n, hn, hsize⟩ := hwrong hlength
        rw [hsize]
        exact .wrongSize hn
    | afterMarker =>
      rcases decodeImage_assemble himage with hall | ⟨n, hlimit, _, htooLong⟩
      · rw [memory_of_error hall]
        exact .corrupt (.marker tokens himage)
      · rw [memory_of_error htooLong]
        exact .wrongSize (by omega)
    | inRun n hn =>
      rcases decodeImage_assemble himage with hall | ⟨length, hlimit, _, htooLong⟩
      · rw [memory_of_error hall]
        exact .corrupt (.run tokens n hn himage)
      · rw [memory_of_error htooLong]
        exact .wrongSize (by omega)
  · rw [not_exists] at hbytes
    rw [memory_of_error (decodeImage_of_ne_encode hbytes)]
    exact .corrupt (.text hbytes)

/-- A checkpoint cannot be restored if there is something wrong with its image, and with nothing
else. -/
theorem restore_eq_error_iff {k : Checkpoint} {e : StateError} :
    k.restore = .error e ↔ k.memory = .error e := by
  unfold restore
  cases k.memory with
  | error e' => simp only [bind, Except.bind, Except.error.injEq]
  | ok bytes => exact ⟨nofun, nofun⟩

/-- An accepted image becomes the memory of the processor. -/
theorem exists_restore {k : Checkpoint} {bytes : Array UInt8} (h : k.memory = .ok bytes) :
    ∃ c, k.restore = .ok c ∧ c.memory.toList = bytes.toList := by
  obtain ⟨himage, hsize, hdigest⟩ := memory_eq_ok_iff.mp h
  exact ⟨k.machine ⟨⟨bytes, hsize⟩⟩,
    restore_eq_ok_iff.mpr ⟨⟨⟨bytes, hsize⟩⟩, himage, hdigest, rfl⟩, rfl⟩

/-- A checkpoint is accepted if its image is well-formed. Its memory is the expansion of the tokens
that the image holds, whichever they are, if there are as many bytes as in memory and they have the
recorded digest. Complete tokens that stand for another number of bytes are rejected for a number
other than the right one; an image is called corrupt if it is no base64 or breaks off within a
token, and only an image of the right size can have a wrong digest. A restored processor has exactly
that memory, and restoring fails with the same error. -/
theorem memory_accepts (k : Checkpoint) :
    (∀ bytes, k.memory = .ok bytes ↔ ∃ tokens : List Token,
      Base64.encode (tokens.flatMap Token.written) = k.image ∧
      tokens.flatMap Token.expanded = bytes.toList ∧ bytes.size = Memory.size ∧
      Sha256.hexDigest bytes.toList = k.digest) ∧
    (∀ tokens : List Token, Base64.encode (tokens.flatMap Token.written) = k.image →
      (tokens.flatMap Token.expanded).length ≠ Memory.size →
      ∃ n, n ≠ Memory.size ∧ k.memory = .error (.memorySize n)) ∧
    (∀ why, k.memory = .error (.corrupt why) → Damaged k.image why) ∧
    (k.memory = .error .digestMismatch ↔ ∃ tokens : List Token,
      Base64.encode (tokens.flatMap Token.written) = k.image ∧
      (tokens.flatMap Token.expanded).length = Memory.size ∧
      Sha256.hexDigest (tokens.flatMap Token.expanded) ≠ k.digest) ∧
    (∀ e, k.restore = .error e ↔ k.memory = .error e) ∧
    ∀ bytes, k.memory = .ok bytes → ∃ c, k.restore = .ok c ∧ c.memory.toList = bytes.toList := by
  have hjudged := judged_memory k
  refine ⟨fun bytes => ⟨fun h => ?_, ?_⟩, fun tokens himage => (memory_of_complete himage).2,
    fun why h => ?_, ⟨fun h => ?_, ?_⟩, fun e => restore_eq_error_iff, fun bytes => exists_restore⟩
  · rw [h] at hjudged
    cases hjudged with
    | accepted tokens himage hlength hdigest => exact ⟨tokens, himage, rfl, hlength, hdigest⟩
  · rintro ⟨tokens, himage, hbytes, hsize, hdigest⟩
    have hlength : (tokens.flatMap Token.expanded).length = Memory.size := by
      rw [hbytes, Array.length_toList, hsize]
    rw [(memory_of_complete himage).1 hlength, hbytes, if_pos hdigest]
  · rw [h] at hjudged
    cases hjudged with
    | corrupt hdamaged => exact hdamaged
  · rw [h] at hjudged
    cases hjudged with
    | wrongDigest tokens himage hlength hdigest => exact ⟨tokens, himage, hlength, hdigest⟩
  · rintro ⟨tokens, himage, hlength, hdigest⟩
    rw [(memory_of_complete himage).1 hlength, if_neg hdigest]

/-- A checkpoint with an image of `n` markers, each written by itself, and the digest of a memory full
of markers. -/
def markers (n : Nat) : Checkpoint :=
  { (default : Checkpoint) with
    image := Base64.encode (List.replicate n [0xFF, 0x00]).flatten
    digest := Sha256.hexDigest (List.replicate Memory.size 0xFF) }

/-- As many markers as there are bytes in memory are accepted, though the encoder would write them in
runs. With another digest they are not, and one more has the wrong size. -/
theorem memory_accepts_markers :
    (markers Memory.size).memory = .ok (Array.replicate Memory.size 0xFF) ∧
    { markers Memory.size with digest := (markers Memory.size).digest ++ "0" }.memory =
      .error .digestMismatch ∧
    ∃ n, n ≠ Memory.size ∧ (markers (Memory.size + 1)).memory = .error (.memorySize n) := by
  have himage (n : Nat) : Base64.encode
      ((List.replicate n Token.literalMarker).flatMap Token.written) = (markers n).image := by
    rw [List.flatMap_replicate]
    rfl
  have hexpanded (n : Nat) :
      (List.replicate n Token.literalMarker).flatMap Token.expanded = List.replicate n 0xFF := by
    rw [List.flatMap_replicate]
    exact List.flatten_replicate_singleton
  have hlonger (text : String) : text ≠ text ++ "0" := by
    intro h
    have hlength := congrArg String.length h
    have hone : "0".length = 1 := rfl
    rw [String.length_append] at hlength
    omega
  refine ⟨?_, ?_, ?_⟩
  · refine ((memory_accepts (markers Memory.size)).1 _).mpr ⟨_, himage Memory.size, ?_, ?_, ?_⟩
    · rw [hexpanded, Array.toList_replicate]
    · exact Array.size_replicate
    · rw [Array.toList_replicate]
      rfl
  · refine (memory_accepts _).2.2.2.1.mpr ⟨_, himage Memory.size, ?_, ?_⟩
    · rw [hexpanded, List.length_replicate]
    · rw [hexpanded]
      exact hlonger _
  · refine (memory_accepts (markers (Memory.size + 1))).2.1 _ (himage (Memory.size + 1)) ?_
    rw [hexpanded, List.length_replicate]
    exact Nat.succ_ne_self _

end Core65C02.Checkpoint
