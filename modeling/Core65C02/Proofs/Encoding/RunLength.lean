import Core65C02.Encoding.RunLength

/-!
# Tokens of the run-length encoding

An encoding is a sequence of tokens: single bytes, markers that stand for themselves, and runs. The
encoder writes tokens that expand to the bytes it was given, and the decoder expands one token after
the other, so the round trip needs no induction over the bytes of an encoding.
-/

namespace Core65C02.RunLength

/-- What the decoder reads at a time. -/
inductive Token
  /-- A byte that stands for itself. -/
  | single (b : UInt8) (hb : b ≠ marker)
  /-- The marker, standing for itself. -/
  | literalMarker
  /-- A byte that is repeated. -/
  | run (n : UInt8) (hn : n ≠ 0) (value : UInt8)

namespace Token

/-- The bytes with which a token is written. -/
def written : Token → List UInt8
  | single b _ => [b]
  | literalMarker => [marker, 0]
  | run n _ value => [marker, n, value]

/-- The bytes that a token stands for. -/
def expanded : Token → List UInt8
  | single b _ => [b]
  | literalMarker => [marker]
  | run n _ value => List.replicate n.toNat value

/-- Whether the decoder counts its output after a token. -/
def isCounted : Token → Bool
  | single _ _ => false
  | _ => true

end Token

/-- The decoder expands the token that comes first, unless it is one after which the output is
counted and found too long. -/
theorem decodeAfter_written (limit : Nat) (out : Array UInt8) (t : Token) (rest : List UInt8) :
    decodeAfter limit out (t.written ++ rest) =
      if t.isCounted ∧ limit < out.size + t.expanded.length then
        .error (.tooLong (out.size + t.expanded.length))
      else decodeAfter limit (out ++ t.expanded.toArray) rest := by
  rw [decodeAfter.eq_def]
  cases t with
  | single b hb => simp [Token.written, Token.expanded, Token.isCounted, hb]
  | literalMarker => simp [Token.written, Token.expanded, Token.isCounted]
  | run n hn value => simp [Token.written, Token.expanded, Token.isCounted, hn]

/-- Tokens are expanded in order if there is room for all of them, whatever follows. -/
theorem decodeAfter_tokens {limit : Nat} (tokens : List Token) {out : Array UInt8}
    (hlimit : out.size + (tokens.flatMap Token.expanded).length ≤ limit) (rest : List UInt8) :
    decodeAfter limit out (tokens.flatMap Token.written ++ rest) =
      decodeAfter limit (out ++ (tokens.flatMap Token.expanded).toArray) rest := by
  induction tokens generalizing out with
  | nil => simp
  | cons t tokens ih =>
    rw [List.flatMap_cons, List.length_append] at hlimit
    have hfirst : ¬ (t.isCounted ∧ limit < out.size + t.expanded.length) := by omega
    have hothers : (out ++ t.expanded.toArray).size + (tokens.flatMap Token.expanded).length ≤
        limit := by
      simp only [Array.size_append, List.size_toArray]
      omega
    rw [List.flatMap_cons, List.append_assoc, decodeAfter_written, if_neg hfirst, ih hothers]
    simp

/-- A run that one triple can carry. -/
def Run.IsCarriable (run : Run) : Prop := 0 < run.length ∧ run.length ≤ longest

/-- A run is written in tokens. -/
theorem Run.exists_tokens {run : Run} (hrun : run.IsCarriable) :
    ∃ tokens : List Token,
      tokens.flatMap Token.written = run.encode ∧ tokens.flatMap Token.expanded = run.bytes := by
  obtain ⟨hpositive, hlongest⟩ := hrun
  unfold longest at hlongest
  unfold Run.encode Run.bytes
  split
  · -- one triple, whose length byte is not zero because the run fits
    have hlength : (UInt8.ofNat run.length).toNat = run.length := by
      rw [UInt8.toNat_ofNat']
      omega
    have hn : UInt8.ofNat run.length ≠ 0 := by
      intro h
      rw [h, UInt8.toNat_zero] at hlength
      omega
    exact ⟨[.run _ hn run.value], by simp [Token.written], by simp [Token.expanded, hlength]⟩
  · split
    · next hmarker =>
      refine ⟨List.replicate run.length .literalMarker, ?_, ?_⟩
      · simp [List.flatMap_replicate, Token.written]
      · simp [List.flatMap_replicate, Token.expanded, hmarker, List.flatten_replicate_singleton]
    · next hmarker =>
      refine ⟨List.replicate run.length (.single run.value hmarker), ?_, ?_⟩ <;>
        simp [List.flatMap_replicate, Token.written, Token.expanded,
          List.flatten_replicate_singleton]

/-- A byte is added at the end: the runs are kept newest first. -/
theorem flatMap_bytes_extend (runs : List Run) (value : UInt8) :
    (extend runs value).reverse.flatMap Run.bytes = runs.reverse.flatMap Run.bytes ++ [value] := by
  cases runs with
  | nil => simp [extend, Run.bytes]
  | cons run older =>
    by_cases h : run.value = value ∧ run.length < longest
    · simp [extend, h, Run.bytes, List.replicate_succ']
    · simp [extend, h, Run.bytes]

/-- A byte more leaves all runs such as can be carried. -/
theorem isCarriable_extend {runs : List Run} (hruns : ∀ run ∈ runs, run.IsCarriable)
    (value : UInt8) : ∀ run ∈ extend runs value, run.IsCarriable := by
  have hone (v : UInt8) : Run.IsCarriable ⟨v, 1⟩ := ⟨by simp, by simp [longest]⟩
  cases runs with
  | nil => simp [extend, hone]
  | cons newest older =>
    by_cases h : newest.value = value ∧ newest.length < longest
    · have hlonger : Run.IsCarriable ⟨value, newest.length + 1⟩ := ⟨Nat.succ_pos _, h.2⟩
      rw [extend, if_pos h]
      exact List.forall_mem_cons.mpr ⟨hlonger, (List.forall_mem_cons.mp hruns).2⟩
    · rw [extend, if_neg h]
      exact List.forall_mem_cons.mpr ⟨hone value, hruns⟩

/-- The runs of a list make up the list. -/
theorem flatMap_bytes_runs (bytes : List UInt8) : (runs bytes).flatMap Run.bytes = bytes := by
  have hfold (older : List Run) : (bytes.foldl extend older).reverse.flatMap Run.bytes =
      older.reverse.flatMap Run.bytes ++ bytes := by
    induction bytes generalizing older with
    | nil => simp
    | cons b bytes ih => rw [List.foldl_cons, ih, flatMap_bytes_extend, List.append_assoc]; rfl
  simpa [runs] using hfold []

/-- Bytes are divided into runs that can be carried. -/
theorem isCarriable_runs (bytes : List UInt8) : ∀ run ∈ runs bytes, run.IsCarriable := by
  have hfold (older : List Run) (holder : ∀ run ∈ older, run.IsCarriable) :
      ∀ run ∈ bytes.foldl extend older, run.IsCarriable := by
    induction bytes generalizing older with
    | nil => exact holder
    | cons b bytes ih => exact ih _ (isCarriable_extend holder b)
  simpa [runs] using hfold [] (by simp)

/-- The encoder writes tokens that stand for the bytes it was given. -/
theorem exists_tokens_encode (bytes : List UInt8) :
    ∃ tokens : List Token,
      tokens.flatMap Token.written = encode bytes ∧ tokens.flatMap Token.expanded = bytes := by
  have hruns (runs : List Run) (hruns : ∀ run ∈ runs, run.IsCarriable) :
      ∃ tokens : List Token, tokens.flatMap Token.written = runs.flatMap Run.encode ∧
        tokens.flatMap Token.expanded = runs.flatMap Run.bytes := by
    induction runs with
    | nil => exact ⟨[], rfl, rfl⟩
    | cons run runs ih =>
      rw [List.forall_mem_cons] at hruns
      obtain ⟨first, hfirst, hfirst'⟩ := run.exists_tokens hruns.1
      obtain ⟨others, hothers, hothers'⟩ := ih hruns.2
      exact ⟨first ++ others, by simp [hfirst, hothers], by simp [hfirst', hothers']⟩
  obtain ⟨tokens, hwritten, hexpanded⟩ := hruns (runs bytes) (isCarriable_runs bytes)
  exact ⟨tokens, hwritten, hexpanded.trans (flatMap_bytes_runs bytes)⟩

/-- Whatever follows an encoding, the decoder expands it to what was encoded, if there is room. -/
theorem decodeAfter_encode {limit : Nat} {out : Array UInt8} (bytes : List UInt8)
    (hlimit : out.size + bytes.length ≤ limit) (rest : List UInt8) :
    decodeAfter limit out (encode bytes ++ rest) = decodeAfter limit (out ++ bytes.toArray) rest := by
  obtain ⟨tokens, hwritten, hexpanded⟩ := exists_tokens_encode bytes
  rw [← hexpanded] at hlimit
  rw [← hwritten, decodeAfter_tokens tokens hlimit, hexpanded]

/-- Decoding gives back what was encoded, if that is wanted. -/
theorem decode_encode {limit : Nat} (bytes : List UInt8) (hlimit : bytes.length ≤ limit) :
    decode limit (encode bytes) = .ok bytes.toArray := by
  have hroom : (#[] : Array UInt8).size + bytes.length ≤ limit := by simpa using hlimit
  have hdecode := decodeAfter_encode bytes hroom []
  rw [List.append_nil] at hdecode
  rw [decode, hdecode, decodeAfter, Array.empty_append]

end Core65C02.RunLength
