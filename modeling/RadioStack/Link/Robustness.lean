import RadioStack.Link.Transfer

/-!
# The receiver on arbitrary messages

The receiver trusts what it is sent: it pops two header bytes without looking at the length, lets
the type byte choose the decoder, and cuts off as many blank bytes as the second byte says.

**Theorem (`receiver_safe_iff`).** One round of the receiver on a message stays inside its vectors
if and only if the message is `Safe`: it is the terminator, its type is unknown, or it has the
payload length that its decoder takes for granted and no more blank bytes than it has bytes.
-/

namespace RadioStack.Link

/-- The number of bytes that the pairs of an RLE payload stand for. -/
def runTotal : List UInt8 → Nat
  | _ :: runLength :: rest => runLength.toNat + runTotal rest
  | _ => 0

/-- The messages on which one round stays inside its vectors. -/
def Safe (z : Zlib) : List UInt8 → Prop
  | compType :: blank :: payload =>
    let blankBytes := blank.toNat
    match compType with
    | 0 => payload.length % 8 = 0 ∧ blankBytes ≤ payload.length / 4
    | 1 => blankBytes ≤ 2 * (payload.length / 2)
    | 2 => payload.length % 2 = 0 ∧ runTotal payload % 8 = 0 ∧ blankBytes ≤ runTotal payload / 4
    | 3 =>
      let size := (lz77Decompress z payload).length
      size % 8 = 0 ∧ blankBytes ≤ size / 4
    | _ => True
  | message => message = terminator

theorem rleDecompress_length : ∀ payload : List UInt8, (rleDecompress payload).map List.length =
    if payload.length % 2 = 0 then some (runTotal payload) else none
  | [] => rfl
  | [_] => rfl
  | byte :: runLength :: rest => by
    have ih := rleDecompress_length rest
    have hparity : (byte :: runLength :: rest).length % 2 = rest.length % 2 := by simp; omega
    rw [hparity]
    cases h : rleDecompress rest <;> simp_all [rleDecompress, runTotal]

theorem deserialize_length : ∀ bytes : List UInt8, (deserialize bytes).map List.length =
    if bytes.length % 8 = 0 then some (bytes.length / 8) else none
  | [] => rfl
  | [_] | [_, _] | [_, _, _] | [_, _, _, _] | [_, _, _, _, _] | [_, _, _, _, _, _]
  | [_, _, _, _, _, _, _] => rfl
  | _ :: _ :: _ :: _ :: _ :: _ :: _ :: _ :: rest => by
    have ih := deserialize_length rest
    cases h : deserialize rest <;> simp_all [deserialize] <;> omega

theorem fromIq_isSome (samples : List Cbf16) (blankBytes : Nat) :
    (fromIq samples blankBytes).isSome ↔ blankBytes ≤ 2 * samples.length := by
  simp [fromIq]

theorem fromIq_deserialize_isSome (bytes : List UInt8) (blankBytes : Nat) :
    ((deserialize bytes).bind fun samples => fromIq samples blankBytes).isSome ↔
      bytes.length % 8 = 0 ∧ blankBytes ≤ bytes.length / 4 := by
  have h := deserialize_length bytes
  cases hd : deserialize bytes with
  | none =>
    simp [hd] at h ⊢
    omega
  | some samples =>
    simp [hd, fromIq_isSome] at h ⊢
    omega

theorem receiver_safe_iff (z : Zlib) (message : List UInt8) :
    isTerminator message ∨ (decodeFrame z message).isSome ↔ Safe z message := by
  match message with
  | [] | [_] => simp [isTerminator, decodeFrame, Safe, terminator]
  | compType :: blank :: payload =>
    simp only [isTerminator_cons_cons, decodeFrame, Safe, Bool.false_eq_true, false_or]
    split
    · exact fromIq_deserialize_isSome ..
    · simp [fromIq_isSome, bfpDecompress_eq_pairSamples, length_pairSamples]
    · have h := rleDecompress_length payload
      cases hd : rleDecompress payload with
      | none =>
        simp [hd] at h ⊢
        omega
      | some out =>
        simp [hd, fromIq_deserialize_isSome] at h ⊢
        simp [h]
    · exact fromIq_deserialize_isSome ..
    · simp

/-- No header, half a header, a payload that is no multiple of eight, an odd RLE payload, and a
blank byte of an empty payload. -/
theorem receiver_unsafe :
    ([[], [1], [0, 0, 7], [2, 0, 7], [1, 1]].map fun message =>
      isTerminator message || (decodeFrame sampleZlib message).isSome) =
      [false, false, false, false, false] := by
  decide

end RadioStack.Link
