import RadioStack.Lib.Outcome
import RadioStack.Rlc.StatusPdu
import Mathlib.Data.List.Chain

/-!
# The status PDU codec

`unpack` rebuilds the list of NACKs with `push_nack`, which merges where it can. The round trip
therefore rests on a normal form: no NACK of the list can be merged into the one before it.
`push_nack` keeps it, because merging changes nothing that the NACK before looks at except that
the range grows.

The functions of `StatusPdu` read lists of bytes, so they cannot read beyond them. Here `unpack`
is given once more with a reader whose every access is checked, as the source has it.

**Theorem (`statusPdu_codec`).** A status PDU built by `push_nack` survives packing and
unpacking, and takes `get_packed_size()` bytes. On any bytes `unpack` ends without an access
beyond them, and the packed size of what it accepts is that of the stored list.
-/

namespace RadioStack.Rlc.StatusPdu

/-! ## Pushing -/

section

variable {s : StatusPdu} {front : List StatusNack} {prev nack : StatusNack}

theorem pushNack_of_merge (h : s.nacks = front ++ [prev])
    (hmerge : s.canBeMerged prev nack = true) : s.pushNack nack =
      { s with
        nacks := front ++ [mergeNack prev nack]
        packedSize := s.packedSize - nackSize s.snSize prev +
          nackSize s.snSize (mergeNack prev nack) } := by
  rw [pushNack, h]
  simp [hmerge]

theorem pushNack_of_not_merge (h : ∀ prev ∈ s.nacks.getLast?, s.canBeMerged prev nack = false) :
    s.pushNack nack =
      { s with
        nacks := s.nacks ++ [nack]
        packedSize := s.packedSize + nackSize s.snSize nack } := by
  rw [pushNack]
  split
  · rfl
  · next prev hprev => rw [if_neg (by simp [h prev hprev])]

theorem pushNack_cases (s : StatusPdu) (nack : StatusNack) :
    (∃ front prev, s.nacks = front ++ [prev] ∧ s.canBeMerged prev nack = true) ∨
      ∀ prev ∈ s.nacks.getLast?, s.canBeMerged prev nack = false := by
  rcases List.eq_nil_or_concat s.nacks with hnil | ⟨front, prev, hlast⟩
  · exact .inr (by simp [hnil])
  · rw [List.concat_eq_append] at hlast
    cases hmerge : s.canBeMerged prev nack with
    | true => exact .inl ⟨front, prev, hlast, hmerge⟩
    | false => exact .inr (by simpa [hlast] using hmerge)

end

/-! ## The packed size -/

variable (n : AmSnSize)

/-- The size that the stored NACKs take. -/
def nacksSize (nacks : List StatusNack) : Nat := 3 + (nacks.map (nackSize n)).sum

def Synced (s : StatusPdu) : Prop := s.packedSize = nacksSize s.snSize s.nacks

theorem nacksSize_append (nacks : List StatusNack) (nack : StatusNack) :
    nacksSize n (nacks ++ [nack]) = nacksSize n nacks + nackSize n nack := by
  simp [nacksSize, Nat.add_assoc]

variable {s : StatusPdu}

theorem Synced.pushNack (h : s.Synced) (nack : StatusNack) :
    (s.pushNack nack).Synced := by
  rw [Synced] at h
  rcases pushNack_cases s nack with ⟨front, prev, hlast, hmerge⟩ | hnot
  · rw [hlast, nacksSize_append] at h
    rw [pushNack_of_merge hlast hmerge, Synced]
    simp only [nacksSize_append]
    omega
  · rw [pushNack_of_not_merge hnot, Synced]
    simp [nacksSize_append, h]

theorem Synced.foldl (h : s.Synced) (nacks : List StatusNack) :
    (nacks.foldl StatusPdu.pushNack s).Synced :=
  List.foldlRecOn nacks _ h fun _ ht nack _ => ht.pushNack nack

theorem length_packNack (nack : StatusNack) (more : Bool) :
    (packNack n nack more).length = nackSize n nack := by
  cases n <;> simp only [packNack, packNackOptions, nackSize, List.length_append] <;>
    cases nack.hasSo <;> cases nack.hasNackRange <;> rfl

theorem length_packNacks (nacks : List StatusNack) :
    (packNacks n nacks).length = (nacks.map (nackSize n)).sum := by
  induction nacks with
  | nil => rfl
  | cons nack nacks ih =>
    rw [packNacks, List.length_append, length_packNack, ih, List.map_cons, List.sum_cons]

theorem length_pack (s : StatusPdu) : s.pack.length = nacksSize s.snSize s.nacks := by
  rw [pack, List.length_append, length_packNacks, nacksSize]
  cases s.snSize <;> rfl

/-! ## The normal form -/

/-- No NACK can be merged into the one before it. -/
def Normal (s : StatusPdu) (nacks : List StatusNack) : Prop :=
  nacks.IsChain fun left right => s.canBeMerged left right = false

theorem canBeMerged_of_mergeNack {left prev nack : StatusNack}
    (h : s.canBeMerged left (mergeNack prev nack) = true) : s.canBeMerged left prev = true := by
  rw [canBeMerged_iff, nackSn_mergeNack, span_mergeNack, hasSo_mergeNack] at h
  obtain ⟨hsn, hleft, hright, hspan⟩ := h
  refine canBeMerged_iff.2 ⟨hsn, hleft, fun hp => ?_, by omega⟩
  have hstart := hright (by rw [hp, Bool.true_or])
  rwa [soStart_mergeNack prev nack (.inl hp), if_pos hp] at hstart

theorem Normal.pushNack (h : Normal s s.nacks) (nack : StatusNack) :
    Normal s (s.pushNack nack).nacks := by
  rcases pushNack_cases s nack with ⟨front, prev, hlast, hmerge⟩ | hnot
  · rw [pushNack_of_merge hlast hmerge]
    rw [hlast, Normal, List.isChain_append] at h
    rw [Normal, List.isChain_append]
    refine ⟨h.1, .singleton _, fun left hleft right hright => ?_⟩
    obtain rfl : mergeNack prev nack = right := by simpa using hright
    have hprev := h.2.2 left hleft prev (by simp)
    exact Bool.eq_false_iff.2 fun hm =>
      absurd (canBeMerged_of_mergeNack hm) (Bool.eq_false_iff.1 hprev)
  · rw [pushNack_of_not_merge hnot, Normal, List.isChain_append]
    refine ⟨h, .singleton _, fun left hleft right hright => ?_⟩
    obtain rfl : nack = right := by simpa using hright
    exact hnot left hleft

variable {nacks : List StatusNack}

theorem Normal.of_snSize {s t : StatusPdu} (hsize : s.snSize = t.snSize) (h : Normal s nacks) :
    Normal t nacks := by
  have hsame : ∀ left right, t.canBeMerged left right = s.canBeMerged left right := by
    intro left right
    simp [canBeMerged, hsize]
  simpa only [Normal, hsame] using h

theorem Normal.foldl (h : Normal s s.nacks) (nacks : List StatusNack) :
    Normal s (nacks.foldl StatusPdu.pushNack s).nacks := by
  induction nacks generalizing s with
  | nil => exact h
  | cons nack nacks ih =>
    have hpush := ih ((h.pushNack nack).of_snSize (snSize_pushNack s nack).symm)
    exact hpush.of_snSize (snSize_pushNack s nack)

/-- Pushing NACKs in normal form keeps every one of them. -/
theorem nacks_foldl_of_normal (h : Normal s (s.nacks ++ nacks)) :
    (nacks.foldl StatusPdu.pushNack s).nacks = s.nacks ++ nacks := by
  induction nacks generalizing s with
  | nil => exact (List.append_nil _).symm
  | cons nack nacks ih =>
    have hnot : ∀ prev ∈ s.nacks.getLast?, s.canBeMerged prev nack = false := fun prev hprev =>
      (List.isChain_append.1 h).2.2 prev hprev nack (by simp)
    have hpush : (s.pushNack nack).nacks = s.nacks ++ [nack] := by rw [pushNack_of_not_merge hnot]
    have hnext : Normal (s.pushNack nack) ((s.pushNack nack).nacks ++ nacks) := by
      rw [hpush, List.append_assoc]
      exact h.of_snSize (snSize_pushNack s nack).symm
    rw [List.foldl_cons, ih hnext, hpush, List.append_assoc]
    rfl

/-! ## The checked reader -/

/-- A read or an advance beyond the last byte, or a loop that does not end. -/
inductive ReadFault where
  | overrun
  | fuel
  deriving DecidableEq

/-- `*pdu_reader`. -/
def deref : List UInt8 → Except ReadFault UInt8
  | [] => .error .overrun
  | b :: _ => .ok b

/-- `++pdu_reader`. -/
def advance : List UInt8 → Except ReadFault (List UInt8)
  | [] => .error .overrun
  | _ :: reader => .ok reader

@[simp] theorem deref_cons (b : UInt8) (reader : List UInt8) : deref (b :: reader) = .ok b := rfl

@[simp] theorem advance_cons (b : UInt8) (reader : List UInt8) :
    advance (b :: reader) = .ok reader := rfl

/-- The offsets that follow if E2 is set. -/
def unpackSo (nack : StatusNack) (reader : List UInt8) :
    Except ReadFault (Option (StatusNack × List UInt8)) :=
  if reader.length < 4 then .ok none
  else do
    let a₁ ← deref reader
    let reader ← advance reader
    let a₀ ← deref reader
    let reader ← advance reader
    let b₁ ← deref reader
    let reader ← advance reader
    let b₀ ← deref reader
    let reader ← advance reader
    return some ({ nack with
      hasSo := true
      soStart := a₁.toNat <<< 8 ||| a₀.toNat
      soEnd := b₁.toNat <<< 8 ||| b₀.toNat }, reader)

/-- The range that follows if E3 is set. -/
def unpackRange (nack : StatusNack) (reader : List UInt8) :
    Except ReadFault (Option (StatusNack × List UInt8)) :=
  if reader.length < 1 then .ok none
  else do
    let r ← deref reader
    let reader ← advance reader
    return some ({ nack with hasNackRange := true, nackRange := r.toNat }, reader)

/-- Both optional parts. -/
def unpackOptions (nack : StatusNack) (e₂ e₃ : Bool) (reader : List UInt8) :
    Except ReadFault (Option (StatusNack × List UInt8)) := do
  let so ← if e₂ then unpackSo nack reader else .ok (some (nack, reader))
  match so with
  | none => .ok none
  | some (nack, reader) =>
    if e₃ then unpackRange nack reader else .ok (some (nack, reader))

/-- The loop body of `unpack_12bit`. -/
def unpackNack12 (reader : List UInt8) :
    Except ReadFault (Option (StatusNack × Bool × List UInt8)) :=
  if reader.length < 2 then .ok none
  else do
    let b₁ ← deref reader
    let reader ← advance reader
    let b₂ ← deref reader
    if b₂.toNat &&& 0x01 ≠ 0 then .ok none
    else
      let reader ← advance reader
      let r ← unpackOptions { nackSn := (b₁.toNat &&& 0xff) <<< 4 ||| (b₂.toNat &&& 0xf0) >>> 4 }
        (b₂.toNat &&& 0x04 != 0) (b₂.toNat &&& 0x02 != 0) reader
      return r.map fun r => (r.1, b₂.toNat &&& 0x08 != 0, r.2)

/-- The loop body of `unpack_18bit`. -/
def unpackNack18 (reader : List UInt8) :
    Except ReadFault (Option (StatusNack × Bool × List UInt8)) :=
  if reader.length < 3 then .ok none
  else do
    let b₁ ← deref reader
    let reader ← advance reader
    let b₂ ← deref reader
    let reader ← advance reader
    let b₃ ← deref reader
    if b₃.toNat &&& 0x07 ≠ 0 then .ok none
    else
      let reader ← advance reader
      let r ← unpackOptions
        { nackSn := (b₁.toNat &&& 0xff) <<< 10 ||| (b₂.toNat &&& 0xff) <<< 2 |||
            (b₃.toNat &&& 0xc0) >>> 6 }
        (b₃.toNat &&& 0x10 != 0) (b₃.toNat &&& 0x08 != 0) reader
      return r.map fun r => (r.1, b₃.toNat &&& 0x20 != 0, r.2)

def unpackNack : AmSnSize → List UInt8 → Except ReadFault (Option (StatusNack × Bool × List UInt8))
  | .size12bits => unpackNack12
  | .size18bits => unpackNack18

/-- The loop `while (e1 != 0)`. -/
def unpackNacks : Nat → StatusPdu → Bool → List UInt8 → Except ReadFault (Option StatusPdu)
  | _, s, false, _ => .ok (some s)
  | 0, _, true, _ => .error .fuel
  | fuel + 1, s, true, reader => do
    match ← unpackNack s.snSize reader with
    | none => .ok none
    | some (nack, e₁, reader) => unpackNacks fuel (s.pushNack nack) e₁ reader

/-- `unpack` with every access checked. -/
def unpackChecked (pdu : List UInt8) : Except ReadFault (Option StatusPdu) :=
  if pdu.length < 3 then .ok none
  else do
    let first ← deref pdu
    if (first.toNat >>> 7) &&& 0x01 ≠ DcField.control.toNumber then .ok none
    else if (first.toNat >>> 4) &&& 0x07 ≠ 0 then .ok none
    else
      let reader ← advance pdu
      let b₁ ← deref reader
      let reader ← advance reader
      let b₂ ← deref reader
      if (unpackFixed n first b₁ b₂).2.2 ≠ 0 then .ok none
      else
        let reader ← advance reader
        unpackNacks pdu.length { snSize := n, ackSn := (unpackFixed n first b₁ b₂).1 }
          (unpackFixed n first b₁ b₂).2.1 reader

/-- No access of the optional parts fails. -/
theorem unpackOptions_eq (nack : StatusNack) (e₂ e₃ : Bool) (reader : List UInt8) :
    unpackOptions nack e₂ e₃ reader = .ok (readNackOptions nack e₂ e₃ reader) := by
  have hrange (nack : StatusNack) (reader : List UInt8) :
      unpackOptions nack false e₃ reader = .ok (readNackOptions nack false e₃ reader) := by
    cases e₃ with
    | false => rfl
    | true => cases reader <;> rfl
  cases e₂ with
  | false => exact hrange nack reader
  | true =>
    rcases reader with _ | ⟨a₁, _ | ⟨a₀, _ | ⟨b₁, _ | ⟨b₀, rest⟩⟩⟩⟩
    iterate 4 rfl
    exact hrange _ rest

/-- No access of the loop body fails. -/
theorem unpackNack_eq (reader : List UInt8) :
    unpackNack n reader = .ok (readNack n reader) := by
  cases n with
  | size12bits =>
    rcases reader with _ | ⟨b₁, _ | ⟨b₂, rest⟩⟩
    · rfl
    · rfl
    · have hlen : ¬ (b₁ :: b₂ :: rest).length < 2 := by simp
      rw [unpackNack, unpackNack12, if_neg hlen, bind_of_ok (deref_cons _ _),
        bind_of_ok (advance_cons _ _), bind_of_ok (deref_cons _ _), readNack]
      split
      · rfl
      · rw [bind_of_ok (advance_cons _ _), bind_of_ok (unpackOptions_eq _ _ _ _)]
        cases readNackOptions _ _ _ rest <;> rfl
  | size18bits =>
    rcases reader with _ | ⟨b₁, _ | ⟨b₂, _ | ⟨b₃, rest⟩⟩⟩
    iterate 3 rfl
    · have hlen : ¬ (b₁ :: b₂ :: b₃ :: rest).length < 3 := by simp
      rw [unpackNack, unpackNack18, if_neg hlen, bind_of_ok (deref_cons _ _),
        bind_of_ok (advance_cons _ _), bind_of_ok (deref_cons _ _), bind_of_ok (advance_cons _ _),
        bind_of_ok (deref_cons _ _), readNack]
      split
      · rfl
      · rw [bind_of_ok (advance_cons _ _), bind_of_ok (unpackOptions_eq _ _ _ _)]
        cases readNackOptions _ _ _ rest <;> rfl

/-- The loop ends, and it reads what `readNacks` reads. -/
theorem unpackNacks_eq {fuel : Nat} {reader : List UInt8} (hfuel : reader.length < fuel) :
    unpackNacks fuel s true reader = .ok (readNacks fuel s reader) := by
  induction fuel generalizing s reader with
  | zero => omega
  | succ fuel ih =>
    rw [unpackNacks, bind_of_ok (unpackNack_eq _ _), readNacks]
    cases hread : readNack s.snSize reader with
    | none => rfl
    | some r =>
      obtain ⟨nack, e₁, rest⟩ := r
      have hshort := (readNack_spec hread).2
      cases e₁ with
      | false => cases fuel <;> rfl
      | true => exact ih (by omega)

/-- **No access of `unpack` fails**, and it ends. -/
theorem unpackChecked_eq (pdu : List UInt8) :
    unpackChecked n pdu = .ok (unpack n pdu) := by
  match pdu with
  | [] => rfl
  | [_] => rfl
  | [_, _] => rfl
  | b₀ :: b₁ :: b₂ :: rest =>
    have hlen : ¬ (b₀ :: b₁ :: b₂ :: rest).length < 3 := by simp
    rw [unpackChecked, if_neg hlen, bind_of_ok (deref_cons _ _), unpack_cons]
    by_cases hcontrol : (b₀.toNat >>> 7) &&& 0x01 ≠ DcField.control.toNumber
    · rw [if_pos hcontrol, if_pos (bne_iff_ne.2 hcontrol)]
    · rw [if_neg hcontrol, if_neg (mt bne_iff_ne.1 hcontrol)]
      by_cases hcpt : (b₀.toNat >>> 4) &&& 0x07 ≠ 0
      · rw [if_pos hcpt, if_pos hcpt]
      · rw [if_neg hcpt, if_neg hcpt, bind_of_ok (advance_cons _ _), bind_of_ok (deref_cons _ _),
          bind_of_ok (advance_cons _ _), bind_of_ok (deref_cons _ _)]
        by_cases hreserved : (unpackFixed n b₀ b₁ b₂).2.2 ≠ 0
        · rw [if_pos hreserved, if_pos hreserved]
        · rw [if_neg hreserved, if_neg hreserved, bind_of_ok (advance_cons _ _)]
          cases (unpackFixed n b₀ b₁ b₂).2.1 with
          | false => rfl
          | true => exact unpackNacks_eq (by simp only [List.length_cons]; omega)

/-! ## Round trip and sizes -/

theorem unpack_synced {n : AmSnSize} {pdu : List UInt8} (h : unpack n pdu = some s) :
    s.Synced ∧ s.snSize = n := by
  obtain ⟨ack, nacks, -, -, rfl⟩ := unpack_eq_foldl h
  exact ⟨Synced.foldl (s := { snSize := n, ackSn := ack }) rfl nacks, snSize_foldl _ _⟩

/-- **The codec of the status PDU.** -/
theorem statusPdu_codec (n : AmSnSize) :
    (∀ (ackSn : Nat) (elements : List StatusNack), ackSn < n.mod →
      (∀ x ∈ elements, WellFormedNack n x) →
        let s := elements.foldl StatusPdu.pushNack { snSize := n, ackSn := ackSn }
        s.pack.length = s.packedSize ∧
          ∃ s', unpackChecked n s.pack = .ok (some s') ∧ s'.ackSn = ackSn ∧ s'.nacks = s.nacks) ∧
    ∀ pdu : List UInt8, ∃ result, unpackChecked n pdu = .ok result ∧
      ∀ s, result = some s → s.packedSize = 3 + (s.nacks.map (nackSize n)).sum := by
  refine ⟨fun ackSn elements hack helems => ?_, fun pdu => ⟨_, unpackChecked_eq n pdu, ?_⟩⟩
  · have hempty : Normal { snSize := n, ackSn := ackSn } [] := .nil
    have hnormal := Normal.foldl (s := { snSize := n, ackSn := ackSn }) hempty elements
    have hsync := Synced.foldl (s := { snSize := n, ackSn := ackSn }) rfl elements
    have hwf := wellFormed_foldl (s := { snSize := n, ackSn := ackSn }) nofun
      helems
    have hround := unpack_pack (s := elements.foldl StatusPdu.pushNack
      { snSize := n, ackSn := ackSn }) (by simpa using hwf)
    rw [snSize_foldl, ackSn_foldl] at hround
    exact ⟨(length_pack _).trans hsync.symm, _,
      (unpackChecked_eq n _).trans (congrArg Except.ok hround),
      (ackSn_foldl _ _).trans (Nat.mod_eq_of_lt hack),
      nacks_foldl_of_normal (hnormal.of_snSize rfl)⟩
  · intro s hs
    obtain ⟨hsync, hsize⟩ := unpack_synced hs
    rw [Synced, nacksSize, hsize] at hsync
    exact hsync

/-- A missing SDU and a missing segment of the next one are merged, packed and read back. -/
theorem statusPdu_codec_wrap :
    let elements : List StatusNack :=
      [{ nackSn := 4095 }, { nackSn := 0, hasSo := true, soStart := 0, soEnd := 99 }]
    let s := elements.foldl StatusPdu.pushNack { snSize := .size12bits, ackSn := 1 }
    s.pack.length = s.packedSize ∧
      ∃ s', unpackChecked .size12bits s.pack = .ok (some s') ∧ s'.ackSn = 1 ∧
        s'.nacks = s.nacks := by
  refine (statusPdu_codec .size12bits).1 1 _ (by decide) ?_
  intro x hx
  rcases List.mem_cons.1 hx with rfl | hx
  · exact ⟨by decide, by decide, by decide, by decide, fun _ => ⟨rfl, rfl⟩, fun _ => rfl⟩
  · obtain rfl := List.mem_singleton.1 hx
    exact ⟨by decide, by decide, by decide, by decide, nofun, fun _ => rfl⟩

end RadioStack.Rlc.StatusPdu
