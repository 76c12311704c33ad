import Mathlib.Algebra.GroupWithZero.Nat
import Mathlib.Data.List.FinRange

/-!
# Scheduling of logical channels in the downlink

`dl_logical_channel_manager` keeps what is pending for a UE: the buffer status of each logical
channel, the contention resolution and the timing advance commands. For a transport block,
`allocate_mac_ces` and `allocate_mac_sdus` fill a list of at most four subPDUs with control elements
and with a number of bytes for logical channels.

An SDU has a subheader of two bytes, or of three from 256 bytes on, so there is no subPDU of 258
bytes, and a byte is left when one would be due.

**Theorem (`buildDlTransportBlockInfo_bytes`).** The subPDUs of the list take exactly the bytes that
were allocated, which are at most the size of the block.
-/

namespace RadioStack.Mac

/-! ## Sizes -/

def fixedSizedMacCeSubheaderSize : Nat := 1

def macSduSubheaderLengthThres : Nat := 256

def minMacSduSubheaderSize : Nat := 2

def maxMacSduSubheaderSize : Nat := 3

def getMacSduSubheaderSize (payload : Nat) : Nat :=
  if payload = 0 then 0
  else if macSduSubheaderLengthThres ≤ payload then maxMacSduSubheaderSize
  else minMacSduSubheaderSize

def getMacSduRequiredBytes (payload : Nat) : Nat := payload + getMacSduSubheaderSize payload

def getMacSduPayloadSize (macSduSize : Nat) : Nat :=
  if macSduSize ≤ macSduSubheaderLengthThres + minMacSduSubheaderSize - 1 then
    macSduSize - minMacSduSubheaderSize
  else macSduSize - maxMacSduSubheaderSize

/-- `get_mac_sdu_size` of the channel manager. -/
def getMacSduSize (sduAndSubheaderBytes : Nat) : Nat :=
  if sduAndSubheaderBytes = 0 then 0
  else
    let sduSize := sduAndSubheaderBytes - minMacSduSubheaderSize
    if sduSize < macSduSubheaderLengthThres then sduSize else sduSize - 1

theorem getMacSduSubheaderSize_cases (payload : Nat) :
    (payload = 0 ∧ getMacSduSubheaderSize payload = 0) ∨
      (0 < payload ∧ payload < 256 ∧ getMacSduSubheaderSize payload = 2) ∨
      (256 ≤ payload ∧ getMacSduSubheaderSize payload = 3) := by
  rw [getMacSduSubheaderSize, macSduSubheaderLengthThres, maxMacSduSubheaderSize,
    minMacSduSubheaderSize]
  by_cases hzero : payload = 0
  · exact .inl ⟨hzero, if_pos hzero⟩
  · rw [if_neg hzero]
    by_cases hlong : 256 ≤ payload
    · exact .inr (.inr ⟨hlong, if_pos hlong⟩)
    · exact .inr (.inl ⟨Nat.pos_of_ne_zero hzero, Nat.lt_of_not_le hlong, if_neg hlong⟩)

theorem getMacSduPayloadSize_cases (n : Nat) :
    (n ≤ 257 ∧ getMacSduPayloadSize n = n - 2) ∨ (257 < n ∧ getMacSduPayloadSize n = n - 3) := by
  rcases Nat.lt_or_ge 257 n with hlong | hshort
  · exact .inr ⟨hlong, if_neg (Nat.not_le.2 hlong)⟩
  · exact .inl ⟨hshort, if_pos hshort⟩

theorem getMacSduRequiredBytes_getMacSduSize {n : Nat} (hmin : 3 ≤ n) (hne : n ≠ 258) :
    getMacSduRequiredBytes (getMacSduSize n) = n := by
  have hsize : getMacSduSize n = getMacSduPayloadSize n := by
    rw [getMacSduSize, if_neg (by omega), minMacSduSubheaderSize, macSduSubheaderLengthThres]
    rcases getMacSduPayloadSize_cases n with ⟨hn, heq⟩ | ⟨hn, heq⟩
    · rw [heq, if_pos (by omega)]
    · rw [heq, if_neg (by omega)]
      omega
  rw [hsize, getMacSduRequiredBytes]
  rcases getMacSduPayloadSize_cases n with ⟨hn, heq⟩ | ⟨hn, heq⟩ <;>
    rcases getMacSduSubheaderSize_cases (getMacSduPayloadSize n) with h | h | h <;> omega

theorem getMacSduRequiredBytes_payload {n : Nat} (hmin : 3 ≤ n) :
    getMacSduRequiredBytes (getMacSduPayloadSize n) ≤ n ∧ 0 < getMacSduPayloadSize n := by
  rw [getMacSduRequiredBytes]
  rcases getMacSduPayloadSize_cases n with ⟨hn, heq⟩ | ⟨hn, heq⟩ <;>
    rcases getMacSduSubheaderSize_cases (getMacSduPayloadSize n) with h | h | h <;> omega

theorem getMacSduSubheaderSize_mono {m n : Nat} (h : m ≤ n) :
    getMacSduSubheaderSize m ≤ getMacSduSubheaderSize n := by
  rcases getMacSduSubheaderSize_cases m with hm | hm | hm <;>
    rcases getMacSduSubheaderSize_cases n with hn | hn | hn <;> omega

theorem getMacSduRequiredBytes_mono {m n : Nat} (h : m ≤ n) :
    getMacSduRequiredBytes m ≤ getMacSduRequiredBytes n :=
  Nat.add_le_add h (getMacSduSubheaderSize_mono h)

theorem three_le_getMacSduRequiredBytes {n : Nat} (h : n ≠ 0) : 3 ≤ getMacSduRequiredBytes n := by
  rw [getMacSduRequiredBytes]
  rcases getMacSduSubheaderSize_cases n with hn | hn | hn <;> omega

/-! ## Logical channels -/

/-- The logical channels of radio bearers, SRB0 first. -/
abbrev RbLcid := Fin 33

/-- `channel_context`. The buffer status comes through a table of signed numbers. -/
structure ChannelContext where
  active : Bool
  bufSt : Nat
  bufSt_lt : bufSt < 2 ^ 31

/-- `ta_cmd_ce_payload`, with the values of the timing advance manager. -/
structure TaCmdCePayload where
  tagId : Nat
  taCmd : Nat
  tagId_lt : tagId < 4
  taCmd_lt : taCmd < 64
  deriving DecidableEq

/-- `dl_logical_channel_manager`. Besides the contention resolution, only timing advance commands
are queued as control elements. -/
structure DlLogicalChannelManager where
  channels : RbLcid → ChannelContext
  pendingConResId : Bool
  pendingCes : List TaCmdCePayload

/-- `dl_msg_lc_info`: a scheduled subPDU. -/
inductive DlMsgLcInfo where
  | ueConResId
  | taCmd (payload : TaCmdCePayload)
  | sdu (lcid : RbLcid) (schedBytes : Nat)
  deriving DecidableEq

/-- The bytes of a scheduled subPDU, with its subheader. -/
def DlMsgLcInfo.requiredBytes : DlMsgLcInfo → Nat
  | ueConResId => fixedSizedMacCeSubheaderSize + 6
  | taCmd _ => fixedSizedMacCeSubheaderSize + 1
  | sdu _ schedBytes => getMacSduRequiredBytes schedBytes

def maxLcPerTb : Nat := 4

namespace DlLogicalChannelManager

variable (m : DlLogicalChannelManager)

/-- `pending_bytes` of a logical channel. -/
def pendingBytes (lcid : RbLcid) : Nat :=
  if (m.channels lcid).active then getMacSduRequiredBytes (m.channels lcid).bufSt else 0

def pendingCeBytes : Nat :=
  (if m.pendingConResId then DlMsgLcInfo.ueConResId.requiredBytes else 0) +
    (m.pendingCes.map fun ce => (DlMsgLcInfo.taCmd ce).requiredBytes).sum

/-- `pending_bytes` of the UE, without SRB0. -/
def totalPendingBytes : Nat :=
  (m.pendingCeBytes + ((List.finRange 33).tail.map m.pendingBytes).sum) % 2 ^ 32

def getMaxPrioLcid : Option RbLcid :=
  (List.finRange 33).find? fun lcid => (m.channels lcid).active && 0 < (m.channels lcid).bufSt

/-- Takes bytes from the buffer status of a channel. -/
def consume (lcid : RbLcid) (bytes : Nat) : DlLogicalChannelManager :=
  { m with
    channels := Function.update m.channels lcid
      { m.channels lcid with
        bufSt := (m.channels lcid).bufSt - min bytes (m.channels lcid).bufSt
        bufSt_lt := Nat.lt_of_le_of_lt (Nat.sub_le ..) (m.channels lcid).bufSt_lt } }

/-- Adds the bytes that are left to an allocation, when they are of no use otherwise. -/
def withLeftover (remBytes allocBytes : Nat) : Nat :=
  let leftoverBytes := remBytes - allocBytes
  if 0 < leftoverBytes ∧ (leftoverBytes ≤ maxMacSduSubheaderSize + 1 ∨ m.totalPendingBytes = 0) then
    allocBytes + leftoverBytes
  else allocBytes

/-- The bytes that `allocate_mac_sdu` takes of `remBytes` for a channel. -/
def allocBytes (lcid : RbLcid) (remBytes : Nat) : Nat :=
  let allocBytes :=
    m.withLeftover remBytes (min remBytes (getMacSduRequiredBytes (m.pendingBytes lcid)))
  -- there is no subPDU of this size
  if allocBytes = macSduSubheaderLengthThres + minMacSduSubheaderSize then allocBytes - 1
  else allocBytes

/-- `allocate_mac_sdu`: the allocated bytes and the subPDU. -/
def allocateMacSdu (lcid : Option RbLcid) (remBytes : Nat) :
    Option (Nat × DlMsgLcInfo × DlLogicalChannelManager) :=
  (lcid.or m.getMaxPrioLcid).bind fun lcid =>
    if m.pendingBytes lcid = 0 ∨ remBytes ≤ minMacSduSubheaderSize then none
    else
      let sduSize := getMacSduSize (m.allocBytes lcid remBytes)
      some (m.allocBytes lcid remBytes, .sdu lcid sduSize, m.consume lcid sduSize)

def allocateMacCe (remBytes : Nat) : Option (Nat × DlMsgLcInfo × DlLogicalChannelManager) :=
  if m.pendingConResId ∧ DlMsgLcInfo.ueConResId.requiredBytes ≤ remBytes then
    some (DlMsgLcInfo.ueConResId.requiredBytes, .ueConResId, { m with pendingConResId := false })
  else
    match m.pendingCes with
    | [] => none
    | ce :: pendingCes =>
      if remBytes < (DlMsgLcInfo.taCmd ce).requiredBytes then none
      else some ((DlMsgLcInfo.taCmd ce).requiredBytes, .taCmd ce, { m with pendingCes })

/-- The loop of `allocate_mac_sdus` with the places that are left in the list. -/
def allocateMacSdus (lcid : Option RbLcid) : Nat → DlLogicalChannelManager → Nat →
    List DlMsgLcInfo × DlLogicalChannelManager × Nat
  | 0, m, remTbs => ([], m, remTbs)
  | places + 1, m, remTbs =>
    if maxMacSduSubheaderSize < remTbs then
      match m.allocateMacSdu lcid remTbs with
      | none => ([], m, remTbs)
      | some (allocBytes, subpdu, m) =>
        let rest := allocateMacSdus lcid places m (remTbs - allocBytes)
        (subpdu :: rest.1, rest.2)
    else ([], m, remTbs)

/-- The loop of `allocate_mac_ces` with the places that are left in the list. -/
def allocateMacCes : Nat → DlLogicalChannelManager → Nat →
    List DlMsgLcInfo × DlLogicalChannelManager × Nat
  | 0, m, remTbs => ([], m, remTbs)
  | places + 1, m, remTbs =>
    match m.allocateMacCe remTbs with
    | none => ([], m, remTbs)
    | some (allocBytes, subpdu, m) =>
      let rest := allocateMacCes places m (remTbs - allocBytes)
      (subpdu :: rest.1, rest.2)

/-- Allocates SDUs for one selection of channels after the other. -/
def allocateSelections : List (Option RbLcid) → Nat → DlLogicalChannelManager → Nat →
    List DlMsgLcInfo × DlLogicalChannelManager × Nat
  | [], _, m, remTbs => ([], m, remTbs)
  | lcid :: lcids, places, m, remTbs =>
    let (subpdus, m, remTbs) := allocateMacSdus lcid places m remTbs
    let rest := allocateSelections lcids (places - subpdus.length) m remTbs
    (subpdus ++ rest.1, rest.2)

/-- `build_dl_transport_block_info`: control elements first, then the given logical channels, each
by its identity or (`none`) by priority. The result is the list, the manager afterwards and the
bytes that are left. -/
def buildDlTransportBlockInfo (tbSizeBytes : Nat) (lcids : List (Option RbLcid)) :
    List DlMsgLcInfo × DlLogicalChannelManager × Nat :=
  let (ces, m, remTbs) := allocateMacCes maxLcPerTb m tbSizeBytes
  let rest := allocateSelections lcids (maxLcPerTb - ces.length) m remTbs
  (ces ++ rest.1, rest.2)

/-! ## What is allocated -/

variable {m}

def listBytes (subpdus : List DlMsgLcInfo) : Nat := (subpdus.map DlMsgLcInfo.requiredBytes).sum

theorem listBytes_append (xs ys : List DlMsgLcInfo) :
    listBytes (xs ++ ys) = listBytes xs + listBytes ys := by
  rw [listBytes, List.map_append, List.sum_append]
  rfl

theorem listBytes_cons (x : DlMsgLcInfo) (xs : List DlMsgLcInfo) :
    listBytes (x :: xs) = x.requiredBytes + listBytes xs := rfl

theorem withLeftover_bounds {remBytes alloc : Nat} (h : alloc ≤ remBytes) :
    alloc ≤ m.withLeftover remBytes alloc ∧ m.withLeftover remBytes alloc ≤ remBytes := by
  rw [withLeftover]
  split <;> omega

theorem allocBytes_spec {lcid : RbLcid} {remBytes : Nat} (hpending : m.pendingBytes lcid ≠ 0)
    (hrem : minMacSduSubheaderSize < remBytes) :
    3 ≤ m.allocBytes lcid remBytes ∧ m.allocBytes lcid remBytes ≤ remBytes ∧
      m.allocBytes lcid remBytes ≠ 258 := by
  have hmin : 3 ≤ min remBytes (getMacSduRequiredBytes (m.pendingBytes lcid)) :=
    Nat.le_min.2 ⟨hrem, three_le_getMacSduRequiredBytes hpending⟩
  obtain ⟨hlow, hhigh⟩ := withLeftover_bounds (m := m) (Nat.min_le_left remBytes
    (getMacSduRequiredBytes (m.pendingBytes lcid)))
  rw [allocBytes, macSduSubheaderLengthThres, minMacSduSubheaderSize]
  split <;> omega

/-- A step of an allocation takes the bytes of the subPDU it adds. -/
theorem allocateMacSdu_spec {lcid : Option RbLcid} {remBytes alloc : Nat} {subpdu : DlMsgLcInfo}
    {m' : DlLogicalChannelManager}
    (h : m.allocateMacSdu lcid remBytes = some (alloc, subpdu, m')) :
    alloc = subpdu.requiredBytes ∧ alloc ≤ remBytes ∧
      ∃ lcid schedBytes, subpdu = .sdu lcid schedBytes := by
  obtain ⟨lcid, -, h⟩ := Option.bind_eq_some_iff.1 h
  split_ifs at h with hcond
  rw [not_or] at hcond
  obtain ⟨hmin, hle, hne⟩ := allocBytes_spec hcond.1 (Nat.lt_of_not_le hcond.2)
  obtain ⟨rfl, rfl, rfl⟩ := h
  exact ⟨(getMacSduRequiredBytes_getMacSduSize hmin hne).symm, hle, lcid, _, rfl⟩

theorem allocateMacSdus_spec (lcid : Option RbLcid) (places : Nat) (m : DlLogicalChannelManager)
    (remTbs : Nat) :
    listBytes (allocateMacSdus lcid places m remTbs).1 +
        (allocateMacSdus lcid places m remTbs).2.2 = remTbs ∧
      (allocateMacSdus lcid places m remTbs).1.length ≤ places ∧
      ∀ subpdu ∈ (allocateMacSdus lcid places m remTbs).1, ∃ lcid n, subpdu = .sdu lcid n := by
  induction places generalizing m remTbs with
  | zero => exact ⟨Nat.zero_add _, Nat.le_refl 0, nofun⟩
  | succ places ih =>
    rw [allocateMacSdus]
    split
    · split
      · exact ⟨Nat.zero_add _, Nat.zero_le _, nofun⟩
      · next alloc subpdu m' halloc =>
        obtain ⟨hbytes, hle, hsdu⟩ := allocateMacSdu_spec halloc
        obtain ⟨hsum, hlen, hall⟩ := ih m' (remTbs - alloc)
        refine ⟨?_, Nat.succ_le_succ hlen, ?_⟩
        · simp only [listBytes_cons, ← hbytes]
          omega
        · intro x hx
          rcases List.mem_cons.1 hx with rfl | hx
          · exact hsdu
          · exact hall x hx
    · exact ⟨Nat.zero_add _, Nat.zero_le _, nofun⟩

theorem allocateSelections_spec (lcids : List (Option RbLcid)) (places : Nat)
    (m : DlLogicalChannelManager) (remTbs : Nat) :
    listBytes (allocateSelections lcids places m remTbs).1 +
        (allocateSelections lcids places m remTbs).2.2 = remTbs ∧
      (allocateSelections lcids places m remTbs).1.length ≤ places ∧
      ∀ subpdu ∈ (allocateSelections lcids places m remTbs).1, ∃ lcid n, subpdu = .sdu lcid n := by
  induction lcids generalizing places m remTbs with
  | nil => exact ⟨Nat.zero_add _, Nat.zero_le _, nofun⟩
  | cons lcid lcids ih =>
    obtain ⟨hsum, hlen, hall⟩ := allocateMacSdus_spec lcid places m remTbs
    rw [allocateSelections]
    generalize allocateMacSdus lcid places m remTbs = r at hsum hlen hall
    obtain ⟨subpdus, m', rem'⟩ := r
    obtain ⟨hsum', hlen', hall'⟩ := ih (places - subpdus.length) m' rem'
    refine ⟨?_, ?_, ?_⟩
    · rw [listBytes_append]
      simp only at hsum hsum' ⊢
      omega
    · rw [List.length_append]
      simp only at hlen hlen' ⊢
      omega
    · intro x hx
      rcases List.mem_append.1 hx with hx | hx
      · exact hall x hx
      · exact hall' x hx

variable (m : DlLogicalChannelManager)

/-- The control elements that are scheduled in a block: the contention resolution if it fits, and as
many timing advance commands as there are places and bytes for. -/
def scheduledCes (tbSizeBytes : Nat) : List DlMsgLcInfo :=
  if m.pendingConResId ∧ 7 ≤ tbSizeBytes then
    .ueConResId :: (m.pendingCes.take (min 3 ((tbSizeBytes - 7) / 2))).map .taCmd
  else (m.pendingCes.take (min 4 (tbSizeBytes / 2))).map .taCmd

theorem allocateMacCes_taCmd (places : Nat) (m : DlLogicalChannelManager) (remTbs : Nat)
    (hcon : ¬ (m.pendingConResId ∧ 7 ≤ remTbs)) :
    (allocateMacCes places m remTbs).1 =
        (m.pendingCes.take (min places (remTbs / 2))).map .taCmd ∧
      listBytes (allocateMacCes places m remTbs).1 + (allocateMacCes places m remTbs).2.2 =
        remTbs := by
  induction places generalizing m remTbs with
  | zero => exact ⟨by rw [Nat.zero_min]; rfl, Nat.zero_add _⟩
  | succ places ih =>
    rw [allocateMacCes, allocateMacCe]
    have hseven : DlMsgLcInfo.ueConResId.requiredBytes = 7 := rfl
    rw [hseven, if_neg hcon]
    match hces : m.pendingCes with
    | [] => exact ⟨by simp, Nat.zero_add _⟩
    | ce :: ces =>
      have htwo : (DlMsgLcInfo.taCmd ce).requiredBytes = 2 := rfl
      simp only [htwo]
      by_cases hrem : remTbs < 2
      · rw [if_pos hrem]
        refine ⟨?_, Nat.zero_add _⟩
        rw [show remTbs / 2 = 0 by omega, Nat.min_zero]
        rfl
      · rw [if_neg hrem]
        obtain ⟨hlist, hsum⟩ := ih { m with pendingCes := ces } (remTbs - 2)
          fun h => hcon ⟨h.1, by omega⟩
        simp only at hlist hsum ⊢
        refine ⟨?_, ?_⟩
        · rw [hlist, show min (places + 1) (remTbs / 2) =
            min places ((remTbs - 2) / 2) + 1 by omega]
          rfl
        · rw [listBytes_cons, htwo]
          omega

theorem allocateMacCes_spec (tbSizeBytes : Nat) :
    (allocateMacCes maxLcPerTb m tbSizeBytes).1 = m.scheduledCes tbSizeBytes ∧
      listBytes (allocateMacCes maxLcPerTb m tbSizeBytes).1 +
        (allocateMacCes maxLcPerTb m tbSizeBytes).2.2 = tbSizeBytes := by
  rw [scheduledCes]
  by_cases hcon : m.pendingConResId ∧ 7 ≤ tbSizeBytes
  · obtain ⟨hlist, hsum⟩ := allocateMacCes_taCmd 3 { m with pendingConResId := false }
      (tbSizeBytes - 7) fun h => nomatch h.1
    have hseven : DlMsgLcInfo.ueConResId.requiredBytes = 7 := rfl
    rw [if_pos hcon, maxLcPerTb, allocateMacCes, allocateMacCe, hseven, if_pos hcon]
    simp only at hlist hsum ⊢
    refine ⟨by rw [hlist], ?_⟩
    rw [listBytes_cons, hseven]
    omega
  · rw [if_neg hcon]
    exact allocateMacCes_taCmd maxLcPerTb m tbSizeBytes hcon

/-- **Bytes of the list**: control elements and SDUs that take what was allocated. -/
theorem buildDlTransportBlockInfo_bytes (tbSizeBytes : Nat)
    (lcids : List (Option RbLcid)) :
    ∃ sdus, (m.buildDlTransportBlockInfo tbSizeBytes lcids).1 = m.scheduledCes tbSizeBytes ++ sdus ∧
      (∀ subpdu ∈ sdus, ∃ lcid n, subpdu = .sdu lcid n) ∧
      listBytes (m.buildDlTransportBlockInfo tbSizeBytes lcids).1 +
        (m.buildDlTransportBlockInfo tbSizeBytes lcids).2.2 = tbSizeBytes := by
  obtain ⟨hces, hsum⟩ := allocateMacCes_spec m tbSizeBytes
  rw [buildDlTransportBlockInfo]
  generalize allocateMacCes maxLcPerTb m tbSizeBytes = r at hces hsum
  obtain ⟨ces, m', rem'⟩ := r
  obtain ⟨hsum', -, hall⟩ := allocateSelections_spec lcids (maxLcPerTb - ces.length) m' rem'
  simp only at hces hsum ⊢
  refine ⟨_, by rw [hces], hall, ?_⟩
  rw [listBytes_append]
  omega

end DlLogicalChannelManager

end RadioStack.Mac
