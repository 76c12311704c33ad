import RadioStack.Mac.UlSchPdu

/-!
# Handling of received MAC PDUs

`pdu_rx_handler::handle_rx_pdu`: the subPDUs of a received PDU are passed on, SDUs to the bearers of
the UE and control elements, decoded, to the scheduler. A PDU for an unknown C-RNTI may be a Msg3:
then the last C-RNTI control element or CCCH message in it decides who handles it.

Decoding a control element reads its payload. `Hazard` says when a read leaves the payload: a long
BSR with length 0 is logged, or handled for a known UE.

**Theorem (`handleRxPdu_safe`).** `unpack` stays inside the PDU and splits it in order, the SDUs
passed on are slices of the PDU, and handling the PDU stays inside the payloads exactly if there is
no hazard.
-/

namespace RadioStack.Mac

/-! ## Control elements -/

inductive BsrFormat where
  | shortBsr
  | longBsr
  | shortTruncBsr
  | longTruncBsr
  deriving DecidableEq

structure LcgBsrReport where
  lcgId : Nat
  bufferSize : Nat
  deriving DecidableEq

def decodeSbsr (payload : ByteView) : Except OutOfBounds LcgBsrReport := do
  let b ← payload.get 0
  return ⟨(b.toNat &&& 0xe0) >>> 5, b.toNat &&& 0x1f⟩

def maxNofLcgs : Nat := 8

/-- The bit of a logical channel group in the bitmap of a long BSR. -/
def lcgBit (bitmap : UInt8) (i : Nat) : Bool := bitmap.toNat &&& (1 <<< i) != 0

/-- The loop of `decode_lbsr` over the logical channel groups; `none` if the BSR is invalid. -/
def lbsrLoop (format : BsrFormat) (bitmap : UInt8) :
    List Nat → ByteView → Except OutOfBounds (Option (List LcgBsrReport))
  | [], _ => .ok (some [])
  | i :: lcgs, reader =>
    if lcgBit bitmap i then
      if 0 < reader.length then do
        let (size, reader) ← reader.read
        if size = 255 then return none
        else
          let reports ← lbsrLoop format bitmap lcgs reader
          return reports.map (⟨i, size.toNat⟩ :: ·)
      else if format = .longTruncBsr then do
        -- some buffer sizes may be missing
        let reports ← lbsrLoop format bitmap lcgs reader
        return reports.map (⟨i, 64⟩ :: ·)
      else return none
    else if format = .longTruncBsr then do
      let reports ← lbsrLoop format bitmap lcgs reader
      return reports.map (⟨i, 0⟩ :: ·)
    else lbsrLoop format bitmap lcgs reader

def decodeLbsr (format : BsrFormat) (payload : ByteView) :
    Except OutOfBounds (Option (List LcgBsrReport)) := do
  let (bitmap, reader) ← payload.read
  if bitmap = 0 then return some ((List.range maxNofLcgs).map fun i => ⟨i, 0⟩)
  else lbsrLoop format bitmap (List.range maxNofLcgs) reader

/-- `decode_crnti_ce`; 0 is `INVALID_RNTI`. -/
def decodeCrntiCe (payload : ByteView) : Except OutOfBounds Nat :=
  if payload.length < 2 then .ok 0
  else do
    let b₀ ← payload.get 0
    let b₁ ← payload.get 1
    return b₀.toNat <<< 8 ||| b₁.toNat

def phToDbRange (ph : Nat) : Int × Int :=
  if ph = 0 then (-32, -32)
  else if ph = 63 then (38, 38)
  else if ph < 55 then (-32 + ph - 1, -32 + ph)
  else (-32 + ph - 1, -32 + ph + 1)

def pCmaxToDbmRange (pCmax : Nat) : Int × Int :=
  if pCmax = 0 then (-29, -29)
  else if pCmax = 63 then (33, 33)
  else (-29 + pCmax - 1, -29 + pCmax)

/-- `decode_se_phr`: the ranges of the power headroom and of P_CMAX. -/
def decodeSePhr (payload : ByteView) : Except OutOfBounds ((Int × Int) × (Int × Int)) := do
  let ph ← payload.get 0
  let pCmax ← payload.get 1
  return (phToDbRange (ph.toNat &&& 0x3f), pCmaxToDbmRange (pCmax.toNat &&& 0x3f))

def longFormat (lcid : LcidUlSch) : BsrFormat :=
  if lcid = .longBsr then .longBsr else .longTruncBsr

/-! ## Handler -/

/-- A UE of the MAC: the LCIDs of its uplink bearers. -/
structure UlUe where
  ulBearers : List Nat

/-- What the handler finds when a PDU arrives. -/
structure PduRxHandler where
  /-- The level of the MAC logger. -/
  infoEnabled : Bool
  /-- UE index of an RNTI; `none` is an invalid index. -/
  rntiTable : Nat → Option Nat
  /-- `ue_manager.find_ue`. -/
  findUe : Nat → Option UlUe
  /-- `find_ue` when the task dispatched to another UE runs; `none` if the task queue is full. -/
  dispatched : Option (Nat → Option UlUe)
  /-- The CCCH message can be copied. -/
  ccchAppend : Bool

inductive UlAction where
  /-- An SDU for a bearer. -/
  | newSdu (ueIndex lcid : Nat) (sdu : ByteView)
  | bsr (ueIndex rnti : Nat) (format : BsrFormat) (reports : List LcgBsrReport)
  | phr (ueIndex rnti : Nat) (ph pCmax : Int × Int)
  | ccch (rnti : Nat) (msg : List UInt8)
  | crntiCe (ueIndex : Nat)
  | ulSchedCommand (ueIndex rnti : Nat)

/-- What the log text of a subPDU decodes. -/
def formatSubpdu (s : Subpdu) : Except OutOfBounds Unit :=
  if s.lcid.isSdu then .ok ()
  else if s.lcid = .crnti then (decodeCrntiCe s.payload).map fun _ => ()
  else if s.lcid = .shortTruncBsr ∨ s.lcid = .shortBsr then
    (decodeSbsr s.payload).map fun _ => ()
  else if s.lcid = .longBsr then (decodeLbsr .longBsr s.payload).map fun _ => ()
  else if s.lcid = .sePhr then (decodeSePhr s.payload).map fun _ => ()
  else .ok ()

def formatSubpdus : List Subpdu → Except OutOfBounds Unit
  | [] => .ok ()
  | s :: subpdus => do
    formatSubpdu s
    formatSubpdus subpdus

def handleSdu (ueIndex : Option Nat) (ue : Option UlUe) (s : Subpdu) : Bool × List UlAction :=
  match ueIndex, ue with
  | some index, some u =>
    if s.lcid.val ∈ u.ulBearers then (true, [.newSdu index s.lcid.val s.payload]) else (false, [])
  | _, _ => (false, [])

def handleMacCe (ueIndex : Option Nat) (rnti : Nat) (s : Subpdu) :
    Except OutOfBounds (Bool × List UlAction) :=
  if s.lcid.isCcch then .ok (ueIndex.isNone, [])
  else if s.lcid = .shortBsr ∨ s.lcid = .shortTruncBsr then
    match ueIndex with
    | none => .ok (false, [])
    | some index => do
      let report ← decodeSbsr s.payload
      let format := if s.lcid = .shortBsr then .shortBsr else .shortTruncBsr
      return (true, [.bsr index rnti format [report]])
  else if s.lcid.isVarLenCe then
    match ueIndex with
    | none => .ok (false, [])
    | some index => do
      match ← decodeLbsr (longFormat s.lcid) s.payload with
      | none => return (false, [])
      | some reports => return (true, [.bsr index rnti (longFormat s.lcid) reports])
  else if s.lcid = .crnti then do
    let crnti ← decodeCrntiCe s.payload
    return (crnti == rnti, [])
  else if s.lcid = .sePhr then
    match ueIndex with
    | none => .ok (false, [])
    | some index => do
      let (ph, pCmax) ← decodeSePhr s.payload
      return (true, [.phr index rnti ph pCmax])
  else .ok (true, [])

def handleSubpdu (ueIndex : Option Nat) (rnti : Nat) (ue : Option UlUe) (s : Subpdu) :
    Except OutOfBounds (Bool × List UlAction) :=
  if s.lcid.isSdu then .ok (handleSdu ueIndex ue s) else handleMacCe ueIndex rnti s

def handleRxSubpdus (ueIndex : Option Nat) (rnti : Nat) (ue : Option UlUe) :
    List Subpdu → Except OutOfBounds (Bool × List UlAction)
  | [] => .ok (true, [])
  | s :: subpdus => do
    match ← handleSubpdu ueIndex rnti ue s with
    | (false, actions) => return (false, actions)
    | (true, actions) =>
      let (ok, rest) ← handleRxSubpdus ueIndex rnti ue subpdus
      return (ok, actions ++ rest)

def handleCcchMsg (h : PduRxHandler) (rnti : Nat) (s : Subpdu) : Bool × List UlAction :=
  if h.ccchAppend then (true, [.ccch rnti s.payload.bytes]) else (false, [])

def containsPositiveBsr : List Subpdu → Except OutOfBounds Bool
  | [] => .ok false
  | s :: subpdus =>
    if s.lcid = .shortTruncBsr ∨ s.lcid = .shortBsr then do
      let report ← decodeSbsr s.payload
      if 0 < report.bufferSize then return true else containsPositiveBsr subpdus
    else if s.lcid.isVarLenCe then do
      match ← decodeLbsr (longFormat s.lcid) s.payload with
      | some reports =>
        if reports.any fun r => 0 < r.bufferSize then return true
        else containsPositiveBsr subpdus
      | none => containsPositiveBsr subpdus
    else containsPositiveBsr subpdus

def isCrnti (rnti : Nat) : Bool := rnti ≤ 0xffef && 1 ≤ rnti

/-- The task that `handle_crnti_ce` dispatches to the UE of the old C-RNTI. -/
def continueWithCrnti (findUe : Nat → Option UlUe) (ueIndex rnti : Nat) (subpdus : List Subpdu) :
    Except OutOfBounds (List UlAction) :=
  match findUe ueIndex with
  | none => .ok []
  | some ue => do
    match ← handleRxSubpdus (some ueIndex) rnti (some ue) subpdus with
    | (false, actions) => return actions
    | (true, actions) =>
      let positive ← containsPositiveBsr subpdus
      return actions ++ .crntiCe ueIndex :: if positive then [] else [.ulSchedCommand ueIndex rnti]

def handleCrntiCe (h : PduRxHandler) (s : Subpdu) (subpdus : List Subpdu) :
    Except OutOfBounds (Bool × List UlAction) := do
  let rnti ← decodeCrntiCe s.payload
  if !isCrnti rnti then return (false, [])
  else
    match h.rntiTable rnti with
    | none => return (false, [])
    | some ueIndex =>
      match h.dispatched with
      | none => return (true, [])
      | some findUe =>
        let actions ← continueWithCrnti findUe ueIndex rnti subpdus
        return (true, actions)

/-- A subPDU that decides who handles a Msg3. -/
def Subpdu.isMsg3 (s : Subpdu) : Bool := s.lcid == .crnti || s.lcid.isCcch

def handleDecoded (h : PduRxHandler) (rnti : Nat) (subpdus : List Subpdu) :
    Except OutOfBounds (Bool × List UlAction) :=
  match h.rntiTable rnti with
  | some ueIndex => handleRxSubpdus (some ueIndex) rnti (h.findUe ueIndex) subpdus
  | none =>
    match subpdus.reverse.find? Subpdu.isMsg3 with
    | some s =>
      if s.lcid = .crnti then handleCrntiCe h s subpdus else .ok (handleCcchMsg h rnti s)
    | none => handleRxSubpdus none rnti none subpdus

def handleRxPdu (h : PduRxHandler) (rnti : Nat) (pdu : List UInt8) :
    Except OutOfBounds (Bool × List UlAction) := do
  match ← unpack pdu with
  | .error _ => return (false, [])
  | .ok subpdus =>
    if h.infoEnabled then formatSubpdus subpdus
    handleDecoded h rnti subpdus

/-! ## Decoding long BSRs -/

/-- The bytes of a long BSR that is accepted: a bitmap and a buffer size for each group in it, none
of them 255; sizes may only be missing in a truncated BSR. -/
def BsrReadable (format : BsrFormat) : List UInt8 → Prop
  | [] => False
  | bitmap :: sizes =>
    let groups := (List.range maxNofLcgs).countP (lcgBit bitmap)
    255 ∉ sizes.take groups ∧ (format ≠ .longTruncBsr → groups ≤ sizes.length)

def Subpdu.EmptyLongBsr (s : Subpdu) : Prop := s.lcid.isVarLenCe ∧ s.payload.bytes = []

theorem lbsrLoop_spec (format : BsrFormat) (bitmap : UInt8) (lcgs : List Nat) (v : ByteView) :
    ReturnsIff True (fun r => r.isSome ↔ 255 ∉ v.bytes.take (lcgs.countP (lcgBit bitmap)) ∧
        (format ≠ .longTruncBsr → lcgs.countP (lcgBit bitmap) ≤ v.bytes.length))
      (lbsrLoop format bitmap lcgs v) := by
  induction lcgs generalizing v with
  | nil => exact ⟨trivial, by simp⟩
  | cons i lcgs ih =>
    refine .ite (fun hbit => ?_) fun hbit => ?_
    · rw [List.countP_cons_of_pos hbit]
      obtain ⟨first, _ | ⟨size, bytes⟩⟩ := v
      · refine .ite (fun hlen => absurd hlen (Nat.lt_irrefl 0)) fun _ => .ite (fun hformat => ?_)
          fun hformat => ⟨trivial, by simp [hformat]⟩
        exact (ih ⟨first, []⟩).bind (absurd trivial) fun r _ hr => ⟨trivial, by simp [hformat, hr]⟩
      · refine .ite (fun _ => .ite (fun hsize => ⟨trivial, by simp [hsize]⟩) fun hsize => ?_)
          fun hlen => absurd (Nat.succ_pos _) hlen
        exact (ih ⟨first + 1, bytes⟩).bind (absurd trivial) fun r _ hr =>
          ⟨trivial, by simp [hr, Ne.symm hsize]⟩
    · rw [List.countP_cons_of_neg hbit]
      exact .ite (fun _ => (ih v).bind (absurd trivial) fun r _ hr => ⟨trivial, by simp [hr]⟩)
        fun _ => ih v

variable {payload : ByteView}

theorem decodeLbsr_spec (format : BsrFormat) (payload : ByteView) :
    ReturnsIff (payload.bytes ≠ []) (fun r => r.isSome ↔ BsrReadable format payload.bytes)
      (decodeLbsr format payload) := by
  obtain ⟨first, _ | ⟨bitmap, sizes⟩⟩ := payload
  · exact fun h => h rfl
  · refine .ite (fun hzero => ⟨List.cons_ne_nil _ _, ?_⟩) fun _ => ?_
    · have hnone : (List.range maxNofLcgs).countP (lcgBit 0) = 0 := by decide
      simp [BsrReadable, hzero, hnone]
    · exact (lbsrLoop_spec format bitmap _ ⟨first + 1, sizes⟩).imp (absurd trivial) fun r _ hr =>
        ⟨List.cons_ne_nil _ _, hr⟩

theorem decodeSbsr_ok (h : payload.length = 1) :
    ReturnsIff True (fun _ => True) (decodeSbsr payload) := by
  obtain ⟨b, hb⟩ := ByteView.get_ok (show 0 < payload.length by omega)
  rw [decodeSbsr, hb]
  exact ⟨trivial, trivial⟩

theorem decodeSePhr_ok (h : payload.length = 2) :
    ReturnsIff True (fun _ => True) (decodeSePhr payload) := by
  obtain ⟨b₀, hb₀⟩ := ByteView.get_ok (show 0 < payload.length by omega)
  obtain ⟨b₁, hb₁⟩ := ByteView.get_ok (show 1 < payload.length by omega)
  rw [decodeSePhr, hb₀, hb₁]
  exact ⟨trivial, trivial⟩

/-- The RNTI of a C-RNTI control element. -/
def crntiValue : List UInt8 → Nat
  | b₀ :: b₁ :: _ => b₀.toNat <<< 8 ||| b₁.toNat
  | _ => 0

theorem decodeCrntiCe_eq (payload : ByteView) :
    decodeCrntiCe payload = .ok (crntiValue payload.bytes) := by
  obtain ⟨first, bytes⟩ := payload
  match bytes with
  | [] => rfl
  | [_] => rfl
  | _ :: _ :: _ => rfl

/-! ## Handling subPDUs -/

section Handling

variable {s : Subpdu} {subpdus : List Subpdu} {index rnti : Nat} {ue : Option UlUe}

theorem Subpdu.Fits.length_eq (h : s.Fits) {lcid : LcidUlSch} (hs : s.lcid = lcid)
    (hfield : lcid.hasLengthField = false) (hpad : lcid ≠ .padding) :
    s.payload.length = lcid.sizeofCe := by
  subst hs
  exact h hfield hpad

theorem Subpdu.Fits.decodeSbsr_ok (h : s.Fits)
    (hs : s.lcid = .shortBsr ∨ s.lcid = .shortTruncBsr) :
    ReturnsIff True (fun _ => True) (decodeSbsr s.payload) := by
  rcases hs with hs | hs
  · exact Mac.decodeSbsr_ok (h.length_eq hs (by decide) (by decide))
  · exact Mac.decodeSbsr_ok (h.length_eq hs (by decide) (by decide))

theorem Subpdu.Fits.decodeSePhr_ok (h : s.Fits) (hs : s.lcid = .sePhr) :
    ReturnsIff True (fun _ => True) (decodeSePhr s.payload) :=
  Mac.decodeSePhr_ok (h.length_eq hs (by decide) (by decide))

/-- The SDUs among the calls are the payloads of subPDUs. -/
def SdusFrom (subpdus : List Subpdu) (actions : List UlAction) : Prop :=
  ∀ index lcid sdu, .newSdu index lcid sdu ∈ actions → ∃ s ∈ subpdus, sdu = s.payload

/-- A subPDU for a known UE after which the next one is handled. -/
def Accepted (rnti : Nat) (ue : Option UlUe) (s : Subpdu) : Prop :=
  if s.lcid.isSdu then ∃ u, ue = some u ∧ s.lcid.val ∈ u.ulBearers
  else if s.lcid.isCcch then False
  else if s.lcid.isVarLenCe then BsrReadable (longFormat s.lcid) s.payload.bytes
  else if s.lcid = .crnti then crntiValue s.payload.bytes = rnti
  else True

theorem varLenCe_iff {lcid : LcidUlSch} :
    lcid.isVarLenCe ↔ lcid = .longTruncBsr ∨ lcid = .longBsr := by
  rw [LcidUlSch.isVarLenCe, Bool.or_eq_true, beq_iff_eq, beq_iff_eq]

/-- For a known UE, a subPDU with a payload is handled; if it is accepted, so is the next one. -/
theorem handleSubpdu_known (index rnti : Nat) (ue : Option UlUe) (hfits : s.Fits) :
    ReturnsIff (¬ s.EmptyLongBsr)
      (fun r => (r.1 = true ↔ Accepted rnti ue s) ∧ SdusFrom [s] r.2)
      (handleSubpdu (some index) rnti ue s) := by
  have hvar : s.lcid.isVarLenCe = true → ¬ s.lcid.isSdu = true ∧ ¬ s.lcid.isCcch = true ∧
      ¬ (s.lcid = .shortBsr ∨ s.lcid = .shortTruncBsr) := by
    intro h
    rcases varLenCe_iff.1 h with h | h <;> rw [h] <;> decide
  have hnoSdu : ∀ a : UlAction, (∀ i l v, a ≠ .newSdu i l v) → SdusFrom [s] [a] :=
    fun a ha i l v hmem => absurd (List.mem_singleton.1 hmem).symm (ha i l v)
  refine .ite (fun hsdu => ?_) fun hsdu => .ite (fun hccch => ?_) fun hccch =>
    .ite (fun hshort => ?_) fun hshort => .ite (fun hlong => ?_) fun hlong =>
    .ite (fun hcrnti => ?_) fun hcrnti => .ite (fun hphr => ?_) fun hphr => ?_
  · refine ⟨fun he => (hvar he.1).1 hsdu, ?_⟩
    cases ue with
    | none => exact ⟨by simp [handleSdu, Accepted, hsdu], nofun⟩
    | some u =>
      rw [handleSdu]
      split
      · next hmem =>
        refine ⟨by simp [Accepted, hsdu, hmem], fun i l v hv => ?_⟩
        cases List.mem_singleton.1 hv
        exact ⟨s, List.mem_cons_self, rfl⟩
      · next hmem => exact ⟨by simp [Accepted, hsdu, hmem], nofun⟩
  · exact ⟨fun he => (hvar he.1).2.1 hccch, by simp [Accepted, hsdu, hccch], nofun⟩
  · have hlong : ¬ s.lcid.isVarLenCe = true := fun h => (hvar h).2.2 hshort
    have hcrnti : s.lcid ≠ .crnti := by rcases hshort with h | h <;> rw [h] <;> decide
    exact (hfits.decodeSbsr_ok hshort).bind (absurd trivial) fun r _ _ => ⟨fun he => hlong he.1,
      by simp [Accepted, hsdu, hccch, hlong, hcrnti], hnoSdu _ nofun⟩
  · have haccepted : Accepted rnti ue s ↔ BsrReadable (longFormat s.lcid) s.payload.bytes := by
      simp [Accepted, hsdu, hccch, hlong]
    rw [haccepted]
    refine (decodeLbsr_spec (longFormat s.lcid) s.payload).bind
      (fun hb _ hc => hc ⟨hlong, not_not.1 hb⟩) fun r hb hsome => ?_
    cases r with
    | none => exact ⟨fun he => hb he.2, hsome, nofun⟩
    | some reports => exact ⟨fun he => hb he.2, hsome, hnoSdu _ nofun⟩
  · rw [decodeCrntiCe_eq]
    exact ⟨fun he => hlong he.1, by simp [Accepted, hsdu, hccch, hlong, if_pos hcrnti], nofun⟩
  · exact (hfits.decodeSePhr_ok hphr).bind (absurd trivial) fun r _ _ => ⟨fun he => hlong he.1,
      by simp [Accepted, hsdu, hccch, hlong, hcrnti], hnoSdu _ nofun⟩
  · exact ⟨fun he => hlong he.1, by simp [Accepted, hsdu, hccch, hlong, hcrnti], nofun⟩

/-- Without a UE nothing is decoded but the C-RNTI. -/
theorem handleSubpdu_unknown (rnti : Nat) (s : Subpdu) :
    ReturnsIff True (fun r => SdusFrom [s] r.2) (handleSubpdu none rnti none s) := by
  rw [handleSubpdu, handleMacCe, decodeCrntiCe_eq]
  split_ifs <;> exact ⟨trivial, nofun⟩

theorem SdusFrom.mono {subpdus' : List Subpdu} {actions : List UlAction}
    (h : SdusFrom subpdus actions) (hsub : subpdus ⊆ subpdus') : SdusFrom subpdus' actions :=
  fun i l v hv => (h i l v hv).imp fun _ hs => ⟨hsub hs.1, hs.2⟩

theorem SdusFrom.append {actions actions' : List UlAction} (h : SdusFrom subpdus actions)
    (h' : SdusFrom subpdus actions') : SdusFrom subpdus (actions ++ actions') :=
  fun i l v hv => (List.mem_append.1 hv).elim (h i l v) (h' i l v)

/-- A long BSR without payload is handled: all subPDUs before it are accepted. -/
def Reached (rnti : Nat) (ue : Option UlUe) (subpdus : List Subpdu) : Prop :=
  ∃ before s after, subpdus = before ++ s :: after ∧ s.EmptyLongBsr ∧
    ∀ x ∈ before, Accepted rnti ue x

theorem reached_cons_iff (h : ¬ s.EmptyLongBsr) :
    Reached rnti ue (s :: subpdus) ↔ Accepted rnti ue s ∧ Reached rnti ue subpdus := by
  constructor
  · rintro ⟨before, x, after, heq, hx, hbefore⟩
    cases before with
    | nil =>
      obtain ⟨rfl, -⟩ := List.cons.inj heq
      exact absurd hx h
    | cons y before =>
      obtain ⟨rfl, htail⟩ := List.cons.inj heq
      exact ⟨hbefore s List.mem_cons_self, before, x, after, htail, hx,
        fun y hy => hbefore y (List.mem_cons_of_mem _ hy)⟩
  · rintro ⟨hs, before, x, after, rfl, hx, hbefore⟩
    exact ⟨s :: before, x, after, rfl, hx, List.forall_mem_cons.2 ⟨hs, hbefore⟩⟩

theorem handleRxSubpdus_known (index : Nat) (hfits : ∀ s ∈ subpdus, s.Fits) :
    ReturnsIff (¬ Reached rnti ue subpdus)
      (fun r => SdusFrom subpdus r.2 ∧ (r.1 = true → ∀ s ∈ subpdus, ¬ s.EmptyLongBsr))
      (handleRxSubpdus (some index) rnti ue subpdus) := by
  induction subpdus with
  | nil =>
    refine ⟨?_, nofun, nofun⟩
    rintro ⟨before, s, after, heq, -⟩
    simp at heq
  | cons s subpdus ih =>
    obtain ⟨hs, htail⟩ := List.forall_mem_cons.1 hfits
    refine (handleSubpdu_known index rnti ue hs).bind (fun he _ h => h ?_)
      fun ⟨ok, actions⟩ hempty ⟨haccepted, hsdus⟩ => ?_
    · exact ⟨[], s, subpdus, rfl, not_not.1 he, nofun⟩
    replace hsdus : SdusFrom (s :: subpdus) actions := hsdus.mono (by simp)
    rw [reached_cons_iff hempty, ← haccepted]
    cases ok with
    | false => exact ⟨nofun, hsdus, nofun⟩
    | true =>
      refine (ih htail).bind (fun h _ hc => h fun hr => hc ⟨rfl, hr⟩) fun r hr ⟨hsdus', hnone⟩ =>
        ⟨fun hc => hr hc.2, ?_, fun h => List.forall_mem_cons.2 ⟨hempty, hnone h⟩⟩
      exact hsdus.append (hsdus'.mono (List.subset_cons_self s subpdus))

theorem handleRxSubpdus_unknown (subpdus : List Subpdu) :
    ReturnsIff True (fun r => SdusFrom subpdus r.2) (handleRxSubpdus none rnti none subpdus) := by
  induction subpdus with
  | nil => exact ⟨trivial, nofun⟩
  | cons s subpdus ih =>
    refine (handleSubpdu_unknown rnti s).bind (absurd trivial) fun ⟨ok, actions⟩ _ hsdus => ?_
    replace hsdus : SdusFrom (s :: subpdus) actions := hsdus.mono (by simp)
    cases ok with
    | false => exact ⟨trivial, hsdus⟩
    | true =>
      exact ih.bind (absurd trivial) fun r _ hsdus' =>
        ⟨trivial, hsdus.append (hsdus'.mono (List.subset_cons_self s subpdus))⟩

/-- Decoding the BSRs once more is possible if none is empty. -/
theorem containsPositiveBsr_ok (hfits : ∀ s ∈ subpdus, s.Fits)
    (h : ∀ s ∈ subpdus, ¬ s.EmptyLongBsr) :
    ReturnsIff True (fun _ => True) (containsPositiveBsr subpdus) := by
  induction subpdus with
  | nil => exact ⟨trivial, trivial⟩
  | cons s subpdus ih =>
    obtain ⟨hs, htail⟩ := List.forall_mem_cons.1 hfits
    obtain ⟨hempty, hrest⟩ := List.forall_mem_cons.1 h
    refine .ite (fun hshort => ?_) fun _ => .ite (fun hvar => ?_) fun _ => ih htail hrest
    · exact (hs.decodeSbsr_ok hshort.symm).bind (absurd trivial) fun _ _ _ =>
        .ite (fun _ => ⟨trivial, trivial⟩) fun _ => ih htail hrest
    · refine (decodeLbsr_spec (longFormat s.lcid) s.payload).bind
        (fun hb => absurd ⟨hvar, not_not.1 hb⟩ hempty) fun reports _ _ => ?_
      cases reports with
      | none => exact ih htail hrest
      | some reports => exact .ite (fun _ => ⟨trivial, trivial⟩) fun _ => ih htail hrest

/-! ## Logging -/

/-- The log text of a long BSR without payload is asked for. -/
def Logged (h : PduRxHandler) (subpdus : List Subpdu) : Prop :=
  h.infoEnabled ∧ ∃ s ∈ subpdus, s.lcid = .longBsr ∧ s.payload.bytes = []

theorem formatSubpdu_spec (hfits : s.Fits) :
    ReturnsIff (¬ (s.lcid = .longBsr ∧ s.payload.bytes = [])) (fun _ => True) (formatSubpdu s) := by
  have hno : ∀ {c : LcidUlSch → Prop}, ¬ c .longBsr → c s.lcid →
      ¬ (s.lcid = .longBsr ∧ s.payload.bytes = []) := fun hc hs h => hc (h.1 ▸ hs)
  refine .ite (fun hsdu => ⟨hno (c := fun l => l.isSdu = true) (by decide) hsdu, trivial⟩) fun _ =>
    .ite (fun hs => ?_) fun _ => .ite (fun hs => ?_) fun _ => .ite (fun hs => ?_) fun hlong =>
    .ite (fun hs => ?_) fun _ => ⟨fun h => hlong h.1, trivial⟩
  · rw [decodeCrntiCe_eq]
    exact ⟨hno (c := (· = .crnti)) (by decide) hs, trivial⟩
  · exact (hfits.decodeSbsr_ok hs.symm).map (absurd trivial) fun _ _ _ =>
      ⟨hno (c := fun l => l = .shortTruncBsr ∨ l = .shortBsr) (by decide) hs, trivial⟩
  · exact (decodeLbsr_spec .longBsr s.payload).map (fun h _ hc => h fun hb => hc ⟨hs, hb⟩)
      fun _ hb _ => ⟨fun h => hb h.2, trivial⟩
  · exact (hfits.decodeSePhr_ok hs).map (absurd trivial) fun _ _ _ =>
      ⟨hno (c := (· = .sePhr)) (by decide) hs, trivial⟩

theorem formatSubpdus_spec (hfits : ∀ s ∈ subpdus, s.Fits) :
    ReturnsIff (∀ s ∈ subpdus, ¬ (s.lcid = .longBsr ∧ s.payload.bytes = [])) (fun _ => True)
      (formatSubpdus subpdus) := by
  induction subpdus with
  | nil => exact ⟨nofun, trivial⟩
  | cons s subpdus ih =>
    obtain ⟨hs, htail⟩ := List.forall_mem_cons.1 hfits
    rw [List.forall_mem_cons]
    exact (formatSubpdu_spec hs).bind (fun h _ hc => h hc.1) fun _ hne _ =>
      (ih htail).imp (fun h _ hc => h hc.2) fun _ hrest _ => ⟨⟨hne, hrest⟩, trivial⟩

/-! ## Received PDUs -/

/-- The UE whose subPDUs are handled: that of the RNTI, or for a Msg3 that of the C-RNTI control
element behind which there is no other one and no CCCH message. -/
inductive Responsible (h : PduRxHandler) (rnti : Nat) (subpdus : List Subpdu) :
    Nat → Option UlUe → Prop
  | known {index : Nat} : h.rntiTable rnti = some index →
      Responsible h rnti subpdus rnti (h.findUe index)
  | msg3 {before after : List Subpdu} {s : Subpdu} {index : Nat} {findUe : Nat → Option UlUe}
      {u : UlUe} : h.rntiTable rnti = none → subpdus = before ++ s :: after → s.lcid = .crnti →
      (∀ x ∈ after, x.isMsg3 = false) → isCrnti (crntiValue s.payload.bytes) →
      h.rntiTable (crntiValue s.payload.bytes) = some index → h.dispatched = some findUe →
      findUe index = some u →
      Responsible h rnti subpdus (crntiValue s.payload.bytes) (some u)

/-- A long BSR without payload is logged, or handled for a known UE. -/
def Hazard (h : PduRxHandler) (rnti : Nat) (pdu : List UInt8) : Prop :=
  ∃ subpdus, Decodes 0 maxSubpdusPerPdu pdu subpdus ∧
    (Logged h subpdus ∨ ∃ rnti' ue, Responsible h rnti subpdus rnti' ue ∧ Reached rnti' ue subpdus)

theorem find?_reverse_eq_some {subpdus : List Subpdu} {s : Subpdu}
    (h : subpdus.reverse.find? Subpdu.isMsg3 = some s) :
    s.isMsg3 ∧ ∃ before after, subpdus = before ++ s :: after ∧ ∀ x ∈ after, x.isMsg3 = false := by
  obtain ⟨hs, as, bs, heq, has⟩ := List.find?_eq_some_iff_append.1 h
  refine ⟨hs, bs.reverse, as.reverse, ?_, fun x hx => ?_⟩
  · have := congrArg List.reverse heq
    simpa using this
  · simpa using has x (List.mem_reverse.1 hx)

theorem find?_reverse_append (before : List Subpdu) {after : List Subpdu} (hs : s.isMsg3)
    (hafter : ∀ x ∈ after, x.isMsg3 = false) :
    (before ++ s :: after).reverse.find? Subpdu.isMsg3 = some s := by
  refine List.find?_eq_some_iff_append.2 ⟨hs, after.reverse, before.reverse, by simp, ?_⟩
  intro x hx
  simpa using hafter x (List.mem_reverse.1 hx)

variable {h : PduRxHandler}

theorem handleDecoded_of_reached {rnti' : Nat} (hfits : ∀ s ∈ subpdus, s.Fits)
    (hresp : Responsible h rnti subpdus rnti' ue) (hreached : Reached rnti' ue subpdus) :
    Ensures (fun _ => True) (fun _ => False) (handleDecoded h rnti subpdus) := by
  have hfails : ∀ index, Ensures (fun _ => True) (fun _ => False)
      (handleRxSubpdus (some index) rnti' ue subpdus) := fun index =>
    (handleRxSubpdus_known index hfits).imp (fun _ _ => trivial) fun _ hn _ => hn hreached
  cases hresp with
  | known hknown =>
    rw [handleDecoded, hknown]
    exact hfails _
  | @msg3 before after s index findUe u hunknown heq hs hafter hcrnti hindex hdisp hue =>
    have hmsg3 : s.isMsg3 = true := by rw [Subpdu.isMsg3, hs]; decide
    have hfind := find?_reverse_append before hmsg3 hafter
    rw [← heq] at hfind
    rw [handleDecoded, hunknown]
    simp only [hfind, hs, if_true]
    rw [handleCrntiCe, decodeCrntiCe_eq, bind_of_ok rfl]
    simp only [hcrnti, Bool.not_true, Bool.false_eq_true, if_false, hindex, hdisp]
    rw [continueWithCrnti, hue]
    exact ((hfails index).bind fun _ h => h.elim).bind fun _ (h : False) => h.elim

theorem continueWithCrnti_ok (findUe : Nat → Option UlUe) (hfits : ∀ s ∈ subpdus, s.Fits)
    (hno : ∀ u, findUe index = some u → ¬ Reached rnti (some u) subpdus) :
    Ensures (fun _ => False) (SdusFrom subpdus) (continueWithCrnti findUe index rnti subpdus) := by
  rw [continueWithCrnti]
  cases hue : findUe index with
  | none => exact nofun
  | some u =>
    refine (handleRxSubpdus_known index hfits).bind (absurd (hno u hue))
      fun ⟨ok, actions⟩ _ ⟨hsdus, hnone⟩ => ?_
    cases ok with
    | false => exact hsdus
    | true =>
      refine (containsPositiveBsr_ok hfits (hnone rfl)).bind (absurd trivial)
        fun positive _ _ => hsdus.append fun i l v hv => ?_
      cases positive <;> simp at hv

theorem handleDecoded_of_not_reached (hfits : ∀ s ∈ subpdus, s.Fits)
    (hno : ∀ rnti' ue, Responsible h rnti subpdus rnti' ue → ¬ Reached rnti' ue subpdus) :
    Ensures (fun _ => False) (fun r => SdusFrom subpdus r.2) (handleDecoded h rnti subpdus) := by
  rw [handleDecoded]
  cases hknown : h.rntiTable rnti with
  | some index =>
    exact (handleRxSubpdus_known index hfits).imp (absurd (hno _ _ (.known hknown)))
      fun _ _ hr => hr.1
  | none =>
    cases hfind : subpdus.reverse.find? Subpdu.isMsg3 with
    | none => exact (handleRxSubpdus_unknown subpdus).imp (absurd trivial) fun _ _ hr => hr
    | some s =>
      obtain ⟨-, before, after, heq, hafter⟩ := find?_reverse_eq_some hfind
      refine .ite (fun hs => ?_) fun _ => ?_
      · rw [handleCrntiCe, decodeCrntiCe_eq, bind_of_ok rfl]
        refine .ite (fun _ => nofun) fun hcrnti => ?_
        cases hindex : h.rntiTable (crntiValue s.payload.bytes) with
        | none => exact nofun
        | some index =>
          cases hdisp : h.dispatched with
          | none => exact nofun
          | some findUe =>
            refine (continueWithCrnti_ok findUe hfits fun u hue => ?_).bind fun _ hsdus => hsdus
            exact hno _ _ (.msg3 hknown heq hs hafter (by simpa using hcrnti) hindex hdisp hue)
      · rw [handleCcchMsg]
        split
        · exact fun i l v hv => nomatch List.mem_singleton.1 hv
        · exact nofun

theorem handleDecoded_spec (h : PduRxHandler) (rnti : Nat) (hfits : ∀ s ∈ subpdus, s.Fits) :
    ReturnsIff (¬ ∃ rnti' ue, Responsible h rnti subpdus rnti' ue ∧ Reached rnti' ue subpdus)
      (fun r => SdusFrom subpdus r.2) (handleDecoded h rnti subpdus) := by
  by_cases hno : ∃ rnti' ue, Responsible h rnti subpdus rnti' ue ∧ Reached rnti' ue subpdus
  · obtain ⟨rnti', ue, hresp, hreached⟩ := hno
    cases hx : handleDecoded h rnti subpdus with
    | ok r => exact ((handleDecoded_of_reached hfits hresp hreached).of_ok hx).elim
    | error e => exact not_not_intro ⟨rnti', ue, hresp, hreached⟩
  · obtain ⟨r, hx, hsdus⟩ := (handleDecoded_of_not_reached hfits fun rnti' ue hresp hreached =>
      hno ⟨rnti', ue, hresp, hreached⟩).exists_ok
    rw [hx]
    exact ⟨hno, hsdus⟩

/-- Handling the PDU leaves the payloads exactly if there is a hazard. -/
theorem handleRxPdu_spec (h : PduRxHandler) (rnti : Nat) (pdu : List UInt8) :
    ReturnsIff (¬ Hazard h rnti pdu)
      (fun r => ∀ index lcid sdu, .newSdu index lcid sdu ∈ r.2 → sdu.IsSlice pdu)
      (handleRxPdu h rnti pdu) := by
  rcases unpackLoop_cases maxSubpdusPerPdu 0 pdu with ⟨cause, hunpack⟩ | ⟨subpdus, hunpack, hdec⟩
  · replace hunpack : unpack pdu = .ok (.error cause) := hunpack
    rw [handleRxPdu, bind_of_ok hunpack]
    refine ⟨?_, nofun⟩
    rintro ⟨subpdus, hdec, -⟩
    exact nomatch hunpack.symm.trans (unpack_eq_ok_iff.2 hdec)
  · replace hunpack : unpack pdu = .ok (.ok subpdus) := hunpack
    have hhazard : Hazard h rnti pdu ↔ Logged h subpdus ∨
        ∃ rnti' ue, Responsible h rnti subpdus rnti' ue ∧ Reached rnti' ue subpdus := by
      refine ⟨?_, fun hc => ⟨subpdus, hdec, hc⟩⟩
      rintro ⟨subpdus', hdec', hc⟩
      cases hunpack.symm.trans (unpack_eq_ok_iff.2 hdec')
      exact hc
    have hdecoded := (handleDecoded_spec h rnti hdec.fits).imp (fun h _ => h) fun r hno hsdus =>
      And.intro hno fun i l v (hv : UlAction.newSdu i l v ∈ r.2) =>
        (hsdus i l v hv).elim fun s hs => hs.2 ▸ hdec.isSlice [] rfl s hs.1
    rw [handleRxPdu, bind_of_ok hunpack, hhazard, not_or]
    refine .ite (fun hinfo => ?_) fun hinfo => ?_
    · refine (formatSubpdus_spec hdec.fits).bind
        (fun h _ hc => h fun s hs hs' => hc.1 ⟨hinfo, s, hs, hs'⟩) fun _ hno _ => ?_
      exact ReturnsIff.imp hdecoded (fun h _ hc => h hc.2) fun r hr hslice =>
        ⟨⟨fun ⟨_, s, hs, hempty⟩ => hno s hs hempty, hr⟩, hslice⟩
    · exact ReturnsIff.imp hdecoded (fun h _ hc => h hc.2) fun r hr hslice =>
        ⟨⟨fun hl => hinfo hl.1, hr⟩, hslice⟩

end Handling

/-- **Handling is safe unless there is a hazard.** -/
theorem handleRxPdu_safe (h : PduRxHandler) (rnti : Nat) (pdu : List UInt8) :
    (∃ result, unpack pdu = .ok result) ∧
    (∀ subpdus, unpack pdu = .ok (.ok subpdus) → subpdus.length < maxSubpdusPerPdu →
      Tiles 0 subpdus pdu.length) ∧
    ((∃ ok actions, handleRxPdu h rnti pdu = .ok (ok, actions) ∧
      ∀ index lcid sdu, .newSdu index lcid sdu ∈ actions → sdu.IsSlice pdu) ↔
        ¬ Hazard h rnti pdu) := by
  refine ⟨unpack_ok pdu, fun subpdus hok hlt => ?_, ?_, fun hno => ?_⟩
  · have htiles := (unpack_eq_ok_iff.1 hok).tiles hlt
    rwa [Nat.zero_add] at htiles
  · rintro ⟨ok, actions, hok, -⟩
    exact ((handleRxPdu_spec h rnti pdu).of_ok hok).1
  · obtain ⟨r, hok, hslice⟩ := (handleRxPdu_spec h rnti pdu).exists_ok hno
    exact ⟨r.1, r.2, hok, hslice⟩

/-- A handler with one UE, which has a bearer. -/
def oneUe : PduRxHandler where
  infoEnabled := false
  rntiTable rnti := if rnti = 0x4601 then some 0 else none
  findUe index := if index = 0 then some ⟨[4]⟩ else none
  dispatched := none
  ccchAppend := true

/-- A long BSR with length 0 is the whole PDU: its bitmap is read behind the end of the PDU. -/
theorem handleRxPdu_emptyLongBsr :
    unpack [0x3e, 0x00] = .ok (.ok [⟨.longBsr, false, 2, ⟨2, []⟩⟩]) ∧
      handleRxPdu oneUe 0x4601 [0x3e, 0x00] = .error .pastEnd :=
  ⟨rfl, rfl⟩

end RadioStack.Mac
