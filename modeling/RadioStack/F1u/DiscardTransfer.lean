import RadioStack.Lib.Run
import Mathlib.Data.List.Basic

/-!
# Discard notifications over F1-U

The CU-UP bearer collects the PDCP SNs of discarded SDUs in blocks of consecutive SNs and attaches
the blocks to the next message to the DU: to a T-PDU, to a message of their own when the
notification timer expires, or when the list of blocks is full. The DU bearer expands the blocks
again.

**Theorem (`discards_delivered_iff`).** When all blocks are flushed and all messages have arrived,
the DU has passed on exactly the discarded SNs and the SDUs if and only if every call was `Regular`:
no SDU was empty, no SN was the largest 32-bit value, and no block of 255 SNs was extended.
The size of a block is an 8-bit number, so the 256th SN of a block resets it and 256 discards are
lost. Nothing that is lost comes back: fewer items are then on their way than there were calls.
-/

namespace RadioStack.F1u

/-! ## Messages -/

def nruMaxNofPdcpSnDiscardBlocks : Nat := 16

structure NruPdcpSnDiscardBlock where
  pdcpSnStart : BitVec 32
  blockSize : BitVec 8
  deriving DecidableEq

/-- `nru_dl_message`, with the fields the two bearers use. -/
structure NruDlMessage where
  tPdu : List (BitVec 8) := []
  retransmissionFlag : Bool := false
  discardBlocks : Option (List NruPdcpSnDiscardBlock) := none

namespace NruPdcpSnDiscardBlock

/-- The SN after the block. -/
def pdcpSnEnd (b : NruPdcpSnDiscardBlock) : BitVec 32 := b.pdcpSnStart + b.blockSize.setWidth 32

/-- The SNs of the loop from `pdcp_sn_start` up to `pdcp_sn_end`. -/
def sns (b : NruPdcpSnDiscardBlock) : List (BitVec 32) :=
  (List.range' b.pdcpSnStart.toNat (b.pdcpSnEnd.toNat - b.pdcpSnStart.toNat)).map (BitVec.ofNat 32)

end NruPdcpSnDiscardBlock

/-! ## The bearer of the CU-UP -/

/-- The state of `srs_cu_up::f1u_bearer_impl` in the downlink. -/
structure CuBearer where
  discardBlocks : List NruPdcpSnDiscardBlock := []
  /-- Whether `dl_notif_timer` is running. -/
  dlNotifTimer : Bool := false

namespace CuBearer

def fillDiscardBlocks (msg : NruDlMessage) (cu : CuBearer) : NruDlMessage × CuBearer :=
  if cu.discardBlocks.isEmpty then (msg, cu)
  else ({ msg with discardBlocks := some cu.discardBlocks }, { cu with discardBlocks := [] })

/-- `handle_sdu`, with the messages it sends. -/
def handleSdu (sdu : List (BitVec 8)) (isRetx : Bool) (cu : CuBearer) :
    CuBearer × List NruDlMessage :=
  let (msg, cu) := cu.fillDiscardBlocks { tPdu := sdu, retransmissionFlag := isRetx }
  ({ cu with dlNotifTimer := false }, [msg])

/-- `flush_discard_blocks`, which is also what the expiry of the timer does. -/
def flushDiscardBlocks (cu : CuBearer) : CuBearer × List NruDlMessage :=
  let (msg, cu) := cu.fillDiscardBlocks {}
  ({ cu with dlNotifTimer := false }, if msg.discardBlocks.isSome then [msg] else [])

/-- `push_back` of the block list; `none` if it is full. -/
def pushBlock (pdcpSn : BitVec 32) (cu : CuBearer) : Option CuBearer :=
  if cu.discardBlocks.length < nruMaxNofPdcpSnDiscardBlocks then
    some { cu with discardBlocks := cu.discardBlocks ++ [⟨pdcpSn, 1⟩] }
  else none

/-- `discard_sdu`; `none` if an assertion of the block list fails. -/
def discardSdu (pdcpSn : BitVec 32) (cu : CuBearer) : Option (CuBearer × List NruDlMessage) :=
  let cu := { cu with dlNotifTimer := true }
  match cu.discardBlocks.getLast? with
  | none => (cu.pushBlock pdcpSn).map (·, [])
  | some lastBlock =>
    if lastBlock.pdcpSnEnd = pdcpSn then
      some ({ cu with
        discardBlocks := cu.discardBlocks.dropLast ++
          [{ lastBlock with blockSize := lastBlock.blockSize + 1 }] }, [])
    else
      (cu.pushBlock pdcpSn).map fun cu =>
        if cu.discardBlocks.length = nruMaxNofPdcpSnDiscardBlocks then cu.flushDiscardBlocks
        else (cu, [])

end CuBearer

/-! ## The bearer of the DU -/

/-- What the DU bearer passes to its notifier. -/
inductive DuNotification where
  | onNewSdu (sdu : List (BitVec 8)) (isRetx : Bool)
  | onDiscardSdu (pdcpSn : BitVec 32)
  deriving DecidableEq

def handlePduImpl (msg : NruDlMessage) : List DuNotification :=
  (if msg.tPdu.isEmpty then [] else [.onNewSdu msg.tPdu msg.retransmissionFlag]) ++
    (msg.discardBlocks.getD []).flatMap fun b => b.sns.map .onDiscardSdu

/-- The discarded SNs among the notifications. -/
def discards (ns : List DuNotification) : List (BitVec 32) :=
  ns.filterMap fun
    | .onDiscardSdu pdcpSn => some pdcpSn
    | .onNewSdu .. => none

def sdus (ns : List DuNotification) : List (List (BitVec 8) × Bool) :=
  ns.filterMap fun
    | .onDiscardSdu _ => none
    | .onNewSdu sdu isRetx => some (sdu, isRetx)

/-! ## The link -/

structure Link where
  cu : CuBearer := {}
  inFlight : List NruDlMessage := []
  /-- What the DU has passed on. -/
  notified : List DuNotification := []
  /-- The SNs given to `discard_sdu`. -/
  discarded : List (BitVec 32) := []
  /-- The SDUs given to `handle_sdu`. -/
  given : List (List (BitVec 8) × Bool) := []

inductive Event where
  | discardSdu (pdcpSn : BitVec 32)
  | handleSdu (sdu : List (BitVec 8)) (isRetx : Bool)
  | dlNotifTimerExpired
  /-- The DU receives the oldest message. -/
  | arrive

namespace Link

/-- One step; `none` if the event is not possible or an assertion fails. -/
def step (l : Link) : Event → Option Link
  | .discardSdu pdcpSn =>
    (l.cu.discardSdu pdcpSn).map fun (cu, msgs) =>
      { l with cu, inFlight := l.inFlight ++ msgs, discarded := l.discarded ++ [pdcpSn] }
  | .handleSdu sdu isRetx =>
    let (cu, msgs) := l.cu.handleSdu sdu isRetx
    some { l with cu, inFlight := l.inFlight ++ msgs, given := l.given ++ [(sdu, isRetx)] }
  | .dlNotifTimerExpired =>
    if l.cu.dlNotifTimer then
      let (cu, msgs) := l.cu.flushDiscardBlocks
      some { l with cu, inFlight := l.inFlight ++ msgs }
    else none
  | .arrive =>
    match l.inFlight with
    | [] => none
    | msg :: msgs => some { l with inFlight := msgs, notified := l.notified ++ handlePduImpl msg }

/-- Everything was flushed and has arrived. -/
def Settled (l : Link) : Prop := l.cu.discardBlocks = [] ∧ l.inFlight = []

/-- The calls that lose nothing. -/
def Regular (l : Link) : Event → Prop
  | .discardSdu pdcpSn =>
    pdcpSn ≠ BitVec.allOnes 32 ∧
      ∀ b, l.cu.discardBlocks.getLast? = some b → b.pdcpSnEnd = pdcpSn → b.blockSize ≠ 255
  | .handleSdu sdu _ => sdu ≠ []
  | _ => True

end Link

/-! ## Blocks -/

namespace NruPdcpSnDiscardBlock

variable {b : NruPdcpSnDiscardBlock} {pdcpSn : BitVec 32}

section

variable (b : NruPdcpSnDiscardBlock)

/-- The block does not reach the largest SN. -/
def InRange : Prop := b.pdcpSnStart.toNat + b.blockSize.toNat < 2 ^ 32

/-- The block with one more SN, as far as its size can count it. -/
def grow : NruPdcpSnDiscardBlock :=
  { b with blockSize := b.blockSize + 1 }

theorem toNat_pdcpSnEnd :
    b.pdcpSnEnd.toNat = (b.pdcpSnStart.toNat + b.blockSize.toNat) % 2 ^ 32 := by
  rw [pdcpSnEnd, BitVec.toNat_add, BitVec.toNat_setWidth, Nat.mod_eq_of_lt (a := b.blockSize.toNat)]
  omega

theorem length_sns :
    b.sns.length = b.pdcpSnEnd.toNat - b.pdcpSnStart.toNat := by
  rw [sns, List.length_map, List.length_range']

theorem toNat_grow :
    b.grow.blockSize.toNat = (b.blockSize.toNat + 1) % 256 :=
  BitVec.toNat_add ..

end

theorem sns_of_inRange (h : b.InRange) :
    b.sns = (List.range' b.pdcpSnStart.toNat b.blockSize.toNat).map (BitVec.ofNat 32) := by
  rw [sns, toNat_pdcpSnEnd, Nat.mod_eq_of_lt h, Nat.add_sub_cancel_left]

theorem sns_grow (h : b.InRange) (hend : b.pdcpSnEnd = pdcpSn) (hsn : pdcpSn ≠ BitVec.allOnes 32)
    (hsize : b.blockSize ≠ 255) : b.grow.InRange ∧ b.grow.sns = b.sns ++ [pdcpSn] := by
  have hsize' : b.blockSize.toNat ≠ 255 := fun heq => hsize (BitVec.eq_of_toNat_eq heq)
  have hgrow : b.grow.blockSize.toNat = b.blockSize.toNat + 1 := by
    rw [toNat_grow, Nat.mod_eq_of_lt (by omega)]
  have hendNat : pdcpSn.toNat = b.pdcpSnStart.toNat + b.blockSize.toNat := by
    rw [← hend, toNat_pdcpSnEnd, Nat.mod_eq_of_lt h]
  have hsn' : pdcpSn.toNat ≠ 2 ^ 32 - 1 := fun heq => hsn (BitVec.eq_of_toNat_eq heq)
  have hrange : b.grow.InRange := by
    change b.pdcpSnStart.toNat + b.grow.blockSize.toNat < 2 ^ 32
    omega
  refine ⟨hrange, ?_⟩
  rw [sns_of_inRange hrange, sns_of_inRange h, hgrow]
  simp [grow, List.range'_concat, ← hendNat]

theorem sns_single (hsn : pdcpSn ≠ BitVec.allOnes 32) :
    InRange ⟨pdcpSn, 1⟩ ∧ sns ⟨pdcpSn, 1⟩ = [pdcpSn] := by
  have hrange : InRange ⟨pdcpSn, 0⟩ := pdcpSn.isLt
  have hgrow := sns_grow hrange (by simp [pdcpSnEnd]) hsn (by simp)
  rw [sns_of_inRange hrange] at hgrow
  exact hgrow

/-- A block never gains more than the SN it is extended by, and it gains nothing if the SN is the
largest one or the size wraps. -/
theorem length_sns_grow (hend : b.pdcpSnEnd = pdcpSn) :
    b.grow.sns.length ≤ b.sns.length + 1 ∧
      (pdcpSn = BitVec.allOnes 32 ∨ b.blockSize = 255 → b.grow.sns.length ≤ b.sns.length) := by
  have hsn : (b.pdcpSnStart.toNat + b.blockSize.toNat) % 2 ^ 32 = pdcpSn.toNat := by
    rw [← hend, toNat_pdcpSnEnd]
  rw [length_sns, length_sns, toNat_pdcpSnEnd, toNat_pdcpSnEnd, toNat_grow]
  simp only [grow]
  refine ⟨by omega, ?_⟩
  rintro (rfl | hsize)
  · have hmax : (BitVec.allOnes 32).toNat = 2 ^ 32 - 1 := rfl
    omega
  · simp only [hsize, BitVec.reduceToNat]
    omega

theorem length_sns_single : (sns ⟨pdcpSn, 1⟩).length ≤ 1 ∧
    (pdcpSn = BitVec.allOnes 32 → (sns ⟨pdcpSn, 1⟩).length = 0) := by
  have hzero : (sns ⟨pdcpSn, 0⟩).length = 0 := by simp [length_sns, pdcpSnEnd]
  have hgrow := length_sns_grow (b := ⟨pdcpSn, 0⟩) rfl
  simp only [hzero, Nat.le_zero] at hgrow
  simpa [pdcpSnEnd, grow] using hgrow

end NruPdcpSnDiscardBlock

open NruPdcpSnDiscardBlock

/-! ## What a call puts on its way -/

def blockSns (blocks : List NruPdcpSnDiscardBlock) : List (BitVec 32) := blocks.flatMap sns

/-- The discards the DU makes of a list of messages. -/
def msgDiscards (msgs : List NruDlMessage) : List (BitVec 32) :=
  discards (msgs.flatMap handlePduImpl)

/-- The SDUs the DU makes of a list of messages. -/
def msgSdus (msgs : List NruDlMessage) : List (List (BitVec 8) × Bool) :=
  sdus (msgs.flatMap handlePduImpl)

@[simp] theorem discards_append (ns ns' : List DuNotification) :
    discards (ns ++ ns') = discards ns ++ discards ns' :=
  List.filterMap_append

@[simp] theorem sdus_append (ns ns' : List DuNotification) :
    sdus (ns ++ ns') = sdus ns ++ sdus ns' :=
  List.filterMap_append

@[simp] theorem msgDiscards_append (ms ms' : List NruDlMessage) :
    msgDiscards (ms ++ ms') = msgDiscards ms ++ msgDiscards ms' := by
  simp [msgDiscards]

@[simp] theorem msgSdus_append (ms ms' : List NruDlMessage) :
    msgSdus (ms ++ ms') = msgSdus ms ++ msgSdus ms' := by
  simp [msgSdus]

theorem discards_map (sns : List (BitVec 32)) : discards (sns.map .onDiscardSdu) = sns := by
  rw [discards, List.filterMap_map]
  exact List.filterMap_some

theorem sdus_map (sns : List (BitVec 32)) : sdus (sns.map .onDiscardSdu) = [] := by
  rw [sdus, List.filterMap_map]
  exact List.filterMap_none sns

theorem handlePduImpl_eq (msg : NruDlMessage) : handlePduImpl msg =
    (if msg.tPdu.isEmpty then [] else [.onNewSdu msg.tPdu msg.retransmissionFlag]) ++
      (blockSns (msg.discardBlocks.getD [])).map .onDiscardSdu := by
  rw [handlePduImpl, blockSns, List.map_flatMap]

@[simp] theorem discards_handlePduImpl (msg : NruDlMessage) :
    discards (handlePduImpl msg) = blockSns (msg.discardBlocks.getD []) := by
  rw [handlePduImpl_eq, discards_append, discards_map]
  split <;> rfl

@[simp] theorem sdus_handlePduImpl (msg : NruDlMessage) : sdus (handlePduImpl msg) =
    if msg.tPdu.isEmpty then [] else [(msg.tPdu, msg.retransmissionFlag)] := by
  rw [handlePduImpl_eq, sdus_append, sdus_map, List.append_nil]
  split <;> rfl

namespace CuBearer

variable {cu cu' : CuBearer} {msgs : List NruDlMessage} {pdcpSn : BitVec 32}

theorem fillDiscardBlocks_eq (sdu : List (BitVec 8)) (isRetx : Bool) (cu : CuBearer) :
    ∃ blocks, cu.fillDiscardBlocks ⟨sdu, isRetx, none⟩ =
        (⟨sdu, isRetx, blocks⟩, { cu with discardBlocks := [] }) ∧
      blocks.getD [] = cu.discardBlocks ∧ (blocks = none → cu.discardBlocks = []) := by
  obtain ⟨blocks, timer⟩ := cu
  cases blocks with
  | nil => exact ⟨none, rfl, rfl, fun _ => rfl⟩
  | cons b bs => exact ⟨some (b :: bs), rfl, rfl, nofun⟩

theorem handleSdu_spec (sdu : List (BitVec 8)) (isRetx : Bool)
    (h : cu.handleSdu sdu isRetx = (cu', msgs)) :
    cu'.discardBlocks = [] ∧ msgDiscards msgs = blockSns cu.discardBlocks ∧
      msgSdus msgs = if sdu.isEmpty then [] else [(sdu, isRetx)] := by
  obtain ⟨blocks, hfill, hblocks, -⟩ := fillDiscardBlocks_eq sdu isRetx cu
  rw [handleSdu, hfill] at h
  cases h
  simp [msgDiscards, msgSdus, hblocks]

theorem flushDiscardBlocks_spec (h : cu.flushDiscardBlocks = (cu', msgs)) :
    cu'.discardBlocks = [] ∧ msgDiscards msgs = blockSns cu.discardBlocks ∧ msgSdus msgs = [] := by
  obtain ⟨blocks, hfill, hblocks, hnone⟩ := fillDiscardBlocks_eq [] false cu
  rw [flushDiscardBlocks, hfill] at h
  cases h
  cases blocks with
  | none => exact ⟨rfl, by rw [hnone rfl]; rfl, rfl⟩
  | some blocks => simpa [msgDiscards, msgSdus] using congrArg blockSns hblocks

/-- The block that a discard extends, and the block it becomes. -/
def Replaced (pdcpSn : BitVec 32) (old : List NruPdcpSnDiscardBlock) (new : NruPdcpSnDiscardBlock) :
    Prop :=
  old = [] ∧ new = ⟨pdcpSn, 1⟩ ∨ ∃ b, old = [b] ∧ b.pdcpSnEnd = pdcpSn ∧ new = b.grow

/-- A discard never fails an assertion. It extends the last block or adds a new one, and sends the
blocks when there is no more place. -/
theorem discardSdu_spec (pdcpSn : BitVec 32)
    (hlen : cu.discardBlocks.length < nruMaxNofPdcpSnDiscardBlocks) :
    ∃ cu' msgs front old new, cu.discardSdu pdcpSn = some (cu', msgs) ∧
      cu'.discardBlocks.length < nruMaxNofPdcpSnDiscardBlocks ∧ msgSdus msgs = [] ∧
      cu.discardBlocks = front ++ old ∧ Replaced pdcpSn old new ∧
      msgDiscards msgs ++ blockSns cu'.discardBlocks = blockSns (front ++ [new]) ∧
      (∀ b ∈ cu'.discardBlocks, b ∈ front ++ [new]) ∧
      (∀ b ∈ old, cu.discardBlocks.getLast? = some b) ∧
      (old = [] → ∀ b, cu.discardBlocks.getLast? = some b → b.pdcpSnEnd ≠ pdcpSn) := by
  obtain ⟨blocks, timer⟩ := cu
  change blocks.length < _ at hlen
  have hpush : pushBlock pdcpSn ⟨blocks, true⟩ = some ⟨blocks ++ [⟨pdcpSn, 1⟩], true⟩ := if_pos hlen
  have hlen' : (blocks ++ [(⟨pdcpSn, 1⟩ : NruPdcpSnDiscardBlock)]).length = blocks.length + 1 :=
    List.length_append
  rcases List.eq_nil_or_concat blocks with rfl | ⟨front, b, rfl⟩
  · exact ⟨_, [], [], [], ⟨pdcpSn, 1⟩, rfl, Nat.lt_of_sub_pos (Nat.succ_pos 14), rfl, rfl,
      .inl ⟨rfl, rfl⟩, rfl, fun b hb => hb, nofun, nofun⟩
  · simp only [List.concat_eq_append] at hlen hpush hlen' ⊢
    rw [discardSdu]
    simp only [List.getLast?_append, List.getLast?_singleton, Option.some_or,
      List.dropLast_concat]
    by_cases hend : b.pdcpSnEnd = pdcpSn
    · rw [if_pos hend]
      refine ⟨_, [], front, [b], b.grow, rfl, ?_, rfl, rfl, .inr ⟨b, rfl, hend, rfl⟩, rfl,
        fun b hb => hb, fun b' hb => ?_, nofun⟩
      · rw [List.length_append] at hlen ⊢
        exact hlen
      · rw [List.mem_singleton.1 hb]
    · have hnot (b' : NruPdcpSnDiscardBlock) (hb : some b = some b') : b'.pdcpSnEnd ≠ pdcpSn := by
        cases hb
        exact hend
      rw [if_neg hend, hpush, Option.map_some]
      by_cases hfull : (front ++ [b] ++ [(⟨pdcpSn, 1⟩ : NruPdcpSnDiscardBlock)]).length =
          nruMaxNofPdcpSnDiscardBlocks
      · rw [if_pos hfull]
        obtain ⟨hempty, hsns, hsdus⟩ := @flushDiscardBlocks_spec
          ⟨front ++ [b] ++ [⟨pdcpSn, 1⟩], true⟩ _ _ rfl
        refine ⟨_, _, front ++ [b], [], ⟨pdcpSn, 1⟩, rfl, ?_, hsdus, (List.append_nil _).symm,
          .inl ⟨rfl, rfl⟩, ?_, ?_, nofun, fun _ => hnot⟩
        · rw [hempty]
          decide
        · rw [hempty, hsns]
          exact List.append_nil _
        · rw [hempty]
          exact nofun
      · rw [if_neg hfull]
        refine ⟨_, [], front ++ [b], [], ⟨pdcpSn, 1⟩, rfl, ?_, rfl, (List.append_nil _).symm,
          .inl ⟨rfl, rfl⟩, rfl, fun b hb => hb, nofun, fun _ => hnot⟩
        change (front ++ [b] ++ [_]).length < _
        omega

end CuBearer

/-! ## Runs of the link -/

namespace Link

variable {l l' : Link} {e : Event} {es : List Event}

/-- The discards the DU will have made once everything on its way has arrived. -/
def comingDiscards (l : Link) : List (BitVec 32) :=
  discards l.notified ++ msgDiscards l.inFlight ++ blockSns l.cu.discardBlocks

/-- The SDUs the DU will have delivered once everything on its way has arrived. -/
def comingSdus (l : Link) : List (List (BitVec 8) × Bool) := sdus l.notified ++ msgSdus l.inFlight

/-- There is place for one more block. -/
def HasPlace (l : Link) : Prop := l.cu.discardBlocks.length < nruMaxNofPdcpSnDiscardBlocks

/-- **What a step can do**: it takes one discard, one SDU, or moves what is on its way. -/
theorem step_cases (hplace : l.HasPlace) (h : l.step e = some l') : l'.HasPlace ∧
    ((∃ pdcpSn front old new, e = .discardSdu pdcpSn ∧ l.cu.discardBlocks = front ++ old ∧
        CuBearer.Replaced pdcpSn old new ∧ (∀ b ∈ l'.cu.discardBlocks, b ∈ front ++ [new]) ∧
        (∀ b ∈ old, l.cu.discardBlocks.getLast? = some b) ∧
        (old = [] → ∀ b, l.cu.discardBlocks.getLast? = some b → b.pdcpSnEnd ≠ pdcpSn) ∧
        l'.comingDiscards =
          discards l.notified ++ msgDiscards l.inFlight ++ blockSns (front ++ [new]) ∧
        l'.comingSdus = l.comingSdus ∧ l'.discarded = l.discarded ++ [pdcpSn] ∧
        l'.given = l.given) ∨
      (∃ sdu isRetx, e = .handleSdu sdu isRetx ∧ l'.cu.discardBlocks = [] ∧
        l'.comingDiscards = l.comingDiscards ∧
        l'.comingSdus = l.comingSdus ++ (if sdu.isEmpty then [] else [(sdu, isRetx)]) ∧
        l'.discarded = l.discarded ∧ l'.given = l.given ++ [(sdu, isRetx)]) ∨
      ((∀ k : Link, k.Regular e) ∧ (∀ b ∈ l'.cu.discardBlocks, b ∈ l.cu.discardBlocks) ∧
        l'.comingDiscards = l.comingDiscards ∧ l'.comingSdus = l.comingSdus ∧
        l'.discarded = l.discarded ∧ l'.given = l.given)) := by
  cases e with
  | discardSdu pdcpSn =>
    obtain ⟨cu', msgs, front, old, new, hcall, hlen, hsdus, hblocks, hrep, hsns, hmem, hlast,
      hnew⟩ := CuBearer.discardSdu_spec pdcpSn hplace
    rw [step, hcall] at h
    cases h
    refine ⟨hlen, .inl ⟨pdcpSn, front, old, new, rfl, hblocks, hrep, hmem, hlast, hnew, ?_, ?_, rfl,
      rfl⟩⟩
    · simp [comingDiscards, ← hsns]
    · simp [comingSdus, hsdus]
  | handleSdu sdu isRetx =>
    rcases hcall : l.cu.handleSdu sdu isRetx with ⟨cu, msgs⟩
    obtain ⟨hempty, hsns, hsdus⟩ := CuBearer.handleSdu_spec sdu isRetx hcall
    rw [step, hcall] at h
    cases h
    refine ⟨?_, .inr (.inl ⟨sdu, isRetx, rfl, hempty, ?_, ?_, rfl, rfl⟩)⟩
    · simp [HasPlace, hempty, nruMaxNofPdcpSnDiscardBlocks]
    · simp [comingDiscards, hsns, hempty, blockSns]
    · simp [comingSdus, hsdus]
  | dlNotifTimerExpired =>
    rcases hcall : l.cu.flushDiscardBlocks with ⟨cu, msgs⟩
    obtain ⟨hempty, hsns, hsdus⟩ := CuBearer.flushDiscardBlocks_spec hcall
    rw [step, hcall] at h
    split_ifs at h
    cases h
    refine ⟨?_, .inr (.inr ⟨fun _ => trivial, ?_, ?_, ?_, rfl, rfl⟩)⟩
    · simp [HasPlace, hempty, nruMaxNofPdcpSnDiscardBlocks]
    · simp [hempty]
    · simp [comingDiscards, hsns, hempty, blockSns]
    · simp [comingSdus, hsdus]
  | arrive =>
    rw [step] at h
    split at h
    · cases h
    · next msg msgs hflight =>
      cases h
      refine ⟨hplace, .inr (.inr ⟨fun _ => trivial, fun b hb => hb, ?_, ?_, rfl, rfl⟩)⟩
      · simp [comingDiscards, hflight, msgDiscards]
      · simp [comingSdus, hflight, msgSdus]

structure Exact (l : Link) : Prop where
  discards : l.comingDiscards = l.discarded
  sdus : l.comingSdus = l.given
  inRange : ∀ b ∈ l.cu.discardBlocks, b.InRange

@[simp] theorem blockSns_append (bs bs' : List NruPdcpSnDiscardBlock) :
    blockSns (bs ++ bs') = blockSns bs ++ blockSns bs' :=
  List.flatMap_append

@[simp] theorem blockSns_singleton (b : NruPdcpSnDiscardBlock) : blockSns [b] = b.sns :=
  List.flatMap_singleton ..

theorem Exact.step (hplace : l.HasPlace) (hl : l.Exact) (h : l.step e = some l')
    (hreg : l.Regular e) : l'.Exact := by
  obtain ⟨-, hcases⟩ := step_cases hplace h
  rcases hcases with ⟨pdcpSn, front, old, new, rfl, hblocks, hrep, hmem, hlast, -, hd, hs, hdisc,
    hgiven⟩ | ⟨sdu, isRetx, rfl, hempty, hd, hs, hdisc, hgiven⟩ | ⟨-, hmem, hd, hs, hdisc, hgiven⟩
  · have hnew : new.InRange ∧ blockSns [new] = blockSns old ++ [pdcpSn] := by
      rcases hrep with ⟨rfl, rfl⟩ | ⟨b, rfl, hend, rfl⟩
      · rw [blockSns_singleton]
        exact sns_single hreg.1
      · have hb := hlast b (List.mem_singleton_self b)
        rw [blockSns_singleton, blockSns_singleton]
        exact sns_grow (hl.inRange b (List.mem_of_getLast? hb)) hend hreg.1 (hreg.2 b hb hend)
    refine ⟨?_, by rw [hs, hgiven, hl.sdus], fun b hb => ?_⟩
    · rw [hd, hdisc, ← hl.discards, comingDiscards, hblocks, blockSns_append, blockSns_append,
        hnew.2]
      simp
    · rcases List.mem_append.1 (hmem b hb) with hfront | hb
      · exact hl.inRange b (hblocks ▸ List.mem_append_left old hfront)
      · rw [List.mem_singleton.1 hb]
        exact hnew.1
  · refine ⟨by rw [hd, hdisc, hl.discards], ?_, by rw [hempty]; exact nofun⟩
    have hne : sdu ≠ [] := hreg
    simp [hs, hgiven, hl.sdus, hne]
  · exact ⟨by rw [hd, hdisc, hl.discards], by rw [hs, hgiven, hl.sdus],
      fun b hb => hl.inRange b (hmem b hb)⟩

/-- The items on their way and delivered. -/
def weight (l : Link) : Nat := l.comingDiscards.length + l.comingSdus.length

/-- The items taken. -/
def total (l : Link) : Nat := l.discarded.length + l.given.length

/-- A step puts no more items on their way than it takes, and fewer if it is not regular. -/
theorem weight_step (hplace : l.HasPlace) (h : l.step e = some l') :
    l'.weight + l.total ≤ l.weight + l'.total ∧
      (¬ l.Regular e → l'.weight + l.total < l.weight + l'.total) := by
  obtain ⟨-, hcases⟩ := step_cases hplace h
  rw [weight, weight, total, total]
  rcases hcases with ⟨pdcpSn, front, old, new, rfl, hblocks, hrep, -, hlast, hnone, hd, hs, hdisc,
    hgiven⟩ | ⟨sdu, isRetx, rfl, -, hd, hs, hdisc, hgiven⟩ | ⟨hreg, -, hd, hs, hdisc, hgiven⟩
  · have hnew : (blockSns [new]).length ≤ (blockSns old).length + 1 ∧
        (¬ l.Regular (.discardSdu pdcpSn) → (blockSns [new]).length ≤ (blockSns old).length) := by
      rcases hrep with ⟨rfl, rfl⟩ | ⟨b, rfl, hend, rfl⟩
      · rw [blockSns_singleton]
        refine ⟨length_sns_single.1, fun hirr => ?_⟩
        have hsn : pdcpSn = BitVec.allOnes 32 := by
          by_contra hsn
          exact hirr ⟨hsn, fun b hb hend => absurd hend (hnone rfl b hb)⟩
        exact Nat.le_of_eq (length_sns_single.2 hsn)
      · rw [blockSns_singleton, blockSns_singleton]
        refine ⟨(length_sns_grow hend).1, fun hirr => (length_sns_grow hend).2 ?_⟩
        by_contra hsn
        rw [not_or] at hsn
        refine hirr ⟨hsn.1, fun b' hb' _ => ?_⟩
        rw [hlast b (List.mem_singleton_self b)] at hb'
        cases hb'
        exact hsn.2
    rw [hd, hs, hdisc, hgiven, comingDiscards, hblocks, blockSns_append, blockSns_append]
    simp only [List.length_append, List.length_singleton]
    refine ⟨by omega, fun hirr => ?_⟩
    have := hnew.2 hirr
    omega
  · rw [hd, hs, hdisc, hgiven]
    cases sdu with
    | nil => exact ⟨Nat.le_of_lt (by simp), fun _ => by simp⟩
    | cons x xs => exact ⟨by simp; omega, fun hirr => absurd (List.cons_ne_nil x xs) hirr⟩
  · rw [hd, hs, hdisc, hgiven]
    exact ⟨Nat.le_refl _, fun hirr => absurd (hreg l) hirr⟩

abbrev Steps (l : Link) (e : Event) (l' : Link) : Prop := l.step e = some l'

abbrev RegularSteps (l : Link) (e : Event) (l' : Link) : Prop := l.step e = some l' ∧ l.Regular e

theorem HasPlace.run (hplace : l.HasPlace) (hrun : Run Steps l es l') : l'.HasPlace :=
  hrun.invariant (fun _ _ _ hp h => (step_cases hp h).1) hplace

theorem Exact.run (hplace : l.HasPlace) (hl : l.Exact) (hrun : Run RegularSteps l es l') :
    l'.Exact := by
  have hstep (k : Link) (e : Event) (k' : Link) (hk : k.HasPlace ∧ k.Exact)
      (h : RegularSteps k e k') : k'.HasPlace ∧ k'.Exact :=
    ⟨(step_cases hk.1 h.1).1, hk.2.step hk.1 h.1 h.2⟩
  exact (hrun.invariant hstep ⟨hplace, hl⟩).2

/-- What is lost stays lost. -/
theorem weight_run (hplace : l.HasPlace) (hrun : Run Steps l es l') :
    l'.weight + l.total ≤ l.weight + l'.total := by
  induction hrun with
  | nil => exact Nat.le_refl _
  | cons h _ ih =>
    have hrest := ih (step_cases hplace h).1
    have hstep := (weight_step hplace h).1
    omega

/-- A run after which nothing is missing had only regular steps. -/
theorem regular_of_weight (hplace : l.HasPlace) (hle : l.weight ≤ l.total)
    (hrun : Run Steps l es l') (heq : l'.weight = l'.total) : Run RegularSteps l es l' := by
  induction hrun with
  | nil s => exact .nil s
  | cons h hrest ih =>
    have hplace' := (step_cases hplace h).1
    have hlost := weight_run hplace' hrest
    have hstep := weight_step hplace h
    refine .cons ⟨h, ?_⟩ (ih hplace' (by omega) heq)
    by_contra hirr
    have := hstep.2 hirr
    omega

def init : Link := {}

theorem hasPlace_init : init.HasPlace := Nat.succ_pos 15

theorem exact_init : init.Exact := ⟨rfl, rfl, nofun⟩

theorem Settled.coming (h : l.Settled) :
    l.comingDiscards = discards l.notified ∧ l.comingSdus = sdus l.notified := by
  simp [comingDiscards, comingSdus, h.1, h.2, msgDiscards, msgSdus, blockSns, discards, sdus]

/-- **Discards and SDUs over F1-U.** -/
theorem discards_delivered_iff (hrun : Run Steps init es l) :
    l.cu.discardBlocks.length ≤ nruMaxNofPdcpSnDiscardBlocks ∧
    (∀ pdcpSn, (l.cu.discardSdu pdcpSn).isSome) ∧
    (l.Settled → ((discards l.notified = l.discarded ∧ sdus l.notified = l.given) ↔
      Run RegularSteps init es l)) := by
  have hplace := hasPlace_init.run hrun
  refine ⟨Nat.le_of_lt hplace, fun pdcpSn => ?_, fun hsettled => ?_⟩
  · obtain ⟨cu', msgs, _, _, _, hcall, -⟩ := CuBearer.discardSdu_spec pdcpSn hplace
    rw [hcall]
    rfl
  · obtain ⟨hdisc, hsdus⟩ := hsettled.coming
    constructor
    · rintro ⟨hd, hs⟩
      refine regular_of_weight hasPlace_init (Nat.le_refl 0) hrun ?_
      rw [weight, total, hdisc, hsdus, hd, hs]
    · intro hreg
      have hexact := exact_init.run hasPlace_init hreg
      exact ⟨hdisc ▸ hexact.discards, hsdus ▸ hexact.sdus⟩

def consecutive (first count : Nat) : List Event :=
  (List.range' first count).map fun n => .discardSdu (BitVec.ofNat 32 n)

theorem discards_delivered_255 : ∃ l, l.Settled ∧
    discards l.notified = (List.range' 7 255).map (BitVec.ofNat 32) ∧
    Run Steps init (consecutive 7 255 ++ [.dlNotifTimerExpired, .arrive]) l ∧
    ((discards l.notified = l.discarded ∧ sdus l.notified = l.given) ↔
      Run RegularSteps init (consecutive 7 255 ++ [.dlNotifTimerExpired, .arrive]) l) := by
  have hexec : (exec step init (consecutive 7 255 ++ [.dlNotifTimerExpired, .arrive])).map
      (fun l => (l.cu.discardBlocks, l.inFlight.isEmpty, discards l.notified)) =
      some ([], true, (List.range' 7 255).map (BitVec.ofNat 32)) := by decide +kernel
  obtain ⟨l, hl, heq⟩ := Option.map_eq_some_iff.1 hexec
  simp only [Prod.mk.injEq] at heq
  have hsettled : l.Settled := ⟨heq.1, List.isEmpty_iff.1 heq.2.1⟩
  have hrun := run_of_exec hl
  exact ⟨l, hsettled, heq.2.2, hrun, (discards_delivered_iff hrun).2.2 hsettled⟩

/-- 256 discards in one block reset its size, and none of them arrives. -/
theorem discards_256_lost : ∃ l,
    Run Steps init (consecutive 0 256 ++ [.dlNotifTimerExpired, .arrive]) l ∧ l.Settled ∧
      l.discarded.length = 256 ∧ discards l.notified = [] := by
  have hexec : (exec step init (consecutive 0 256 ++ [.dlNotifTimerExpired, .arrive])).map
      (fun l => (l.cu.discardBlocks, l.inFlight.isEmpty, l.discarded.length,
        discards l.notified)) = some ([], true, 256, []) := by decide +kernel
  obtain ⟨l, hl, heq⟩ := Option.map_eq_some_iff.1 hexec
  simp only [Prod.mk.injEq] at heq
  exact ⟨l, run_of_exec hl, ⟨heq.1, List.isEmpty_iff.1 heq.2.1⟩, heq.2.2⟩

end Link

end RadioStack.F1u
