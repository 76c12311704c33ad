import RadioStack.Pdcp.RxFrame
import RadioStack.Pdcp.TxInvariant

/-!
# PDCP status reports

The receiving side reports RX_DELIV and a bitmap of the COUNTs behind it; the transmitting side
discards the SDUs that are reported as received. The report is at most 9000 bytes long, so the
bitmap may end before RX_NEXT (`bitmapEnd`), and it is padded with zeros, which stand for missing
COUNTs.

**Theorem (`statusReport_exchange`).** A transmitting entity that handles the report of a receiving
one removes the stored COUNTs that were reported and no others, and tells the lower layer once for
each. TX_NEXT_ACK is then the oldest COUNT left, or TX_NEXT, exactly if a stored COUNT was reported
or it was at a stored COUNT, or at TX_NEXT, before.

A delivery notification moves TX_NEXT_ACK behind the COUNT it is about, to a COUNT that may have
been discarded before, and a report that removes nothing leaves it there
(`statusReport_exchange_stays`). -/

namespace RadioStack.Pdcp

open BitString

/-! ## Compiling a report -/

variable {bits : List Bool}

namespace RxEntity

variable {cfg : RxConfig} {s t : RxEntity cfg}

/-- A COUNT that the report marks as received. -/
def Reported (s : RxEntity cfg) (c : Nat) : Prop :=
  c < s.rxDeliv ∨ (s.rxDeliv < c ∧ c < s.bitmapEnd ∧ s.rxWindow.contains c)

instance (s : RxEntity cfg) (c : Nat) : Decidable (s.Reported c) :=
  inferInstanceAs (Decidable (_ ∨ _))

structure Bounded (s : RxEntity cfg) : Prop where
  deliv : s.rxDeliv < 2 ^ 32
  next : s.rxNext < 2 ^ 32

def bitmapRange (s : RxEntity cfg) : List Nat :=
  List.range' ((s.rxDeliv + 1) % 2 ^ 32) (s.bitmapEnd - (s.rxDeliv + 1) % 2 ^ 32)

theorem encodes_bitmap (p : Nat → Bool) {e : BitEncoder} (h : e.Encodes bits) (counts : List Nat) :
    (counts.foldl (fun e i => e.pack (if p i then 1 else 0) 1) e).Encodes
      (bits ++ counts.map p) := by
  induction counts generalizing e bits with
  | nil =>
    rw [List.map_nil, List.append_nil]
    exact h
  | cons i counts ih =>
    have hbit : natBits 1 (if p i then 1 else 0) = [p i] := by
      cases p i with
      | true => rfl
      | false => rfl
    have hpack : (e.pack (if p i then 1 else 0) 1).Encodes (bits ++ [p i]) := by
      rw [← hbit]
      refine h.pack (by decide) ?_
      split
      · decide
      · decide
    have hrest := ih hpack
    rw [List.append_assoc, List.singleton_append] at hrest
    exact hrest

/-- The bits of a report: header, FMC, bitmap and padding. -/
theorem bytesBits_compileStatusReport (h : s.Bounded) :
    ∃ pad, bytesBits s.compileStatusReport =
      natBits 1 0 ++ (natBits 3 0 ++ (natBits 4 0 ++ (natBits 32 s.rxDeliv ++
        (s.bitmapRange.map s.rxWindow.contains ++ List.replicate pad false)))) := by
  have hfmc : s.rxDeliv < 2 ^ 64 := Nat.lt_trans h.deliv (by decide)
  have hheader : ((BitEncoder.pack {} 0 1).pack 0 3 |>.pack 0 4).Encodes
      ([] ++ natBits 1 0 ++ natBits 3 0 ++ natBits 4 0) :=
    ((BitEncoder.encodes_empty.pack (by decide) (by decide)).pack (by decide) (by decide)).pack
      (by decide) (by decide)
  have hstart : (((BitEncoder.pack {} 0 1).pack 0 3 |>.pack 0 4).pack s.rxDeliv 32).Encodes
      ([] ++ natBits 1 0 ++ natBits 3 0 ++ natBits 4 0 ++ natBits 32 s.rxDeliv) :=
    hheader.pack (by decide) hfmc
  have hbits := (encodes_bitmap s.rxWindow.contains hstart s.bitmapRange).bytes_eq
  exact ⟨_, hbits⟩

/-! ### Reachable states -/

theorem Bounded.shrunk (h : s.Bounded) (hs : Shrunk s t) : t.Bounded :=
  ⟨hs.deliv_lt h.deliv, hs.next ▸ h.next⟩

theorem Bounded.storeSdu (h : s.Bounded) {c : Nat} (hc : c < cfg.maxCount.hard) (sdu : List UInt8) :
    (s.storeSdu c sdu).Bounded := by
  refine ⟨h.deliv, ?_⟩
  rw [RxEntity.storeSdu]
  split
  · exact Nat.lt_of_le_of_lt hc cfg.maxCount.hard_lt
  · exact h.next

theorem Bounded.step {crypto : Crypto} {e : Event} (h : s.Bounded)
    (hstep : s.step crypto e = some t) : t.Bounded := by
  cases changed_of_step hstep with
  | shrunk hs => exact h.shrunk hs
  | stored u c sdu hc hs hs' => exact ((h.shrunk hs).storeSdu hc sdu).shrunk hs'
  | reset u hs hs' =>
    have hu : u.reset.Bounded := ⟨Nat.two_pow_pos 32, Nat.two_pow_pos 32⟩
    exact hu.shrunk hs'

end RxEntity

/-! ## Handling a report -/

namespace TxEntity

variable {cfg : TxConfig} {s t : TxEntity cfg}

theorem mem_bitmapCounts {fmc c : Nat} :
    c ∈ bitmapCounts fmc bits ↔ ∃ i, bits[i]? = some true ∧ c = (fmc + 1 + i) % 2 ^ 32 := by
  induction bits generalizing fmc with
  | nil => simp [bitmapCounts]
  | cons bit bits ih =>
    have hrest : c ∈ bitmapCounts ((fmc + 1) % 2 ^ 32) bits ↔
        ∃ i, bits[i]? = some true ∧ c = (fmc + 1 + (i + 1)) % 2 ^ 32 := by
      rw [ih]
      simp [Nat.add_assoc, Nat.add_comm 1]
    rw [bitmapCounts, ← Nat.or_exists_add_one]
    cases bit with
    | true => simp only [if_true, List.mem_cons, hrest, List.getElem?_cons_zero,
        List.getElem?_cons_succ, Nat.add_zero, true_and]
    | false => simp only [Bool.false_eq_true, if_false, hrest, List.getElem?_cons_zero,
        List.getElem?_cons_succ, Option.some.injEq, false_and, false_or]

/-- The COUNTs a well-formed report stands for. -/
theorem handleStatusReport_of_bits {status : List UInt8} {fmc : Nat} (hfmc : fmc < 2 ^ 32)
    (hbits : bytesBits status =
      natBits 1 0 ++ (natBits 3 0 ++ (natBits 4 0 ++ (natBits 32 fmc ++ bits)))) :
    s.handleStatusReport status =
      s.discardPdus (List.range' s.txNextAck (fmc - s.txNextAck) ++ bitmapCounts fmc bits) := by
  have hlen : bits.length ≤ 8 * status.length := by
    have := congrArg List.length hbits
    simp only [length_bytesBits, List.length_append, length_natBits] at this
    omega
  obtain ⟨d₁, ho₁, hb₁, hu₁⟩ := BitDecoder.unpack_field (d := { rest := status })
    (Nat.zero_lt_succ 7) hbits (Nat.two_pow_pos 1)
  obtain ⟨d₂, ho₂, hb₂, hu₂⟩ := BitDecoder.unpack_field ho₁ hb₁ (Nat.two_pow_pos 3)
  obtain ⟨d₃, ho₃, hb₃, hu₃⟩ := BitDecoder.unpack_field ho₂ hb₂ (Nat.two_pow_pos 4)
  obtain ⟨d₄, ho₄, hb₄, hu₄⟩ := BitDecoder.unpack_field ho₃ hb₃ hfmc
  rw [handleStatusReport]
  simp only [hu₁, hu₂, hu₃, hu₄, ne_eq, not_true_eq_false, if_false]
  rw [discardPdus, discardPdus, List.foldlM_append]
  congr 1
  funext u
  rw [bitmapLoop_eq fmc ho₄ (by rw [hb₄]; exact Nat.lt_succ_of_le hlen), hb₄]
  rfl

end TxEntity

/-! ## Exchange -/

section Exchange

variable {rxCfg : RxConfig} {cfg : TxConfig} {rx : RxEntity rxCfg} {s t : TxEntity cfg}

theorem bitmapEnd_lt (h : rx.Bounded) : rx.bitmapEnd < 2 ^ 32 := by
  rw [RxEntity.bitmapEnd]
  split
  · exact Nat.mod_lt _ (Nat.two_pow_pos 32)
  · exact h.next

theorem bitmap_set_iff {pad i : Nat} :
    (rx.bitmapRange.map rx.rxWindow.contains ++ List.replicate pad false)[i]? = some true ↔
      i < rx.bitmapEnd - (rx.rxDeliv + 1) % 2 ^ 32 ∧
        rx.rxWindow.contains ((rx.rxDeliv + 1) % 2 ^ 32 + i) := by
  rw [RxEntity.bitmapRange]
  generalize (rx.rxDeliv + 1) % 2 ^ 32 = first
  by_cases hi : i < rx.bitmapEnd - first
  · rw [List.getElem?_append_left (by simpa using hi), List.getElem?_map, List.getElem?_range' hi,
      Nat.one_mul]
    simp [hi]
  · rw [List.getElem?_append_right (by simpa using hi), List.getElem?_replicate]
    simp [hi]

theorem mem_counts_iff (h : rx.Bounded) {lo c pad : Nat} (hlo : lo ≤ c) (hc : c + 1 < 2 ^ 32) :
    c ∈ List.range' lo (rx.rxDeliv - lo) ++ TxEntity.bitmapCounts rx.rxDeliv
        (rx.bitmapRange.map rx.rxWindow.contains ++ List.replicate pad false) ↔
      rx.Reported c := by
  have hend := bitmapEnd_lt h
  have hdeliv := h.deliv
  rw [List.mem_append, List.mem_range'_1, TxEntity.mem_bitmapCounts, RxEntity.Reported]
  simp only [bitmap_set_iff]
  constructor
  · rintro (hbelow | ⟨i, ⟨hi, hset⟩, heq⟩)
    · exact .inl (by omega)
    · by_cases hlast : rx.rxDeliv + 1 = 2 ^ 32
      · -- FMC is the last 32-bit number: every COUNT is below it
        exact .inl (by omega)
      · rw [Nat.mod_eq_of_lt (by omega)] at hi hset
        rw [Nat.mod_eq_of_lt (by omega)] at heq
        exact .inr ⟨by omega, by omega, heq ▸ hset⟩
  · rintro (hbelow | ⟨hgt, hlt, hset⟩)
    · exact .inl (by omega)
    · refine .inr ⟨c - (rx.rxDeliv + 1), ?_⟩
      rw [Nat.mod_eq_of_lt (show rx.rxDeliv + 1 < 2 ^ 32 by omega), Nat.add_sub_cancel' hgt]
      exact ⟨⟨by omega, hset⟩, (Nat.mod_eq_of_lt (by omega)).symm⟩

/-- The report of `rx` has been handled, from `s` to `t`. -/
structure Exchanged (rx : RxEntity rxCfg) (s t : TxEntity cfg) : Prop where
  next : t.txNext = s.txNext
  /-- The reported COUNTs have been removed, the others are as before. -/
  window : ∀ c, t.txWindow.get? c = if rx.Reported c then none else s.txWindow.get? c
  /-- The lower layer has been told once for each COUNT removed. -/
  discards : ∃ cs : List Nat, cs.Nodup ∧ (∀ c, c ∈ cs ↔ s.txWindow.contains c ∧ rx.Reported c) ∧
    t.actions = s.actions ++ cs.map fun c => .discardPdu (computeSn cfg.snSize c)
  le : ∀ c, t.txWindow.contains c → t.txNextAck ≤ c
  /-- TX_NEXT_ACK is stored or TX_NEXT if a COUNT has been removed, or if it was before. -/
  oldest : t.txWindow.contains t.txNextAck ∨ t.txNextAck = t.txNext ↔
    (∃ c, s.txWindow.contains c ∧ rx.Reported c) ∨
      s.txWindow.contains s.txNextAck ∨ s.txNextAck = s.txNext
  stays : (∀ c, s.txWindow.contains c → ¬ rx.Reported c) → t.txNextAck = s.txNextAck

theorem exchanged_of_inv (hrx : rx.Bounded) (h : s.Inv) (htimer : cfg.discardTimer.isSome) :
    ∃ t, s.handleStatusReport rx.compileStatusReport = .ok t ∧ Exchanged rx s t := by
  obtain ⟨pad, hbits⟩ := RxEntity.bytesBits_compileStatusReport hrx
  rw [TxEntity.handleStatusReport_of_bits hrx.deliv hbits]
  obtain ⟨cs, t, ht, hd, hmem⟩ := TxEntity.discardPdus_spec h htimer
    (List.range' s.txNextAck (rx.rxDeliv - s.txNextAck) ++ TxEntity.bitmapCounts rx.rxDeliv
      (rx.bitmapRange.map rx.rxWindow.contains ++ List.replicate pad false))
  have hcs : ∀ c, c ∈ cs ↔ s.txWindow.contains c ∧ rx.Reported c := by
    intro c
    rw [hmem c, and_comm]
    refine and_congr_right fun hc => ?_
    obtain ⟨hlo, hlt⟩ := h.mem hc
    exact mem_counts_iff hrx hlo (Nat.lt_of_le_of_lt hlt h.bound)
  have hstays (hnone : ∀ c, s.txWindow.contains c → ¬ rx.Reported c) : cs = [] :=
    List.eq_nil_iff_forall_not_mem.2 fun c hc => hnone c ((hcs c).1 hc).1 ((hcs c).1 hc).2
  refine ⟨t, ht, hd.next, fun c => ?_, ⟨cs, hd.nodup, hcs, hd.actions⟩,
    fun c hc => (hd.inv.mem hc).1, ?_, fun hnone => hd.ack (hstays hnone)⟩
  · rw [hd.window c]
    by_cases hc : s.txWindow.contains c = true
    · simp [hcs c, hc]
    · have hnone : s.txWindow.get? c = none := by simpa [CircularMap.contains] using hc
      simp [hnone]
  · by_cases hsome : ∃ c, s.txWindow.contains c ∧ rx.Reported c
    · obtain ⟨c, hc⟩ := hsome
      have hne : cs ≠ [] := List.ne_nil_of_mem ((hcs c).2 hc)
      exact iff_of_true (hd.oldest hne).symm (.inl ⟨c, hc⟩)
    · -- nothing is removed: window and state variables are those from before
      obtain rfl := hstays fun c hin hrep => hsome ⟨c, hin, hrep⟩
      rw [or_iff_right hsome, hd.ack rfl, hd.next, CircularMap.contains, hd.window]
      simp [CircularMap.contains]

/-- Handling the report of a receiving entity, in any states two runs reach. -/
theorem statusReport_exchange {crypto crypto' : Crypto} {rxEvents : List RxEntity.Event}
    {events : List TxEntity.Event}
    (hrx : Run (fun s e t => RxEntity.step crypto s e = some t) ({} : RxEntity rxCfg) rxEvents rx)
    (htx : Run (fun s e t => TxEntity.step crypto' s e = some t) ({} : TxEntity cfg) events s)
    (htimer : cfg.discardTimer.isSome) :
    ∃ t, s.handleStatusReport rx.compileStatusReport = .ok t ∧ Exchanged rx s t :=
  exchanged_of_inv (hrx.invariant (P := RxEntity.Bounded) (fun _ _ _ h hstep => h.step hstep)
      ⟨Nat.two_pow_pos 32, Nat.two_pow_pos 32⟩)
    (htx.invariant (P := TxEntity.Inv) (fun _ _ _ h hstep => h.step hstep) TxEntity.inv_init) htimer

/-- The receiving entity of an acknowledged data bearer. -/
def amRxConfig : RxConfig where
  rbType := .drb
  rlcMode := .am
  snSize := .size12bits
  direction := .downlink
  bearerId := 1
  tReordering := .ms 10
  maxCount := .default

/-- COUNTs 0 and 2 of four have been received. -/
theorem statusReport_exchange_fourSdus :
    ∃ rxEvents events, ∃ rx : RxEntity amRxConfig, ∃ s t : TxEntity TxEntity.sampleConfig,
      Run (fun s e t => RxEntity.step noCrypto s e = some t) {} rxEvents rx ∧
      Run (fun s e t => TxEntity.step noCrypto s e = some t) {} events s ∧
      (rx.rxDeliv, rx.rxNext, s.txNext) = (1, 3, 4) ∧
      s.handleStatusReport rx.compileStatusReport = .ok t ∧ Exchanged rx s t := by
  have hrx : (exec (RxEntity.step noCrypto) ({} : RxEntity amRxConfig)
      [.pdu [0x80, 0, 1], .pdu [0x80, 2, 3]]).map (fun rx => (rx.rxDeliv, rx.rxNext)) =
        some (1, 3) := by decide +kernel
  have htx : (exec (TxEntity.step noCrypto) ({} : TxEntity TxEntity.sampleConfig)
      [.sdu [1] {}, .sdu [2] {}, .sdu [3] {}, .sdu [4] {}]).map TxEntity.txNext = some 4 := by
    decide +kernel
  obtain ⟨rx, hrxExec, hrxVars⟩ := Option.map_eq_some_iff.1 hrx
  obtain ⟨s, htxExec, hnext⟩ := Option.map_eq_some_iff.1 htx
  obtain ⟨t, ht, hexchanged⟩ := statusReport_exchange (run_of_exec hrxExec) (run_of_exec htxExec)
    (rfl : TxEntity.sampleConfig.discardTimer.isSome)
  obtain ⟨hdeliv, hrxNext⟩ := Prod.mk.inj hrxVars
  exact ⟨_, _, rx, s, t, run_of_exec hrxExec, run_of_exec htxExec, by rw [hdeliv, hrxNext, hnext],
    ht, hexchanged⟩

/-- COUNT 1 is discarded and COUNT 0 delivered before an empty report: TX_NEXT_ACK stays at 1, which
is not in the window, and COUNT 2 is. -/
theorem statusReport_exchange_stays :
    ∃ events, ∃ s t : TxEntity TxEntity.sampleConfig,
      Run (fun s e t => TxEntity.step noCrypto s e = some t) {} events s ∧
      ({} : RxEntity amRxConfig).rxNext ≤ s.txNext ∧
      s.handleStatusReport ({} : RxEntity amRxConfig).compileStatusReport = .ok t ∧
      t.txNextAck = 1 ∧ t.txNext = 3 ∧ t.txWindow.contains 1 = false ∧ t.txWindow.contains 2 := by
  have htx : (exec (TxEntity.step noCrypto) ({} : TxEntity TxEntity.sampleConfig)
      [.sdu [1] {}, .sdu [2] {}, .sdu [3] {}, .statusReport [0, 0, 0, 0, 0, 0x80],
        .deliveryNotification 0]).map (fun s =>
          (s.handleStatusReport ({} : RxEntity amRxConfig).compileStatusReport).toOption.map
            fun t => (t.txNextAck, t.txNext, t.txWindow.contains 1, t.txWindow.contains 2)) =
      some (some (1, 3, false, true)) := by decide +kernel
  obtain ⟨s, hs, hreport⟩ := Option.map_eq_some_iff.1 htx
  obtain ⟨t, ht, hvars⟩ := Option.map_eq_some_iff.1 hreport
  obtain ⟨hack, hnext, hout, hin⟩ : t.txNextAck = 1 ∧ t.txNext = 3 ∧
      t.txWindow.contains 1 = false ∧ t.txWindow.contains 2 = true := by simpa using hvars
  exact ⟨_, s, t, run_of_exec hs, Nat.zero_le _, toOption_eq_some.1 ht, hack, hnext, hout, hin⟩

end Exchange

end RadioStack.Pdcp
