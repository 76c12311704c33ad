import Mathlib.Data.Int.ModEq
import RadioStack.Pdcp.RxInvariant
import RadioStack.Pdcp.TxInvariant

/-!
# Completing a sequence number to a COUNT

Both sides of a PDCP entity complete the sequence number of a PDU relative to a COUNT they know:
RX_DELIV for a received PDU, TX_NEXT_ACK or TX_TRANS for a notification of the lower layer. Over the
integers there is exactly one COUNT with that sequence number within a window of the known one
(`nominalCount`); the program computes it modulo 2^32 (`estimateCount_eq`).

**Theorem (`count_reconstructed`).** A COUNT within a window of the known one is recovered from its
sequence number, by the receiver and by the transmitter.
-/

namespace RadioStack.Pdcp

variable {n : SnSize} {hfn sn lower : Nat}

/-- The COUNT with sequence number `sn` within a window of `lower`, below zero for sequence numbers
of a hyper frame before the first. -/
def nominalCount (n : SnSize) (lower sn : Nat) : Int :=
  lower - n.windowSize + ((sn : Int) - (lower - n.windowSize)) % n.cardinality

theorem nominalCount_mem (n : SnSize) (lower sn : Nat) :
    (lower : Int) - n.windowSize ≤ nominalCount n lower sn ∧
      nominalCount n lower sn < lower + n.windowSize := by
  have hpos := windowSize_pos n
  have hcard := cardinality_eq n
  have hlow := Int.emod_nonneg ((sn : Int) - (lower - n.windowSize))
    (show (n.cardinality : Int) ≠ 0 by omega)
  have hhigh := Int.emod_lt_of_pos ((sn : Int) - (lower - n.windowSize))
    (show (0 : Int) < n.cardinality by omega)
  unfold nominalCount
  omega

theorem nominalCount_modEq (n : SnSize) (lower sn : Nat) :
    nominalCount n lower sn ≡ sn [ZMOD n.cardinality] := by
  have h := ((Int.mod_modEq ((sn : Int) - (lower - n.windowSize)) n.cardinality).add_left
    ((lower : Int) - n.windowSize))
  rwa [add_sub_cancel] at h

/-- It is the only COUNT within a window. -/
theorem nominalCount_eq {c : Int} (hmod : c ≡ sn [ZMOD n.cardinality])
    (hle : (lower : Int) - n.windowSize ≤ c) (hlt : c < lower + n.windowSize) :
    nominalCount n lower sn = c := by
  have hcard := cardinality_eq n
  obtain ⟨hle', hlt'⟩ := nominalCount_mem n lower sn
  have hdvd : (n.cardinality : Int) ∣ c - nominalCount n lower sn :=
    ((nominalCount_modEq n lower sn).trans hmod.symm).dvd
  have hzero := Int.eq_zero_of_abs_lt_dvd hdvd (abs_lt.2 ⟨by omega, by omega⟩)
  omega

theorem computeCount_lt (hsn : sn < n.cardinality) : computeCount n hfn sn < 2 ^ 32 := by
  rw [computeCount_eq hsn]
  obtain ⟨k, hk⟩ := cardinality_dvd n
  rw [hk, Nat.mul_comm hfn, Nat.mul_mod_mul_left]
  have hkpos : 0 < k := Nat.pos_of_ne_zero fun h0 => by simp [h0] at hk
  have hlt : hfn % k + 1 ≤ k := Nat.mod_lt _ hkpos
  calc n.cardinality * (hfn % k) + sn < n.cardinality * (hfn % k) + n.cardinality := by omega
    _ = n.cardinality * (hfn % k + 1) := by rw [Nat.mul_succ]
    _ ≤ n.cardinality * k := Nat.mul_le_mul_left _ hlt

theorem computeCount_modEq (hsn : sn < n.cardinality) {h : Int}
    (hh : (hfn : Int) ≡ h [ZMOD 2 ^ 32]) :
    (computeCount n hfn sn : Int) ≡ h * n.cardinality + sn [ZMOD 2 ^ 32] := by
  rw [computeCount_eq hsn]
  push_cast
  exact ((Int.mod_modEq _ _).trans (hh.mul_right _)).add_right _

/-- The completed COUNT is the one within a window, modulo 2^32. -/
theorem estimateCount_eq (hsn : sn < n.cardinality) :
    (estimateCount n lower sn : Int) = nominalCount n lower sn % 2 ^ 32 := by
  have hcard := cardinality_eq n
  have hsn' := computeSn_lt n lower
  have hparts : (lower : Int) = computeHfn n lower * n.cardinality + computeSn n lower := by
    have := Nat.div_add_mod lower n.cardinality
    rw [computeHfn_eq, computeSn_eq]
    rw [mul_comm]
    exact_mod_cast this.symm
  -- the three cases give the three hyper frames around `lower`
  have hcase : ∃ h : Int, (estimateCount n lower sn : Int) ≡ h * n.cardinality + sn [ZMOD 2 ^ 32] ∧
      estimateCount n lower sn < 2 ^ 32 ∧ nominalCount n lower sn = h * n.cardinality + sn := by
    have hmod : ∀ h : Int, h * n.cardinality + sn ≡ sn [ZMOD n.cardinality] := fun h =>
      Int.ModEq.symm ((Int.modEq_iff_dvd).2 ⟨h, by ring⟩)
    rw [estimateCount]
    by_cases hlow : (sn : Int) < (computeSn n lower : Int) - n.windowSize
    · simp only [if_pos hlow]
      refine ⟨computeHfn n lower + 1, computeCount_modEq hsn ?_, computeCount_lt hsn,
        nominalCount_eq (hmod _) ?_ ?_⟩
      · push_cast
        exact Int.mod_modEq _ _
      · rw [add_mul]; omega
      · rw [add_mul]; omega
    · simp only [if_neg hlow]
      by_cases hhigh : computeSn n lower + n.windowSize ≤ sn
      · rw [if_pos hhigh]
        refine ⟨computeHfn n lower - 1, computeCount_modEq hsn ?_, computeCount_lt hsn,
          nominalCount_eq (hmod _) ?_ ?_⟩
        · push_cast
          refine (Int.mod_modEq _ _).trans (Int.modEq_iff_dvd.2 ⟨-1, by ring⟩)
        · rw [sub_mul]; omega
        · rw [sub_mul]; omega
      · rw [if_neg hhigh]
        exact ⟨computeHfn n lower, computeCount_modEq hsn rfl, computeCount_lt hsn,
          nominalCount_eq (hmod _) (by omega) (by omega)⟩
  obtain ⟨h, hcongr, hlt, hnom⟩ := hcase
  rw [hnom, ← hcongr]
  exact (Int.emod_eq_of_lt (by omega) (by exact_mod_cast hlt)).symm

/-- COUNT within a window of `lower`, as a 32-bit number. -/
def wrappedCount (n : SnSize) (lower sn : Nat) : Nat := (nominalCount n lower sn % 2 ^ 32).toNat

theorem estimateCount_eq_wrappedCount (hsn : sn < n.cardinality) :
    estimateCount n lower sn = wrappedCount n lower sn := by
  have heq : (estimateCount n lower sn : Int) = _ := estimateCount_eq hsn
  rw [wrappedCount, ← heq, Int.toNat_natCast]

/-- A COUNT within a window of the known one is recovered. -/
theorem estimateCount_computeSn {c : Nat} (hc : c < 2 ^ 32) (hle : lower ≤ c + n.windowSize)
    (hlt : c < lower + n.windowSize) : estimateCount n lower (computeSn n c) = c := by
  have hmod : (c : Int) ≡ computeSn n c [ZMOD n.cardinality] := by
    rw [computeSn_eq]
    exact (Int.mod_modEq _ _).symm
  have hnom : nominalCount n lower (computeSn n c) = c :=
    nominalCount_eq hmod (by omega) (by omega)
  have heq : (estimateCount n lower (computeSn n c) : Int) = _ :=
    estimateCount_eq (computeSn_lt n c)
  rw [hnom, Int.emod_eq_of_lt (by omega) (by exact_mod_cast hc)] at heq
  exact_mod_cast heq

/-- RCVD_COUNT and NOTIFICATION_COUNT, for every COUNT within a window of the anchor. -/
theorem count_reconstructed {c : Nat} (hc : c < 2 ^ 32) :
    (∀ {cfg : RxConfig} (s : RxEntity cfg),
      s.rxDeliv ≤ c + cfg.snSize.windowSize → c < s.rxDeliv + cfg.snSize.windowSize →
      s.rcvdCount (computeSn cfg.snSize c) = c) ∧
    ∀ {cfg : TxConfig} (s : TxEntity cfg) (anchor : Nat),
      anchor = (if cfg.discardTimer.isSome then s.txNextAck else s.txTrans) →
      anchor ≤ c + cfg.snSize.windowSize → c < anchor + cfg.snSize.windowSize →
      s.notificationCountEstimation (computeSn cfg.snSize c) = c := by
  constructor
  · intro cfg s hle hlt
    exact estimateCount_computeSn hc hle hlt
  · rintro cfg s anchor rfl hle hlt
    exact estimateCount_computeSn hc hle hlt

/-- COUNT 4095, the last of the first hyper frame, seen from the second one. -/
theorem count_reconstructed_previousFrame :
    ({ rxDeliv := 4097 } : RxEntity RxEntity.sampleConfig).rcvdCount 4095 = 4095 ∧
      ({ txNextAck := 4097, txNext := 4098 } :
        TxEntity TxEntity.sampleConfig).notificationCountEstimation 4095 = 4095 :=
  ⟨(count_reconstructed (c := 4095) (by decide)).1 { rxDeliv := 4097 } (by decide) (by decide),
    (count_reconstructed (c := 4095) (by decide)).2 { txNextAck := 4097, txNext := 4098 } 4097 rfl
      (by decide) (by decide)⟩

end RadioStack.Pdcp
