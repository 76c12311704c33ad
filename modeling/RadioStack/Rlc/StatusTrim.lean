import RadioStack.Rlc.NackSet
import RadioStack.Rlc.ReportedNacks

/-!
# Trimming status PDUs

A status PDU that does not fit its grant is trimmed: `trim` drops NACKs from the back, and ACK_SN
becomes the SN of the last one dropped. NACKs in front of it that have the same SN are dropped as
well, because nothing at or above ACK_SN may be reported.

The comparison is with the first SN of a NACK. A NACK with a range can end in the middle of an SDU
whose other gaps are separate NACKs, and when these are dropped the range still reaches the SN that
became ACK_SN. The peer ignores such a report.

**Theorem (`trim_iff`).** The trimmed PDU fits, its packed size is what `pack` writes, and its NACKs
are a prefix of the original ones. They are below ACK_SN, and the peer accepts them, if and only if
the first NACK that does not fit is not one whose SN a range in front of it ends at (`CutsRange`).
-/

namespace RadioStack.Rlc

/-! ## Reports -/

namespace StatusNack

def lastSn (n : AmSnSize) (x : StatusNack) : Nat := (x.nackSn + (x.span - 1)) % n.mod

end StatusNack

open StatusNack

namespace StatusPdu

/-- NACKs in increasing order below `top`. One may start at the SN where the one before ends. -/
structure Ascending (n : AmSnSize) (rxNext top : Nat) (nacks : List StatusNack) : Prop where
  sn_lt : ∀ x ∈ nacks, x.nackSn < n.mod
  span_pos : ∀ x ∈ nacks, 0 < x.span
  below : ∀ x ∈ nacks, x.offset n rxNext + x.span ≤ top
  ordered : nacks.Pairwise fun a b => a.offset n rxNext + a.span ≤ b.offset n rxNext + 1

section

variable {n : AmSnSize} {rxNext top : Nat} {s : StatusPdu} {nacks : List StatusNack}
  {nack : StatusNack}

theorem Ascending.mono {top' : Nat} (h : Ascending n rxNext top nacks) (hle : top ≤ top') :
    Ascending n rxNext top' nacks :=
  ⟨h.sn_lt, h.span_pos, fun x hx => (h.below x hx).trans hle, h.ordered⟩

theorem Ascending.concat (h : Ascending n rxNext top nacks) (hsn : nack.nackSn < n.mod)
    (hspan : 0 < nack.span) (htop : top ≤ nack.offset n rxNext + 1) :
    Ascending n rxNext (nack.offset n rxNext + nack.span) (nacks ++ [nack]) := by
  refine ⟨?_, ?_, ?_, ?_⟩
  · simpa [or_imp, forall_and] using ⟨h.sn_lt, hsn⟩
  · simpa [or_imp, forall_and] using ⟨h.span_pos, hspan⟩
  · intro x hx
    rcases List.mem_append.1 hx with hx | hx
    · have := h.below x hx
      omega
    · rw [List.mem_singleton.1 hx]
  · refine List.pairwise_append.2 ⟨h.ordered, List.pairwise_singleton .., fun a ha b hb => ?_⟩
    rw [List.mem_singleton.1 hb]
    exact (h.below a ha).trans htop

theorem Ascending.pushNack (h : Ascending n rxNext top s.nacks) (hsize : s.snSize = n)
    (hsn : nack.nackSn < n.mod) (hspan : nack.span = 1) (htop : top ≤ nack.offset n rxNext + 1)
    (hlt : nack.offset n rxNext + 1 < n.mod) :
    Ascending n rxNext (nack.offset n rxNext + 1) (s.pushNack nack).nacks := by
  rcases pushNack_cases s nack with ⟨front, prev, hlast, hmerge⟩ | hnot
  · rw [pushNack_of_merge hlast hmerge]
    rw [hlast] at h
    have hprev := h.below prev (by simp)
    have hsucc : nack.nackSn = (prev.nackSn + prev.span) % n.mod :=
      hsize ▸ (canBeMerged_iff.1 hmerge).1
    -- the NACK before ends right in front of the new one
    have hoff : nack.offset n rxNext = prev.offset n rxNext + prev.span := by
      refine serialSub_of_add n.mod_dvd ?_ (show prev.offset n rxNext + prev.span < n.mod by omega)
      rw [hsucc]
      exact Nat.mod_modEq _ _
    obtain ⟨hord, -, hcross⟩ := List.pairwise_append.1 h.ordered
    have hsame : (mergeNack prev nack).offset n rxNext = prev.offset n rxNext := by
      rw [offset, nackSn_mergeNack, offset]
    have hspan' : (mergeNack prev nack).span = prev.span + 1 := by rw [span_mergeNack, hspan]
    have hfront : Ascending n rxNext (prev.offset n rxNext + 1) front :=
      ⟨fun x hx => h.sn_lt x (by simp [hx]), fun x hx => h.span_pos x (by simp [hx]),
        fun x hx => hcross x hx prev (by simp), hord⟩
    have hsn' : (mergeNack prev nack).nackSn < n.mod := by
      rw [nackSn_mergeNack]
      exact h.sn_lt prev (by simp)
    exact (hfront.concat hsn' (by omega) (by omega)).mono (by omega)
  · rw [pushNack_of_not_merge hnot]
    exact hspan ▸ h.concat hsn (by omega) htop

theorem Ascending.foldl {stop : Nat} {pushed : List StatusNack}
    (h : Ascending n rxNext top s.nacks) (hsize : s.snSize = n) (hstop : stop < n.mod)
    (hle : top ≤ stop) (hsingle : ∀ x ∈ pushed, x.nackSn < n.mod ∧ x.hasNackRange = false)
    (hbelow : ∀ x ∈ pushed, x.offset n rxNext < stop)
    (htop : ∀ x ∈ pushed, top ≤ x.offset n rxNext + 1)
    (hord : pushed.Pairwise fun a b => a.offset n rxNext ≤ b.offset n rxNext) :
    Ascending n rxNext stop (pushed.foldl StatusPdu.pushNack s).nacks := by
  induction pushed generalizing s top with
  | nil => exact h.mono hle
  | cons x pushed ih =>
    obtain ⟨hsn, hrange⟩ := hsingle x List.mem_cons_self
    have hx := hbelow x List.mem_cons_self
    obtain ⟨hfirst, hord⟩ := List.pairwise_cons.1 hord
    have hpush := h.pushNack hsize hsn (by simp [span, hrange]) (htop x List.mem_cons_self)
      (by omega)
    exact ih hpush ((snSize_pushNack s x).trans hsize) (by omega)
      (fun y hy => hsingle y (List.mem_cons_of_mem _ hy))
      (fun y hy => hbelow y (List.mem_cons_of_mem _ hy))
      (fun y hy => by have := hfirst y hy; omega) hord

end

end StatusPdu

open StatusPdu

section

variable {n : AmSnSize} {rxNext ackSn : Nat} {pushed : List StatusNack}

/-- **The NACKs of a report are in increasing order and below ACK_SN.** -/
theorem Reported.ascending (h : Reported n rxNext ackSn pushed) :
    Ascending n rxNext (serialSub n.mod ackSn rxNext) (statusReport n ackSn pushed).nacks := by
  have hempty : Ascending n rxNext 0 ({ snSize := n } : StatusPdu).nacks :=
    ⟨nofun, nofun, nofun, .nil⟩
  exact hempty.foldl rfl (serialSub_lt n.mod_pos) (Nat.zero_le _) h.single h.below
    (fun _ _ => Nat.zero_le _) h.increasing

theorem statusReport_synced (n : AmSnSize) (ackSn : Nat) (pushed : List StatusNack) :
    (statusReport n ackSn pushed).Synced := by
  have hempty : ({ snSize := n } : StatusPdu).Synced := rfl
  exact hempty.foldl pushed

end

/-! ## The loop of `trim` -/

namespace StatusPdu

section

variable {n : AmSnSize} {maxPackedSize : Nat} {nacks : List StatusNack}

theorem nacksSize_le_append (nacks rest : List StatusNack) :
    nacksSize n nacks ≤ nacksSize n (nacks ++ rest) := by
  simp [nacksSize]

/-- Once the PDU fits, the NACKs with the SN that became ACK_SN are dropped. -/
theorem trimLoop_of_fits (ackSn : Nat) (h : nacksSize n nacks ≤ maxPackedSize) :
    ∃ kept same, nacks = kept ++ same ∧ (∀ x ∈ same, x.nackSn = ackSn) ∧
      (∀ x ∈ kept.getLast?, x.nackSn ≠ ackSn) ∧
      trimLoop n maxPackedSize nacks.reverse (nacksSize n nacks) ackSn =
        (kept.reverse, nacksSize n kept, ackSn) := by
  induction nacks using List.reverseRecOn with
  | nil => exact ⟨[], [], rfl, nofun, nofun, rfl⟩
  | append_singleton nacks x ih =>
    have hfits := Nat.not_lt.2 h
    rw [List.reverse_concat, trimLoop]
    by_cases hsn : x.nackSn = ackSn
    · obtain ⟨kept, same, hsplit, hsame, hkept, hloop⟩ :=
        ih ((nacksSize_le_append nacks [x]).trans h)
      refine ⟨kept, same ++ [x], by rw [hsplit, List.append_assoc], ?_, hkept, ?_⟩
      · simpa [or_imp, forall_and, hsn] using hsame
      · rw [if_pos (.inr hsn), nacksSize_append, Nat.add_sub_cancel, hsn]
        exact hloop
    · refine ⟨nacks ++ [x], [], (List.append_nil _).symm, nofun, by simpa using hsn, ?_⟩
      rw [if_neg (not_or.2 ⟨hfits, hsn⟩), List.reverse_concat]

/-- `t` is the first NACK that does not fit. -/
structure FirstUnfit (n : AmSnSize) (maxPackedSize : Nat) (nacks front : List StatusNack)
    (t : StatusNack) : Prop where
  split : ∃ back, nacks = front ++ t :: back
  fits : nacksSize n front ≤ maxPackedSize
  exceeds : maxPackedSize < nacksSize n (front ++ [t])

/-- NACKs are dropped up to the first one that does not fit; it gives ACK_SN its value. -/
theorem trimLoop_of_exceeds (ackSn : Nat) (hmax : 3 ≤ maxPackedSize)
    (h : maxPackedSize < nacksSize n nacks) :
    ∃ kept same t, FirstUnfit n maxPackedSize nacks (kept ++ same) t ∧
      (∀ x ∈ same, x.nackSn = t.nackSn) ∧ (∀ x ∈ kept.getLast?, x.nackSn ≠ t.nackSn) ∧
      trimLoop n maxPackedSize nacks.reverse (nacksSize n nacks) ackSn =
        (kept.reverse, nacksSize n kept, t.nackSn) := by
  induction nacks using List.reverseRecOn generalizing ackSn with
  | nil =>
    have : nacksSize n [] = 3 := rfl
    omega
  | append_singleton nacks x ih =>
    rw [List.reverse_concat, trimLoop, if_pos (.inl h), nacksSize_append, Nat.add_sub_cancel]
    by_cases hfits : nacksSize n nacks ≤ maxPackedSize
    · obtain ⟨kept, same, rfl, hsame, hkept, hloop⟩ := trimLoop_of_fits x.nackSn hfits
      exact ⟨kept, same, x, ⟨⟨[], rfl⟩, hfits, h⟩, hsame, hkept, hloop⟩
    · obtain ⟨kept, same, t, ⟨⟨back, hsplit⟩, hfit, hexc⟩, hsame, hkept, hloop⟩ :=
        ih x.nackSn (Nat.lt_of_not_le hfits)
      refine ⟨kept, same, t, ⟨⟨back ++ [x], ?_⟩, hfit, hexc⟩, hsame, hkept, hloop⟩
      rw [hsplit, List.append_assoc, List.cons_append]

theorem FirstUnfit.exceeds_all {front : List StatusNack} {t : StatusNack}
    (h : FirstUnfit n maxPackedSize nacks front t) : maxPackedSize < nacksSize n nacks := by
  obtain ⟨⟨back, rfl⟩, -, hexc⟩ := h
  have hle := nacksSize_le_append (n := n) (front ++ [t]) back
  rw [List.append_assoc, List.singleton_append] at hle
  exact hexc.trans_le hle

theorem FirstUnfit.unique {front front' : List StatusNack} {t t' : StatusNack}
    (h : FirstUnfit n maxPackedSize nacks front t)
    (h' : FirstUnfit n maxPackedSize nacks front' t') : front = front' ∧ t = t' := by
  obtain ⟨⟨back, hsplit⟩, hfit, hexc⟩ := h
  obtain ⟨⟨back', hsplit'⟩, hfit', hexc'⟩ := h'
  have hlonger : ∀ {a b : List StatusNack} {x : StatusNack},
      nacksSize n b ≤ maxPackedSize → maxPackedSize < nacksSize n (a ++ [x]) →
        ¬ (a ++ [x]) <+: b := by
    rintro a b x hb ha ⟨c, rfl⟩
    have := nacksSize_le_append (n := n) (a ++ [x]) c
    omega
  rcases List.append_eq_append_iff.1 (hsplit.symm.trans hsplit') with
    ⟨c, hfront, hrest⟩ | ⟨c, hfront, hrest⟩
  · cases c with
    | nil =>
      rw [List.nil_append, List.cons.injEq] at hrest
      exact ⟨by rw [hfront, List.append_nil], hrest.1⟩
    | cons y c =>
      rw [List.cons_append, List.cons.injEq] at hrest
      exact absurd ⟨c, by rw [hfront, hrest.1]; simp⟩ (hlonger hfit' hexc)
  · cases c with
    | nil =>
      rw [List.nil_append, List.cons.injEq] at hrest
      exact ⟨by rw [hfront, List.append_nil], hrest.1.symm⟩
    | cons y c =>
      rw [List.cons_append, List.cons.injEq] at hrest
      exact absurd ⟨c, by rw [hfront, hrest.1]; simp⟩ (hlonger hfit hexc')

end

/-- A NACK whose range ends at the SN of the first NACK that does not fit, and starts before. -/
def CutsRange (n : AmSnSize) (maxPackedSize : Nat) (nacks : List StatusNack) : Prop :=
  ∃ front t, FirstUnfit n maxPackedSize nacks front t ∧
    ∃ x ∈ front, x.nackSn ≠ t.nackSn ∧ x.lastSn n = t.nackSn

/-- The trimmed PDU, and what it still reports. -/
structure Trimmed (n : AmSnSize) (rxNext maxPackedSize : Nat) (s t : StatusPdu) : Prop where
  snSize : t.snSize = n
  synced : t.Synced
  fits : t.packedSize ≤ maxPackedSize
  kept : t.nacks <+: s.nacks
  lowered : serialSub n.mod t.ackSn rxNext ≤ serialSub n.mod s.ackSn rxNext
  below_iff : (∀ x ∈ t.nacks, x.offset n rxNext + x.span ≤ serialSub n.mod t.ackSn rxNext) ↔
    ¬ CutsRange n maxPackedSize s.nacks

section

variable {n : AmSnSize} {rxNext maxPackedSize : Nat} {s : StatusPdu}

/-- In ascending NACKs a range ends at most at the SN of a later NACK. -/
theorem Ascending.reaches {top : Nat} {kept rest : List StatusNack} {x t : StatusNack}
    (h : Ascending n rxNext top (kept ++ rest)) (hx : x ∈ kept) (ht : t ∈ rest) :
    x.offset n rxNext + x.span ≤ t.offset n rxNext + 1 ∧
      (x.offset n rxNext + x.span = t.offset n rxNext + 1 ↔ x.lastSn n = t.nackSn) := by
  have hspan := h.span_pos x (List.mem_append_left _ hx)
  have hsn := h.sn_lt t (List.mem_append_right _ ht)
  have hle := (List.pairwise_append.1 h.ordered).2.2 x hx t ht
  refine ⟨hle, ?_⟩
  have hlt : x.offset n rxNext + (x.span - 1) < n.mod := by
    have := serialSub_lt (a := t.nackSn) (b := rxNext) n.mod_pos
    unfold offset at *
    omega
  have hlast : serialSub n.mod (x.lastSn n) rxNext = x.offset n rxNext + (x.span - 1) :=
    serialSub_of_add n.mod_dvd (Nat.mod_modEq _ _) hlt
  constructor
  · intro heq
    have hsame : serialSub n.mod (x.lastSn n) rxNext = serialSub n.mod t.nackSn rxNext := by
      unfold offset at *
      omega
    exact eq_of_serialSub_eq n.mod_dvd (Nat.mod_lt _ n.mod_pos) hsn hsame
  · intro heq
    rw [heq] at hlast
    unfold offset at *
    omega

/-- If the last NACK has another SN than a later one, all of them have. -/
theorem Ascending.nackSn_ne {top : Nat} {kept rest : List StatusNack} {x t : StatusNack}
    (h : Ascending n rxNext top (kept ++ rest)) (ht : t ∈ rest)
    (hlast : ∀ y ∈ kept.getLast?, y.nackSn ≠ t.nackSn) (hx : x ∈ kept) : x.nackSn ≠ t.nackSn := by
  rcases List.eq_nil_or_concat kept with rfl | ⟨init, y, rfl⟩
  · cases hx
  · rw [List.concat_eq_append] at *
    have hy : y.nackSn ≠ t.nackSn := hlast y (by simp)
    rcases List.mem_append.1 hx with hinit | hx
    · intro heq
      have hxy := (List.pairwise_append.1 (List.pairwise_append.1 h.ordered).1).2.2 x hinit y
        (by simp)
      obtain ⟨hyt, -⟩ := h.reaches (x := y) (by simp) ht
      have hxpos := h.span_pos x (by simp [hinit])
      have hypos := h.span_pos y (by simp)
      have hxt : x.offset n rxNext = t.offset n rxNext := by rw [offset, heq, offset]
      have hsame : y.offset n rxNext = t.offset n rxNext := by omega
      exact hy (eq_of_serialSub_eq n.mod_dvd (h.sn_lt y (by simp))
        (h.sn_lt t (List.mem_append_right _ ht)) hsame)
    · rw [List.mem_singleton.1 hx]
      exact hy

/-- **`trim` on ascending NACKs.** -/
theorem Ascending.trim (hsize : s.snSize = n) (hsync : s.Synced)
    (h : Ascending n rxNext (serialSub n.mod s.ackSn rxNext) s.nacks) (hmax : 3 ≤ maxPackedSize) :
    ∃ t, s.trim maxPackedSize = some t ∧ Trimmed n rxNext maxPackedSize s t := by
  have hpacked : s.packedSize = nacksSize n s.nacks := hsize ▸ hsync
  unfold StatusPdu.trim
  by_cases hfits : s.packedSize ≤ maxPackedSize
  · rw [if_pos hfits]
    refine ⟨s, rfl, hsize, hsync, hfits, List.prefix_refl _, Nat.le_refl _, fun _ => ?_,
      fun _ => h.below⟩
    rintro ⟨front, t, hunfit, -⟩
    have := hunfit.exceeds_all
    omega
  · rw [if_neg hfits, if_neg (Nat.not_lt.2 hmax)]
    obtain ⟨kept, same, t, hunfit, hsame, hkept, hloop⟩ :=
      trimLoop_of_exceeds s.ackSn hmax (hpacked ▸ Nat.lt_of_not_le hfits)
    obtain ⟨back, hsplit⟩ := hunfit.split
    rw [hsize, hpacked, hloop]
    have hsplit' : s.nacks = kept ++ (same ++ t :: back) := by rw [hsplit, List.append_assoc]
    have htrest : t ∈ same ++ t :: back := by simp
    have htmem : t ∈ s.nacks := by simp [hsplit]
    have hasc := hsplit' ▸ h
    refine ⟨_, rfl, rfl, ?_, ?_, ?_, ?_, ?_⟩
    · simp [Synced]
    · exact (nacksSize_le_append kept same).trans hunfit.fits
    · rw [List.reverse_reverse, hsplit']
      exact List.prefix_append _ _
    · have hbelow := h.below t htmem
      show t.offset n rxNext ≤ _
      omega
    · rw [List.reverse_reverse]
      show (∀ x ∈ kept, x.offset n rxNext + x.span ≤ t.offset n rxNext) ↔ _
      constructor
      · rintro hall ⟨front, t', hunfit', x, hx, hne, hend⟩
        obtain ⟨rfl, rfl⟩ := hunfit'.unique hunfit
        rcases List.mem_append.1 hx with hx | hx
        · have := ((hasc.reaches hx htrest).2).2 hend
          have := hall x hx
          omega
        · exact hne (hsame x hx)
      · intro hcuts x hx
        obtain ⟨hle, hiff⟩ := hasc.reaches hx htrest
        by_contra hover
        exact hcuts ⟨_, t, hunfit, x, List.mem_append_left _ hx, hasc.nackSn_ne htrest hkept hx,
          hiff.1 (by omega)⟩

end

end StatusPdu

/-! ## The peer -/

variable {ack : Nat}

namespace TxAm

variable {cfg : Config} {s : TxAm cfg} {rxNext ackSn : Nat}

/-- The peer of a receiver: `rx_next` is not behind `tx_next_ack`, and the SNs below ACK_SN have
been sent. -/
structure Awaits (s : TxAm cfg) (rxNext ackSn : Nat) : Prop where
  sent : s.txModBase rxNext + serialSub cfg.mod ackSn rxNext ≤ s.txModBase s.txNext
  window : s.txModBase s.txNext ≤ cfg.window

theorem Awaits.txModBase_eq (h : s.Awaits rxNext ackSn) {sn a k : Nat}
    (hsn : sn ≡ a + k [MOD cfg.mod])
    (hle : serialSub cfg.mod a rxNext + k ≤ serialSub cfg.mod ackSn rxNext) :
    s.txModBase sn = s.txModBase rxNext + (serialSub cfg.mod a rxNext + k) := by
  have hmod := cfg.mod_eq
  have hwin := cfg.window_gt
  have hsent := h.sent
  have hw := h.window
  refine serialSub_of_add cfg.mod_dvd ?_
    (show s.txModBase rxNext + (serialSub cfg.mod a rxNext + k) < cfg.mod by omega)
  have ha : a ≡ rxNext + serialSub cfg.mod a rxNext [MOD cfg.mod] :=
    exists_serial cfg.mod_dvd (Nat.ModEq.refl rxNext)
  rw [← Nat.add_assoc]
  exact hsn.trans (ha.add_right k)

/-- A NACK for SNs that have been sent is valid if it ends below ACK_SN. -/
theorem Awaits.validNack_iff (h : s.Awaits rxNext ackSn) {x : StatusNack}
    (hack : serialSub cfg.mod ack rxNext ≤ serialSub cfg.mod ackSn rxNext) (hspan : 0 < x.span)
    (hx : x.offset cfg.snFieldLength rxNext + x.span ≤ serialSub cfg.mod ackSn rxNext) :
    s.validNack ack x = .valid ↔
      x.offset cfg.snFieldLength rxNext + x.span ≤ serialSub cfg.mod ack rxNext := by
  have hsent := h.sent
  have hw := h.window
  have hbase : s.txModBase ack = s.txModBase rxNext + serialSub cfg.mod ack rxNext :=
    h.txModBase_eq (k := 0) (Nat.ModEq.refl _) hack
  have hfirst : s.txModBase x.nackSn = s.txModBase rxNext + x.offset cfg.snFieldLength rxNext :=
    h.txModBase_eq (k := 0) (Nat.ModEq.refl _) ((Nat.le_add_right _ _).trans hx)
  have hlast : x.hasNackRange = true →
      s.txModBase (x.nackSn + x.nackRange + (2 ^ 32 - 1)) =
        s.txModBase rxNext + (x.offset cfg.snFieldLength rxNext + (x.span - 1)) := by
    intro hr
    have hrange : x.span = x.nackRange := by rw [span, if_pos hr]
    refine h.txModBase_eq ?_ (show x.offset cfg.snFieldLength rxNext + (x.span - 1) ≤ _ by omega)
    -- adding `2 ^ 32 - 1` is subtracting one
    have heq : x.nackSn + x.nackRange + (2 ^ 32 - 1) = x.nackSn + (x.span - 1) + 2 ^ 32 := by omega
    rw [heq]
    exact (Nat.ModEq.refl _).add ((Nat.modEq_zero_iff_dvd).2 cfg.mod_dvd)
  constructor
  · intro hv
    obtain ⟨hlt, -, hend⟩ := validNack_lt hv
    cases hr : x.hasNackRange with
    | true =>
      have := hend hr
      rw [hlast hr, hbase] at this
      omega
    | false =>
      have hone : x.span = 1 := by simp [span, hr]
      omega
  · intro hle
    cases hr : x.hasNackRange with
    | true =>
      simp only [validNack, insideTxWindow, hr, hlast hr, hbase, hfirst, Bool.true_and,
        decide_eq_true_eq, Bool.not_eq_true', decide_eq_false_iff_not]
      rw [if_neg (by omega), if_neg (by omega), if_neg (by omega), if_neg (by omega),
        if_neg (by omega), if_neg (by omega)]
    | false =>
      simp only [validNack, insideTxWindow, hr, hbase, hfirst, Bool.false_and,
        Bool.not_eq_true', decide_eq_false_iff_not]
      rw [if_neg (by omega), if_neg Bool.false_ne_true, if_neg (by omega),
        if_neg Bool.false_ne_true, if_neg (by omega), if_neg Bool.false_ne_true]

theorem firstVerdict_valid_iff {nacks : List StatusNack} :
    s.firstVerdict ack nacks = .valid ↔ ∀ x ∈ nacks, s.validNack ack x = .valid := by
  refine ⟨firstVerdict_valid, fun h => ?_⟩
  induction nacks with
  | nil => rfl
  | cons x nacks ih =>
    rw [firstVerdict, h x List.mem_cons_self]
    exact ih fun y hy => h y (List.mem_cons_of_mem _ hy)

/-- The peer accepts NACKs that end below ACK_SN. -/
theorem Awaits.firstVerdict_iff (h : s.Awaits rxNext ackSn) {n : AmSnSize}
    (hn : cfg.snFieldLength = n) {nacks : List StatusNack}
    (hack : serialSub n.mod ack rxNext ≤ serialSub n.mod ackSn rxNext)
    (hasc : Ascending n rxNext (serialSub n.mod ackSn rxNext) nacks) :
    s.firstVerdict ack nacks = .valid ↔
      ∀ x ∈ nacks, x.offset n rxNext + x.span ≤ serialSub n.mod ack rxNext := by
  subst hn
  rw [firstVerdict_valid_iff]
  refine forall₂_congr fun x hx => ?_
  exact h.validNack_iff hack (hasc.span_pos x hx) (hasc.below x hx)

end TxAm

/-! ## Reports that are trimmed -/

section

variable {n : AmSnSize} {rxNext top : Nat} {x : StatusNack}

theorem forall_span_iff (hspan : 0 < x.span) (hlt : x.offset n rxNext + x.span ≤ top)
    (htop : top < n.mod) :
    (∀ k < x.span, serialSub n.mod (x.nackSn + k) rxNext < ack) ↔
      x.offset n rxNext + x.span ≤ ack := by
  have hsn : ∀ k < x.span, serialSub n.mod (x.nackSn + k) rxNext = x.offset n rxNext + k :=
    fun k hk => serialSub_of_add n.mod_dvd (Nat.ModEq.refl _)
      (show x.offset n rxNext + k < n.mod by omega)
  constructor
  · intro h
    have hlast := h (x.span - 1) (by omega)
    rw [hsn _ (by omega)] at hlast
    omega
  · intro h k hk
    rw [hsn k hk]
    omega

theorem StatusPdu.Ascending.sublist {nacks nacks' : List StatusNack}
    (h : Ascending n rxNext top nacks) (hsub : nacks'.Sublist nacks) :
    Ascending n rxNext top nacks' :=
  ⟨fun x hx => h.sn_lt x (hsub.subset hx), fun x hx => h.span_pos x (hsub.subset hx),
    fun x hx => h.below x (hsub.subset hx), h.ordered.sublist hsub⟩

end

/-- **Trimming a report of the receiver.** -/
theorem trim_iff {cfg : RxAm.Config} {es : List RxAm.Event} {e : RxAm cfg} {report : StatusPdu}
    (hrun : Run RxAm.Step (RxAm.init cfg) es e) (hbuild : e.Builds report) {maxPackedSize : Nat}
    (hmax : 3 ≤ maxPackedSize) :
    ∃ t, report.trim maxPackedSize = some t ∧ t.packedSize ≤ maxPackedSize ∧
      t.pack.length = t.packedSize ∧ t.nacks <+: report.nacks ∧
      ((∀ x ∈ t.nacks, ∀ k < x.span,
          e.core.rxModBase (x.nackSn + k) < e.core.rxModBase t.ackSn) ↔
        ¬ CutsRange cfg.snFieldLength maxPackedSize report.nacks) ∧
      ∀ (peer : TxAm.Config) (s : TxAm peer), peer.snFieldLength = cfg.snFieldLength →
        s.Awaits e.core.rxNext report.ackSn →
          (s.firstVerdict t.ackSn t.nacks = .valid ↔
            ¬ CutsRange cfg.snFieldLength maxPackedSize report.nacks) := by
  obtain ⟨pushed, hreported, heq⟩ := hbuild.statusReport hrun
  have hasc := hreported.ascending
  rw [← heq] at hasc
  have hsize : report.snSize = cfg.snFieldLength := by rw [heq, snSize_statusReport]
  have hsync : report.Synced := by
    rw [heq]
    exact statusReport_synced _ _ _
  obtain ⟨t, htrim, ht⟩ := hasc.trim hsize hsync hmax
  have hkept := hasc.sublist ht.kept.sublist
  have htop := serialSub_lt (a := report.ackSn) (b := e.core.rxNext) cfg.snFieldLength.mod_pos
  refine ⟨t, htrim, ht.fits, ?_, ht.kept, ?_, ?_⟩
  · rw [length_pack]
    exact ht.synced.symm
  · rw [← ht.below_iff]
    exact forall₂_congr fun x hx => forall_span_iff (hkept.span_pos x hx) (hkept.below x hx) htop
  · intro peer s hpeer hawaits
    rw [← ht.below_iff]
    exact hawaits.firstVerdict_iff hpeer ht.lowered hkept

/-- A report of a state, for evaluation. -/
def RxAm.built {cfg : RxAm.Config} (e : RxAm cfg) : Option StatusPdu :=
  (e.core.buildStatusReport cfg.maxNofSnPerStatusReport (e.statusBuf e.statusBuilder)).toOption

theorem RxAm.builds_of_built {cfg : RxAm.Config} {e : RxAm cfg} {report : StatusPdu}
    (h : e.built = some report) : e.Builds report := by
  unfold RxAm.built at h
  unfold RxAm.Builds
  cases hb : e.core.buildStatusReport cfg.maxNofSnPerStatusReport
      (e.statusBuf e.statusBuilder) with
  | error f =>
    rw [hb] at h
    cases h
  | ok r =>
    rw [hb] at h
    cases h
    rfl

/-- SN 1 and SN 3 arrive, and the reassembly timer expires twice. -/
def twoLosses : List RxAm.Event :=
  [.handlePdu [0x80, 0x01, 0xaa], .handlePdu [0x80, 0x03, 0xaa], .reassemblyTimerExpired,
    .reassemblyTimerExpired]

/-- With room for one NACK, SN 0 is reported and ACK_SN is 2. -/
theorem trim_iff_twoLosses :
    ∃ (e : RxAm sampleConfig) (report t : StatusPdu),
      Run RxAm.Step (RxAm.init sampleConfig) twoLosses e ∧ e.Builds report ∧
      report.trim 5 = some t ∧
      ∀ x ∈ t.nacks, ∀ k < x.span,
        e.core.rxModBase (x.nackSn + k) < e.core.rxModBase t.ackSn := by
  have hexec : (exec RxAm.stepState (RxAm.init sampleConfig) twoLosses).bind RxAm.built =
      some { snSize := .size12bits, ackSn := 4, nacks := [{ nackSn := 0 }, { nackSn := 2 }]
             packedSize := 7 } := by decide +kernel
  obtain ⟨e, he, hbuilt⟩ := Option.bind_eq_some_iff.1 hexec
  have hrun := RxAm.run_of_stepState he
  have hbuild := RxAm.builds_of_built hbuilt
  obtain ⟨t, htrim, -, -, -, hiff, -⟩ := trim_iff hrun hbuild (by decide : 3 ≤ 5)
  refine ⟨e, _, t, hrun, hbuild, htrim, hiff.2 ?_⟩
  rintro ⟨front, u, hunfit, x, hx, -, hend⟩
  have hfirst : FirstUnfit .size12bits 5 [{ nackSn := 0 }, { nackSn := 2 }] [{ nackSn := 0 }]
      { nackSn := 2 } := ⟨⟨[], rfl⟩, by decide, by decide⟩
  obtain ⟨rfl, rfl⟩ := hunfit.unique hfirst
  obtain rfl := List.mem_singleton.1 hx
  exact absurd hend (by decide)

/-- SN 0 is lost, two bytes of SN 1 and all of SN 2 arrive, and the reassembly timer expires. -/
def gapsBehindLoss : List RxAm.Event :=
  [.handlePdu [0xb0, 0x01, 0x00, 0x01, 0x22], .handlePdu [0xb0, 0x01, 0x00, 0x03, 0x44],
    .handlePdu [0x80, 0x02, 0xaa], .reassemblyTimerExpired]

/-- Three SDUs are sent, each in one PDU. -/
def threeSdus : List TxAm.Event :=
  [.handleSdu { buf := [1, 2, 3, 4, 5, 6], pdcpSn := none },
    .handleSdu { buf := [1, 2, 3, 4, 5, 6], pdcpSn := none },
    .handleSdu { buf := [1, 2, 3, 4, 5, 6], pdcpSn := none },
    .pullPdu none 10, .pullPdu none 10, .pullPdu none 10]

/-- The range that starts at SN 0 ends with the first byte of SN 1. The other gaps of SN 1 do not
fit, ACK_SN becomes 1, and the peer that sent the SDUs ignores the report. -/
theorem trim_cuts_range :
    ∃ (e : RxAm sampleConfig) (report t : StatusPdu) (s : TxAm TxAm.sampleConfig),
      Run RxAm.Step (RxAm.init sampleConfig) gapsBehindLoss e ∧ e.Builds report ∧
      report.trim 16 = some t ∧ t.ackSn = 1 ∧
      t.nacks = [{ nackSn := 0, hasSo := true, soStart := 0, soEnd := 0, hasNackRange := true
                   nackRange := 2 }] ∧
      Run TxAm.Step (TxAm.init TxAm.sampleConfig) threeSdus s ∧
      s.firstVerdict t.ackSn t.nacks = .ignore := by
  have hexec : (exec RxAm.stepState (RxAm.init sampleConfig) gapsBehindLoss).bind RxAm.built =
      some { snSize := .size12bits, ackSn := 3, packedSize := 22
             nacks := [{ nackSn := 0, hasSo := true, soStart := 0, soEnd := 0
                         hasNackRange := true, nackRange := 2 },
               { nackSn := 1, hasSo := true, soStart := 2, soEnd := 2 },
               { nackSn := 1, hasSo := true, soStart := 4, soEnd := 65535 }] } := by
    decide +kernel
  obtain ⟨e, he, hbuilt⟩ := Option.bind_eq_some_iff.1 hexec
  have hpeer : (exec (guarded TxAm.stepState fun _ ev => ev.NonEmpty)
      (TxAm.init TxAm.sampleConfig) threeSdus).map (fun s => s.firstVerdict 1
        [{ nackSn := 0, hasSo := true, soStart := 0, soEnd := 0, hasNackRange := true
           nackRange := 2 }]) = some .ignore := by decide +kernel
  obtain ⟨s, hs, hverdict⟩ := Option.map_eq_some_iff.1 hpeer
  exact ⟨e, _, _, s, RxAm.run_of_stepState he, RxAm.builds_of_built hbuilt, rfl, rfl, rfl,
    TxAm.run_of_stepState hs, hverdict⟩

end RadioStack.Rlc
