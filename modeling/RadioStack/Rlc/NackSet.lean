import RadioStack.Rlc.StatusCodec
import RadioStack.Rlc.TxInvariant
import Mathlib.Data.Set.Insert

/-!
# What NACKs report as missing

A NACK reports bytes of SDUs: of one SDU or, with a range, of consecutive ones. Its segment offsets
bound the bytes of the first and of the last SDU. `denotes` is the set of pairs of an SN and a byte,
where an end of `0xffff` leaves the last SDU open.

`push_nack` may merge a NACK into the one before; the merged NACK denotes the union. At the other
end `handle_status_pdu` takes a range apart and calls `handle_nack` for each SN of it.

**Theorem (`nackCompression_denotes`).** The list that `push_nack` builds denotes the union of
what was pushed, and so do the calls of `handle_nack`.
-/

namespace RadioStack.Rlc

namespace StatusNack

/-- The NACK reports the byte of its SDU number `k`. -/
def CoversByte (x : StatusNack) (k byte : Nat) : Prop :=
  x.hasSo = true →
    (k = 0 → x.soStart ≤ byte) ∧ (k + 1 = x.span → x.soEnd = soEndOfSdu ∨ byte ≤ x.soEnd)

variable (n : AmSnSize)

/-- The pairs of an SN and a byte that a NACK reports. -/
def denotes (x : StatusNack) : Set (Nat × Nat) :=
  {p | ∃ k < x.span, p.1 = (x.nackSn + k) % n.mod ∧ x.CoversByte k p.2}

theorem mem_denotes {n : AmSnSize} {x : StatusNack} {p : Nat × Nat} :
    p ∈ x.denotes n ↔ ∃ k < x.span, p.1 = (x.nackSn + k) % n.mod ∧ x.CoversByte k p.2 := Iff.rfl

/-- The pairs that some NACK of a list reports. -/
def denotesAll (nacks : List StatusNack) : Set (Nat × Nat) :=
  {p | ∃ x ∈ nacks, p ∈ x.denotes n}

@[simp] theorem denotesAll_nil : denotesAll n [] = ∅ := by
  ext p
  simp [denotesAll]

theorem denotesAll_append (xs ys : List StatusNack) :
    denotesAll n (xs ++ ys) = denotesAll n xs ∪ denotesAll n ys := by
  ext p
  simp [denotesAll, or_and_right, exists_or]

theorem denotesAll_singleton (x : StatusNack) :
    denotesAll n [x] = x.denotes n := by
  ext p
  simp [denotesAll]

theorem denotesAll_cons (x : StatusNack) (xs : List StatusNack) :
    denotesAll n (x :: xs) = x.denotes n ∪ denotesAll n xs := by
  rw [← List.singleton_append, denotesAll_append, denotesAll_singleton]

end StatusNack

open StatusNack

/-! ## Merging -/

namespace StatusPdu

variable {s : StatusPdu}

section

variable {s : StatusPdu} {prev nack : StatusNack} (hprev : 0 < prev.span) (hnack : 0 < nack.span)
  (hmerge : s.canBeMerged prev nack = true)

include hnack hmerge in
theorem coversByte_mergeNack_left {k byte : Nat} (hk : k < prev.span) :
    (mergeNack prev nack).CoversByte k byte ↔ prev.CoversByte k byte := by
  obtain ⟨-, hend, -, -⟩ := canBeMerged_iff.1 hmerge
  rw [CoversByte, CoversByte, hasSo_mergeNack, span_mergeNack]
  cases hp : prev.hasSo with
  | true =>
    have hnever : ¬ k + 1 = prev.span + nack.span := by omega
    simp [soStart_mergeNack prev nack (.inl hp), hp, hend hp, hnever]
  | false =>
    cases hn : nack.hasSo with
    | true =>
      have hnever : ¬ k + 1 = prev.span + nack.span := by omega
      simp [soStart_mergeNack prev nack (.inr hn), hp, hnever]
    | false => simp

include hprev hmerge in
/-- The last SDUs of a merged NACK are those of the NACK that was merged into it. -/
theorem coversByte_mergeNack_right {k byte : Nat} :
    (mergeNack prev nack).CoversByte (prev.span + k) byte ↔ nack.CoversByte k byte := by
  obtain ⟨-, -, hstart, -⟩ := canBeMerged_iff.1 hmerge
  have hlast : prev.span + k + 1 = prev.span + nack.span ↔ k + 1 = nack.span := by omega
  rw [CoversByte, CoversByte, hasSo_mergeNack, span_mergeNack, hlast]
  cases hn : nack.hasSo with
  | true => simp [soEnd_mergeNack prev nack (.inr hn), hn, hstart hn, hprev.ne']
  | false =>
    cases hp : prev.hasSo with
    | true => simp [soEnd_mergeNack prev nack (.inl hp), hn, hprev.ne']
    | false => simp

include hprev hnack hmerge in
/-- **A merged NACK denotes the union.** -/
theorem denotes_mergeNack :
    (mergeNack prev nack).denotes s.snSize = prev.denotes s.snSize ∪ nack.denotes s.snSize := by
  obtain ⟨hsn, -, -, -⟩ := canBeMerged_iff.1 hmerge
  have hplace : ∀ k, (nack.nackSn + k) % s.snSize.mod =
      (prev.nackSn + (prev.span + k)) % s.snSize.mod := by
    intro k
    rw [hsn, Nat.mod_add_mod, Nat.add_assoc]
  ext ⟨sn, byte⟩
  simp only [mem_denotes, Set.mem_union, nackSn_mergeNack, span_mergeNack]
  constructor
  · rintro ⟨k, hk, hkey, hbyte⟩
    by_cases hleft : k < prev.span
    · exact .inl ⟨k, hleft, hkey, (coversByte_mergeNack_left hnack hmerge hleft).1 hbyte⟩
    · obtain ⟨j, rfl⟩ := Nat.exists_eq_add_of_le (Nat.le_of_not_lt hleft)
      exact .inr ⟨j, by omega, hkey.trans (hplace j).symm,
        (coversByte_mergeNack_right hprev hmerge).1 hbyte⟩
  · rintro (⟨k, hk, hkey, hbyte⟩ | ⟨k, hk, hkey, hbyte⟩)
    · exact ⟨k, by omega, hkey, (coversByte_mergeNack_left hnack hmerge hk).2 hbyte⟩
    · exact ⟨prev.span + k, by omega, hkey.trans (hplace k),
        (coversByte_mergeNack_right hprev hmerge).2 hbyte⟩

end

/-- Every NACK of the list reports some SN. -/
def SpansPos (nacks : List StatusNack) : Prop := ∀ x ∈ nacks, 0 < x.span

theorem SpansPos.pushNack (h : SpansPos s.nacks) {nack : StatusNack} (hnack : 0 < nack.span) :
    SpansPos (s.pushNack nack).nacks := by
  refine forall_pushNack h hnack fun prev hprev _ => ?_
  rw [span_mergeNack]
  omega

theorem denotesAll_pushNack (h : SpansPos s.nacks) {nack : StatusNack} (hnack : 0 < nack.span) :
    denotesAll s.snSize (s.pushNack nack).nacks =
      denotesAll s.snSize s.nacks ∪ nack.denotes s.snSize := by
  rcases pushNack_cases s nack with ⟨front, prev, hlast, hmerge⟩ | hnot
  · have hprev : 0 < prev.span := h prev (by simp [hlast])
    rw [pushNack_of_merge hlast hmerge, hlast, denotesAll_append, denotesAll_append,
      denotesAll_singleton, denotesAll_singleton, denotes_mergeNack hprev hnack hmerge,
      Set.union_assoc]
  · rw [pushNack_of_not_merge hnot, denotesAll_append, denotesAll_singleton]

/-- **The list denotes what was pushed.** -/
theorem denotesAll_foldl {nacks : List StatusNack} (h : SpansPos s.nacks)
    (hnacks : SpansPos nacks) :
    denotesAll s.snSize (nacks.foldl StatusPdu.pushNack s).nacks =
      denotesAll s.snSize s.nacks ∪ denotesAll s.snSize nacks := by
  induction nacks generalizing s with
  | nil => simp
  | cons nack nacks ih =>
    have hnack := hnacks nack List.mem_cons_self
    have hnext := ih (h.pushNack hnack) fun x hx => hnacks x (List.mem_cons_of_mem _ hx)
    rw [snSize_pushNack] at hnext
    rw [List.foldl_cons, hnext, denotesAll_pushNack h hnack, denotesAll_cons, Set.union_assoc]

end StatusPdu

/-! ## The calls of `handle_nack` -/

namespace TxAm

variable {cfg : Config}

/-- The NACKs that the loop over a range passes on. -/
def rangeCalls (cfg : Config) (ackSn : Nat) (nack : StatusNack) : Nat → Nat → List StatusNack
  | 0, _ => []
  | fuel + 1, rangeSn =>
    if rangeSn = (nack.nackSn + nack.nackRange) % cfg.mod then []
    else if rangeSn = ackSn then []
    else rangeItem cfg nack rangeSn :: rangeCalls cfg ackSn nack fuel ((rangeSn + 1) % cfg.mod)

/-- The NACKs that `handle_status_pdu` passes on for a list. -/
def nackCalls (cfg : Config) (ackSn : Nat) (nacks : List StatusNack) : List StatusNack :=
  nacks.flatMap fun nack =>
    if nack.hasNackRange then rangeCalls cfg ackSn nack cfg.mod nack.nackSn else [nack]

/-- The calls for a list of NACKs, one after the other. -/
def callNacks : List StatusNack → TxAm cfg × Nat → Except Fault (TxAm cfg × Nat)
  | [], r => .ok r
  | nack :: nacks, r => do
    let r ← r.1.processNack r.2 nack
    callNacks nacks r

theorem callNacks_append (xs ys : List StatusNack) (r : TxAm cfg × Nat) :
    callNacks (xs ++ ys) r = callNacks xs r >>= callNacks ys := by
  induction xs generalizing r with
  | nil => rfl
  | cons nack xs ih =>
    rw [List.cons_append, callNacks, callNacks]
    cases r.1.processNack r.2 nack with
    | error e => rfl
    | ok r => exact ih r

theorem rangeLoop_eq (ackSn : Nat) (nack : StatusNack) (fuel rangeSn : Nat) (r : TxAm cfg × Nat) :
    rangeLoop ackSn nack fuel rangeSn r = callNacks (rangeCalls cfg ackSn nack fuel rangeSn) r := by
  induction fuel generalizing rangeSn r with
  | zero => rfl
  | succ fuel ih =>
    rw [rangeLoop, rangeCalls]
    split
    · rfl
    · split
      · rfl
      · rw [callNacks]
        cases r.1.processNack r.2 (rangeItem cfg nack rangeSn) with
        | error e => rfl
        | ok r => exact ih _ r

/-- The loops of `handle_status_pdu` make these calls and no others. -/
theorem processNacks_eq (ackSn : Nat) (nacks : List StatusNack) (r : TxAm cfg × Nat) :
    processNacks ackSn nacks r = callNacks (nackCalls cfg ackSn nacks) r := by
  induction nacks generalizing r with
  | nil => rfl
  | cons nack nacks ih =>
    rw [nackCalls, List.flatMap_cons, callNacks_append, processNacks]
    split
    · rw [rangeLoop_eq]
      exact bind_congr fun r => ih r
    · rw [callNacks]
      cases r.1.processNack r.2 nack with
      | error e => rfl
      | ok r => exact ih r

variable {ackSn : Nat}

section

variable {nack : StatusNack} (hrange : nack.hasNackRange = true) (hsn : nack.nackSn < cfg.mod)
  (hlt : nack.nackRange ≤ 255)

variable (cfg) in
include hlt in
theorem nackRange_lt_mod : nack.nackRange < cfg.mod := by
  have hwindow := cfg.window_gt
  have hmod := cfg.mod_eq
  omega

include hlt in
/-- Without ACK_SN in the way the loop visits the SNs of the range. -/
theorem rangeCalls_eq (hack : ∀ j < nack.nackRange, (nack.nackSn + j) % cfg.mod ≠ ackSn)
    {fuel k : Nat} (hk : k ≤ nack.nackRange) (hfuel : nack.nackRange - k ≤ fuel) :
    rangeCalls cfg ackSn nack fuel ((nack.nackSn + k) % cfg.mod) =
      (List.range' k (nack.nackRange - k)).map fun j =>
        rangeItem cfg nack ((nack.nackSn + j) % cfg.mod) := by
  have hmod := nackRange_lt_mod cfg hlt
  induction fuel generalizing k with
  | zero =>
    rw [show nack.nackRange - k = 0 by omega]
    rfl
  | succ fuel ih =>
    rw [rangeCalls]
    by_cases hend : k = nack.nackRange
    · rw [hend, if_pos rfl, Nat.sub_self]
      rfl
    · have hne : (nack.nackSn + k) % cfg.mod ≠ (nack.nackSn + nack.nackRange) % cfg.mod :=
        mod_ne_mod_of_lt (by omega) (by omega)
      have hcount : nack.nackRange - k = nack.nackRange - (k + 1) + 1 := by omega
      rw [if_neg hne, if_neg (hack k (by omega)), Nat.mod_add_mod, Nat.add_assoc,
        ih (by omega) (by omega), hcount, List.range'_succ, List.map_cons]

include hrange hsn hlt in
/-- A call for one SN of the range denotes its bytes. -/
theorem denotes_rangeItem {j : Nat} (hj : j < nack.nackRange) :
    (rangeItem cfg nack ((nack.nackSn + j) % cfg.mod)).denotes cfg.snFieldLength =
      {p | p.1 = (nack.nackSn + j) % cfg.mod ∧ nack.CoversByte j p.2} := by
  have hmod := nackRange_lt_mod cfg hlt
  have hspan : nack.span = nack.nackRange := if_pos hrange
  have hfirst : (nack.nackSn + j) % cfg.mod = nack.nackSn ↔ j = 0 := by
    refine ⟨fun h => ?_, fun h => by rw [h, Nat.add_zero, Nat.mod_eq_of_lt hsn]⟩
    by_contra hne
    exact mod_ne_mod_of_lt (by omega : nack.nackSn < nack.nackSn + j) (by omega)
      ((Nat.mod_eq_of_lt hsn).trans h.symm)
  have hlast : (nack.nackSn + j) % cfg.mod = (nack.nackSn + nack.nackRange - 1) % cfg.mod ↔
      j + 1 = nack.span := by
    refine ⟨fun h => ?_, fun h => by rw [hspan] at h; congr 1; omega⟩
    by_contra hne
    exact mod_ne_mod_of_lt (by omega : nack.nackSn + j < nack.nackSn + nack.nackRange - 1)
      (by omega) h
  ext ⟨sn, byte⟩
  have hone : (rangeItem cfg nack ((nack.nackSn + j) % cfg.mod)).span = 1 := rfl
  have hkey : (nack.nackSn + j) % cfg.mod % cfg.snFieldLength.mod = (nack.nackSn + j) % cfg.mod :=
    Nat.mod_mod _ _
  have hcovers : (rangeItem cfg nack ((nack.nackSn + j) % cfg.mod)).CoversByte 0 byte ↔
      nack.CoversByte j byte := by
    rw [CoversByte, CoversByte, hone]
    cases hso : nack.hasSo with
    | false => simp [rangeItem, hso]
    | true =>
      -- offsets that span the whole SDU are left out, which changes nothing
      have hguard : ∀ a e : Nat, ((a != 0 || e != soEndOfSdu) = true →
          a ≤ byte ∧ (e = soEndOfSdu ∨ byte ≤ e)) ↔ a ≤ byte ∧ (e = soEndOfSdu ∨ byte ≤ e) := by
        intro a e
        refine ⟨fun h => ?_, fun h _ => h⟩
        by_cases hstart : a = 0
        · by_cases hend : e = soEndOfSdu
          · exact ⟨by omega, .inl hend⟩
          · exact h (by simp [hend])
        · exact h (by simp [hstart])
      have hbounds := hguard (if j = 0 then nack.soStart else 0)
        (if j + 1 = nack.span then nack.soEnd else soEndOfSdu)
      simp only [rangeItem, hso, hfirst, hlast, true_and, Bool.true_and, forall_const, hbounds]
      refine and_congr ?_ ?_
      · split <;> rename_i hj0 <;> simp [hj0]
      · split <;> rename_i hjl <;> simp [hjl]
  constructor
  · rintro ⟨k, hk, hsn', hbyte⟩
    obtain rfl : k = 0 := by omega
    exact ⟨hsn'.trans hkey, hcovers.1 hbyte⟩
  · rintro ⟨hsn', hbyte⟩
    exact ⟨0, Nat.one_pos, hsn'.trans hkey.symm, hcovers.2 hbyte⟩

include hrange hsn hlt in
/-- **The calls for a range denote the range.** -/
theorem denotesAll_rangeCalls (hack : ∀ j < nack.nackRange, (nack.nackSn + j) % cfg.mod ≠ ackSn) :
    denotesAll cfg.snFieldLength (rangeCalls cfg ackSn nack cfg.mod nack.nackSn) =
      nack.denotes cfg.snFieldLength := by
  have hspan : nack.span = nack.nackRange := if_pos hrange
  have hcalls := rangeCalls_eq hlt hack (k := 0) (Nat.zero_le _)
    (Nat.le_of_lt (nackRange_lt_mod cfg hlt))
  rw [Nat.add_zero, Nat.mod_eq_of_lt hsn, Nat.sub_zero] at hcalls
  rw [hcalls]
  ext ⟨sn, byte⟩
  constructor
  · rintro ⟨x, hx, hp⟩
    obtain ⟨j, hj, rfl⟩ := List.mem_map.1 hx
    have hj' : j < nack.nackRange := by simpa using hj
    rw [denotes_rangeItem hrange hsn hlt hj'] at hp
    exact ⟨j, by omega, hp⟩
  · rintro ⟨j, hj, hp⟩
    have hj' : j < nack.nackRange := by omega
    refine ⟨_, List.mem_map.2 ⟨j, by simpa using hj', rfl⟩, ?_⟩
    rw [denotes_rangeItem hrange hsn hlt hj']
    exact hp

include hrange hlt in
/-- A NACK that passes `valid_nack` does not reach ACK_SN. -/
theorem ne_ackSn_of_valid {s : TxAm cfg} (h : s.validNack ackSn nack = .valid) :
    ∀ j < nack.nackRange, (nack.nackSn + j) % cfg.mod ≠ ackSn := by
  obtain ⟨-, hwin, hlast⟩ := validNack_lt h
  have hwindow := cfg.window_gt
  have hmod := cfg.mod_eq
  have hsn : nack.nackSn ≡ s.txNextAck + s.txModBase nack.nackSn [MOD cfg.mod] :=
    exists_serial cfg.mod_dvd (Nat.ModEq.refl _)
  generalize s.txModBase nack.nackSn = b at *
  -- neither the SN nor the end of the range has wrapped
  have hbase : ∀ {x k : Nat}, x ≡ nack.nackSn + k [MOD cfg.mod] → k ≤ 255 →
      s.txModBase x = b + k := by
    intro x k hx hk
    have heq : s.txModBase x = s.txNextAck + b + k - s.txNextAck :=
      serialSub_eq cfg.mod_dvd (hx.trans (hsn.add_right k)) (Nat.ModEq.refl _) (by omega) (by omega)
    omega
  intro j hj heq
  have hack := hbase (x := ackSn) (k := j) (heq ▸ Nat.mod_modEq _ _) (by omega)
  have hbelow := hlast hrange
  rw [hbase (lastSn_modEq cfg (by omega)) (by omega), hack] at hbelow
  omega

end

/-- The calls denote what the list denotes, once it has passed the checks. -/
theorem denotesAll_nackCalls {s : TxAm cfg} {nacks : List StatusNack}
    (hwf : ∀ x ∈ nacks, StatusPdu.WellFormedNack cfg.snFieldLength x)
    (h : s.firstVerdict ackSn nacks = .valid) :
    denotesAll cfg.snFieldLength (nackCalls cfg ackSn nacks) =
      denotesAll cfg.snFieldLength nacks := by
  induction nacks with
  | nil => rfl
  | cons nack nacks ih =>
    have hvalid := firstVerdict_valid h
    have hwfn := hwf nack List.mem_cons_self
    have hrest : s.firstVerdict ackSn nacks = .valid := by
      rw [firstVerdict, hvalid nack List.mem_cons_self] at h
      exact h
    have hnext := ih (fun x hx => hwf x (List.mem_cons_of_mem _ hx)) hrest
    rw [nackCalls] at hnext
    rw [nackCalls, List.flatMap_cons, denotesAll_append, hnext, denotesAll_cons]
    congr 1
    split
    · next hrange =>
      have hlt : nack.nackRange ≤ 255 := Nat.le_of_lt_succ hwfn.range_lt
      exact denotesAll_rangeCalls hrange hwfn.sn_lt hlt
        (ne_ackSn_of_valid hrange hlt (hvalid nack List.mem_cons_self))
    · exact denotesAll_singleton _ _

/-- **Compressing NACKs keeps their meaning.** -/
theorem nackCompression_denotes {elements : List StatusNack}
    (helems : ∀ x ∈ elements,
      StatusPdu.WellFormedNack cfg.snFieldLength x ∧ x.hasNackRange = false) :
    let pdu := elements.foldl StatusPdu.pushNack { snSize := cfg.snFieldLength }
    denotesAll cfg.snFieldLength pdu.nacks = denotesAll cfg.snFieldLength elements ∧
      ∀ (s : TxAm cfg) (ackSn : Nat), s.firstVerdict ackSn pdu.nacks = .valid →
        (∀ r : TxAm cfg × Nat,
          processNacks ackSn pdu.nacks r = callNacks (nackCalls cfg ackSn pdu.nacks) r) ∧
          denotesAll cfg.snFieldLength (nackCalls cfg ackSn pdu.nacks) =
            denotesAll cfg.snFieldLength elements := by
  have hspans : StatusPdu.SpansPos elements := fun x hx => by
    rw [span, if_neg (by simp [(helems x hx).2])]
    exact Nat.one_pos
  have hlist := StatusPdu.denotesAll_foldl (s := { snSize := cfg.snFieldLength })
    (List.forall_mem_nil _) hspans
  rw [denotesAll_nil, Set.empty_union] at hlist
  have hwf := StatusPdu.wellFormed_foldl (s := { snSize := cfg.snFieldLength }) (by simp)
    fun x hx => (helems x hx).1
  exact ⟨hlist, fun s ackSn hvalid => ⟨processNacks_eq ackSn _,
    (denotesAll_nackCalls hwf hvalid).trans hlist⟩⟩

/-- A missing SDU and the first bytes of the next one, where the SN wraps: the peer takes the
merged NACK apart again. -/
theorem nackCompression_denotes_wrap :
    let elements : List StatusNack :=
      [{ nackSn := 4095 }, { nackSn := 0, hasSo := true, soStart := 0, soEnd := 99 }]
    let pdu := elements.foldl StatusPdu.pushNack { snSize := .size12bits }
    pdu.nacks = [{ nackSn := 4095, hasSo := true, soStart := 0, soEnd := 99
                   hasNackRange := true, nackRange := 2 }] ∧
      denotesAll .size12bits pdu.nacks = denotesAll .size12bits elements ∧
      denotesAll .size12bits (nackCalls sampleConfig 1 pdu.nacks) =
        denotesAll .size12bits elements := by
  have hwf : ∀ x ∈ [({ nackSn := 4095 } : StatusNack),
      { nackSn := 0, hasSo := true, soStart := 0, soEnd := 99 }],
      StatusPdu.WellFormedNack sampleConfig.snFieldLength x ∧ x.hasNackRange = false := by
    intro x hx
    rcases List.mem_cons.1 hx with rfl | hx
    · exact ⟨⟨by decide, by decide, by decide, by decide, fun _ => ⟨rfl, rfl⟩, fun _ => rfl⟩, rfl⟩
    · obtain rfl := List.mem_singleton.1 hx
      exact ⟨⟨by decide, by decide, by decide, by decide, nofun, fun _ => rfl⟩, rfl⟩
  obtain ⟨hlist, hcalls⟩ := @nackCompression_denotes sampleConfig _ hwf
  have hvalid := hcalls { init sampleConfig with txNextAck := 4090, txNext := 10 } 1 (by decide)
  exact ⟨by decide, hlist, hvalid.2⟩

end TxAm

end RadioStack.Rlc
