import RadioStack.Phy.LdpcSegmenter
import Mathlib.Algebra.BigOperators.Ring.List

/-!
# Segmentation is lossless, and both ends agree

The transport block with its checksum and the zero padding is cut into parts of one length
(`Dims.info`). Each segment holds one part, its checksum if there are several segments, and filler
zeros up to the code block length (`fillSegment_spec`). The rate-matched lengths are those of a fair
division of the channel symbols, so they add up to the codeword (`sum_rmLengths`), and the receiver
cuts the codeword at the same places.

**Theorem (`segmentation_lossless`).** For every transport block of at most `maxTbs` bits with its
checksum, at most `maxNofSegments` segments, and a codeword whose length an `unsigned` counts, the
transmit segmentation succeeds, loses nothing, and the receive segmentation of every codeword agrees
with it.
-/

namespace RadioStack.Phy

open BitString

/-! ## Sequences cut into parts -/

section Parts

variable {α : Type*}

/-- Where part `n` starts. -/
def offsets (size : Nat → Nat) (n : Nat) : Nat := ((List.range n).map size).sum

theorem offsets_succ (size : Nat → Nat) (n : Nat) :
    offsets size (n + 1) = offsets size n + size n :=
  List.sum_range_succ size n

theorem offsets_mono (size : Nat → Nat) {m n : Nat} (h : m ≤ n) :
    offsets size m ≤ offsets size n := by
  induction h with
  | refl => exact Nat.le_refl _
  | step _ ih => exact Nat.le_trans ih (by rw [offsets_succ]; exact Nat.le_add_right _ _)

theorem offsets_const (k n : Nat) : offsets (fun _ => k) n = n * k := by
  simp [offsets]

def part (l : List α) (size : Nat → Nat) (i : Nat) : List α :=
  (l.drop (offsets size i)).take (size i)

theorem flatten_parts (l : List α) (size : Nat → Nat) (n : Nat) :
    ((List.range n).map (part l size)).flatten = l.take (offsets size n) := by
  induction n with
  | zero => rfl
  | succ n ih =>
    rw [List.range_succ, List.map_append, List.flatten_append, ih, List.map_singleton,
      List.flatten_singleton, offsets_succ, List.take_add]
    rfl

theorem length_part {l : List α} {size : Nat → Nat} {i n : Nat} (hi : i < n)
    (hn : offsets size n ≤ l.length) : (part l size i).length = size i := by
  have hle := offsets_mono size (Nat.succ_le_of_lt hi)
  rw [Nat.succ_eq_add_one, offsets_succ] at hle
  rw [part, List.length_take, List.length_drop]
  omega

variable {β : Type*} {f : α → β} {g : Nat → β} {l : List α} {n : Nat}

theorem length_of_map_eq (h : l.map f = (List.range n).map g) : l.length = n := by
  have := congrArg List.length h
  rwa [List.length_map, List.length_map, List.length_range] at this

theorem getElem_of_map_eq (h : l.map f = (List.range n).map g) {i : Nat} (hi : i < l.length) :
    f l[i] = g i := by
  have hn : i < n := length_of_map_eq h ▸ hi
  have hget := congrArg (·[i]?) h
  simpa [hi, hn] using hget

/-- A loop whose rounds succeed one after the other. -/
theorem range_foldlM {ε σ : Type} {f : σ → Nat → Except ε σ} {P : Nat → σ → Prop} {s : σ}
    (hs : P 0 s) (hround : ∀ i s, i < n → P i s → ∃ s', f s i = .ok s' ∧ P (i + 1) s') :
    ∃ s', (List.range n).foldlM f s = .ok s' ∧ P n s' := by
  induction n with
  | zero => exact ⟨s, rfl, hs⟩
  | succ n ih =>
    obtain ⟨s₁, hok, h₁⟩ := ih fun i s hi => hround i s (Nat.lt_succ_of_lt hi)
    obtain ⟨s₂, hok', h₂⟩ := hround n s₁ (Nat.lt_succ_self n) h₁
    refine ⟨s₂, ?_, h₂⟩
    rw [List.range_succ, List.foldlM_append, bind_of_ok hok, List.foldlM_cons, bind_of_ok hok']
    rfl

end Parts

/-! ## Dimensions -/

/-- What the attributes of a configured segmenter satisfy. -/
structure Dims (tbs : Nat) (cfg : SegmenterConfig) (s : Segmenter) : Prop where
  baseGraph : s.baseGraph = cfg.baseGraph
  nofSegments : s.nofSegments = computeNofCodeblocks tbs cfg.baseGraph
  pos : 0 < s.nofSegments
  lifting : SmallestSufficient tbs cfg.baseGraph s.liftingSize
  segmentLength : s.segmentLength = computeCodeblockSize cfg.baseGraph s.liftingSize
  length_pos : 0 < s.segmentLength
  length_le : s.segmentLength ≤ maxSegLength
  bitsIn : s.nofTbBitsIn = tbBitsIn tbs
  symbols : s.nofSymbolsPerLayer = cfg.nofChSymbols / cfg.nofLayers
  short : s.nofShortSegments = s.nofSegments - s.nofSymbolsPerLayer % s.nofSegments
  /-- The parts hold the transport block and the padding. -/
  info : s.nofSegments * s.cbInfoBits = tbBitsIn tbs + s.zeroPad
  pad_lt : s.zeroPad < s.nofSegments
  fits : s.cbInfoBits + s.nofCrcBits ≤ s.segmentLength

section Configure

variable {tbs : Nat} {cfg : SegmenterConfig} {s : Segmenter}

/-- The arithmetic of the parts: with checksums of `k` bits each, a ceiling gives parts that are too
long by less than one bit each. -/
theorem parts_arith {total count k : Nat} (hcount : 0 < count) :
    count * (divideCeil (total + count * k) count - k) =
        total + ((divideCeil (total + count * k) count - k + k) * count - (total + count * k)) ∧
      (divideCeil (total + count * k) count - k + k) * count - (total + count * k) < count := by
  have hceil : divideCeil (total + count * k) count = divideCeil total count + k :=
    divideCeil_add_mul total k hcount
  have hle := le_divideCeil_mul total hcount
  have hlt := divideCeil_mul_lt total hcount
  have hmul : (divideCeil total count + k) * count =
      divideCeil total count * count + count * k := by
    rw [Nat.add_mul, Nat.mul_comm k]
  rw [hceil, Nat.add_sub_cancel, hmul, Nat.mul_comm count (divideCeil total count)]
  omega

theorem nofTbBitsOut_configured (tbs : Nat) (cfg : SegmenterConfig) (ls : Nat) :
    (configured tbs cfg ls).nofTbBitsOut = tbBitsIn tbs +
      (configured tbs cfg ls).nofSegments * (configured tbs cfg ls).nofCrcBits := by
  by_cases hone : 1 < computeNofCodeblocks tbs cfg.baseGraph
  · have hcrc : (configured tbs cfg ls).nofCrcBits = segCrcLength := if_pos hone
    rw [hcrc]
    exact if_pos hone
  · have hcrc : (configured tbs cfg ls).nofCrcBits = 0 := if_neg hone
    rw [hcrc, Nat.mul_zero, Nat.add_zero]
    exact if_neg hone

theorem configure_spec (tbs : Nat) (cfg : SegmenterConfig) :
    ∃ s, configure tbs cfg = .ok s ∧ Dims tbs cfg s := by
  obtain ⟨ls, hls, hsmall⟩ := computeLiftingSize_spec tbs cfg.baseGraph
  have hpos := computeNofCodeblocks_pos tbs cfg.baseGraph
  have hbounds := @codeblockSize_bounds cfg.baseGraph _ hsmall.1
  have hceil := divideCeil_le_codeblockSize hsmall.2.1
  have hout := nofTbBitsOut_configured tbs cfg ls
  rw [configure, hls]
  refine ⟨_, rfl, rfl, rfl, hpos, hsmall, rfl, hbounds.1, hbounds.2, rfl, rfl, rfl, ?_, ?_, ?_⟩
  · rw [Segmenter.zeroPad, Segmenter.cbInfoBits, hout]
    exact (parts_arith hpos).1
  · rw [Segmenter.zeroPad, Segmenter.cbInfoBits, hout]
    exact (parts_arith hpos).2
  · rw [Segmenter.cbInfoBits, Nat.sub_add_cancel]
    · exact hceil
    · have hcount : 0 < (configured tbs cfg ls).nofSegments := hpos
      rw [hout, divideCeil_add_mul _ _ hcount]
      exact Nat.le_add_left _ _

/-- The last segment has room for the checksum of the transport block and the padding. -/
theorem Dims.last (h : Dims tbs cfg s) (hmax : s.nofSegments ≤ maxNofSegments) :
    computeTbCrcSize tbs + s.zeroPad ≤ s.cbInfoBits := by
  have hinfo := h.info
  have hpad := h.pad_lt
  have hcrc := computeTbCrcSize_mem tbs
  by_cases hone : 1 < s.nofSegments
  · have hbig := nofCodeblocks_mul_lt tbs cfg.baseGraph (h.nofSegments ▸ hone)
    rw [← h.nofSegments] at hbig
    have hlong : 1908 < s.cbInfoBits := by
      refine Nat.lt_of_mul_lt_mul_left (a := s.nofSegments) ?_
      omega
    simp only [maxNofSegments, maxSegLength] at hmax
    omega
  · have hC : s.nofSegments = 1 := by
      omega
    rw [hC] at hinfo hpad
    rw [tbBitsIn] at hinfo
    omega

end Configure

/-! ## Writing bits -/

variable {n : Nat}

section Writer

variable {size : Nat} {w : BitWriter} {bits : List Bool}

/-- The writer has written `bits` into a buffer of `size` bits. -/
structure Holds (size : Nat) (w : BitWriter) (bits : List Bool) : Prop where
  used : w.used = bits.length
  bits : firstBits w.words bits.length = bits
  room : size ≤ 8 * w.words.length

theorem Holds.push (h : Holds size w bits) (value : BitVec 8) {count : Nat} (hcount : count ≤ 8)
    (hpos : 0 < count) (hvalue : value.toNat < 2 ^ count) (hsize : bits.length + count ≤ size) :
    ∃ w', w.push size value count = .ok w' ∧ Holds size w' (bits ++ natBits count value.toNat) := by
  have hroom := h.room
  obtain ⟨out, hok, hlen, hbits⟩ := @firstBits_insert w.words value w.used count hcount
    hpos hvalue (by rw [h.used]; omega)
  refine ⟨⟨out, w.used + count⟩, ?_, ?_, ?_, by rw [hlen]; exact hroom⟩
  · rw [BitWriter.push, if_pos (by rw [h.used]; exact hsize), hok]
  · rw [h.used, List.length_append, length_natBits]
  · rw [List.length_append, length_natBits, ← h.used, hbits, h.used, h.bits]

theorem Holds.pushBytes (h : Holds size w bits) (checksum : Nat) {n k : Nat} (hk : 8 * k ≤ n)
    (hsize : bits.length + 8 * k ≤ size) :
    ∃ w', (List.range k).foldlM
        (fun w i => w.push size (BitVec.ofNat 8 (checksum >>> (n - (i + 1) * 8))) 8) w = .ok w' ∧
      Holds size w' (bits ++ natBits (8 * k) (checksum / 2 ^ (n - 8 * k))) := by
  refine range_foldlM (P := fun k w => Holds size w (bits ++ natBits (8 * k)
    (checksum / 2 ^ (n - 8 * k)))) (by simpa [natBits] using h) fun i w hi hw => ?_
  have hlen : (bits ++ natBits (8 * i) (checksum / 2 ^ (n - 8 * i))).length + 8 ≤ size := by
    rw [List.length_append, length_natBits]
    omega
  obtain ⟨w', hok', h'⟩ := hw.push (BitVec.ofNat 8 (checksum >>> (n - (i + 1) * 8)))
    (Nat.le_refl 8) (by decide) (BitVec.isLt _) hlen
  refine ⟨w', hok', ?_⟩
  have hexp : n - 8 * i = n - 8 * (i + 1) + 8 := by omega
  have hbyte : natBits 8 (BitVec.ofNat 8 (checksum >>> (n - (i + 1) * 8))).toNat =
      natBits 8 (checksum / 2 ^ (n - 8 * (i + 1))) := by
    refine natBits_congr ?_
    rw [BitVec.toNat_ofNat, Nat.mod_mod, Nat.shiftRight_eq_div_pow, Nat.mul_comm (i + 1)]
  rwa [hbyte, List.append_assoc, hexp, Nat.pow_add, ← Nat.div_div_eq_div_mul, ← natBits_add] at h'

theorem Holds.pushChecksum (h : Holds size w bits) (checksum : Nat) (hn : n % 8 = 0)
    (hsize : bits.length + n ≤ size) :
    ∃ w', w.pushChecksum size n checksum = .ok w' ∧
      Holds size w' (bits ++ natBits n checksum) := by
  have hdiv : 8 * (n / 8) = n := by omega
  obtain ⟨w', hok, h'⟩ := h.pushBytes checksum (Nat.le_of_eq hdiv) (by omega)
  refine ⟨w', hok, ?_⟩
  rwa [hdiv, Nat.sub_self, Nat.pow_zero, Nat.div_one] at h'

theorem Holds.pushZeros (h : Holds size w bits) (fuel : Nat) {stop : Nat}
    (hstop : bits.length ≤ stop) (hsize : stop ≤ size) (hfuel : stop - bits.length ≤ fuel) :
    ∃ w', w.pushZeros size fuel stop = .ok w' ∧
      Holds size w' (bits ++ List.replicate (stop - bits.length) false) := by
  induction fuel generalizing w bits with
  | zero =>
    have hnone : stop - bits.length = 0 := Nat.le_zero.1 hfuel
    refine ⟨w, ?_, by rwa [hnone, List.replicate_zero, List.append_nil]⟩
    rw [BitWriter.pushZeros, if_pos (by rw [h.used]; omega)]
  | succ fuel ih =>
    rw [BitWriter.pushZeros]
    by_cases hdone : w.used = stop
    · have hnone : stop - bits.length = 0 := by rw [← hdone, h.used, Nat.sub_self]
      exact ⟨w, if_pos hdone, by rwa [hnone, List.replicate_zero, List.append_nil]⟩
    · rw [if_neg hdone]
      have hused := h.used
      obtain ⟨w₁, hok₁, h₁⟩ := h.push 0 (Nat.min_le_left 8 (stop - w.used)) (by omega)
        (Nat.two_pow_pos _) (by omega)
      have hzeros : natBits (min 8 (stop - w.used)) (0 : BitVec 8).toNat =
          List.replicate (min 8 (stop - w.used)) false := natBits_zero _
      rw [hzeros] at h₁
      obtain ⟨w', hok', h'⟩ := ih h₁ (by simp; omega) (by simp; omega)
      refine ⟨w', by rw [bind_of_ok hok₁, hok'], ?_⟩
      rw [List.append_assoc, List.replicate_append_replicate, List.length_append,
        List.length_replicate] at h'
      have hcount : min 8 (stop - w.used) + (stop - (bits.length + min 8 (stop - w.used))) =
          stop - bits.length := by omega
      rwa [hcount] at h'

end Writer

/-! ## Filling a segment -/

variable {i : Nat}

section Fill

variable (crc : SchCrc) {tb : List (BitVec 8)} {cfg : SegmenterConfig} {s : Segmenter}

def tbBits (tb : List (BitVec 8)) : List Bool := firstBits tb (8 * tb.length)

def tbCrcBits (tb : List (BitVec 8)) : List Bool :=
  natBits (computeTbCrcSize (8 * tb.length)) (crc.tbChecksum tb)

/-- What the segments carry: the transport block, its checksum and the padding. -/
def payload (tb : List (BitVec 8)) (pad : Nat) : List Bool :=
  tbBits tb ++ (tbCrcBits crc tb ++ List.replicate pad false)

/-- The checksum of a segment with the given information bits. -/
def segmentCrc (nofSegments : Nat) (info : List Bool) : List Bool :=
  if 1 < nofSegments then natBits segCrcLength (crc.crc24B info) else []

def infoBits (s : Segmenter) (tb : List (BitVec 8)) (i : Nat) : List Bool :=
  part (payload crc tb s.zeroPad) (fun _ => s.cbInfoBits) i

theorem length_payload (tb : List (BitVec 8)) (pad : Nat) :
    (payload crc tb pad).length = tbBitsIn (8 * tb.length) + pad := by
  rw [payload, tbBits, tbCrcBits, List.length_append, List.length_append, length_firstBits,
    length_natBits, List.length_replicate, tbBitsIn, Nat.add_assoc]

variable (h : Dims (8 * tb.length) cfg s) (hmax : s.nofSegments ≤ maxNofSegments)
include h

theorem length_infoBits (hi : i < s.nofSegments) :
    (infoBits crc s tb i).length = s.cbInfoBits :=
  length_part (n := s.nofSegments) hi (by
    rw [offsets_const, length_payload, h.info])

include hmax

/-- All segments before the last one end within the transport block. -/
theorem mul_cbInfoBits_le (hi : i < s.nofSegments) :
    i * s.cbInfoBits ≤ 8 * tb.length ∧
      (i + 1 = s.nofSegments →
        i * s.cbInfoBits + nofUsedBits s (computeTbCrcSize (8 * tb.length)) true =
          8 * tb.length) := by
  have hinfo := h.info
  have hlast := h.last hmax
  rw [tbBitsIn] at hinfo
  have hle : (i + 1) * s.cbInfoBits ≤ s.nofSegments * s.cbInfoBits :=
    Nat.mul_le_mul_right _ hi
  rw [Nat.succ_mul] at hle
  refine ⟨by omega, fun heq => ?_⟩
  rw [← heq, Nat.succ_mul] at hinfo
  simp only [nofUsedBits, if_true]
  omega

/-- The part of a segment: bits of the transport block, and in the last one its checksum and the
padding. -/
theorem infoBits_eq (hi : i < s.nofSegments) :
    infoBits crc s tb i =
      ((tbBits tb).drop (i * s.cbInfoBits)).take
          (nofUsedBits s (computeTbCrcSize (8 * tb.length)) (decide (i = s.nofSegments - 1))) ++
        if i = s.nofSegments - 1 then tbCrcBits crc tb ++ List.replicate s.zeroPad false
        else [] := by
  obtain ⟨hle, hend⟩ := mul_cbInfoBits_le h hmax hi
  have htb : (tbBits tb).length = 8 * tb.length := length_firstBits _ _
  rw [infoBits, part, offsets_const, payload, List.drop_append, htb, Nat.sub_eq_zero_of_le hle,
    List.drop_zero]
  by_cases hl : i = s.nofSegments - 1
  · have hend := hend (by omega)
    have hused := h.last hmax
    have hcrc : (tbCrcBits crc tb ++ List.replicate s.zeroPad false).length =
        computeTbCrcSize (8 * tb.length) + s.zeroPad := by
      rw [List.length_append, tbCrcBits, length_natBits, List.length_replicate]
    rw [if_pos hl, decide_eq_true hl, List.take_append, List.length_drop, htb]
    simp only [nofUsedBits, if_true] at hend ⊢
    have hdrop : ((tbBits tb).drop (i * s.cbInfoBits)).length =
        8 * tb.length - i * s.cbInfoBits := by
      rw [List.length_drop, htb]
    rw [List.take_of_length_le (by rw [hdrop]; omega), List.take_of_length_le (by rw [hcrc]; omega),
      List.take_of_length_le (by rw [hdrop]; omega)]
  · have hnext : i + 1 < s.nofSegments := by omega
    obtain ⟨hle', -⟩ := mul_cbInfoBits_le h hmax hnext
    rw [Nat.succ_mul] at hle'
    rw [if_neg hl, decide_eq_false hl, List.append_nil,
      List.take_append_of_le_length (by rw [List.length_drop, htb]; omega)]
    rfl

/-- **A segment holds its part, its checksum and filler zeros.** -/
theorem fillSegment_spec {memory : List (BitVec 8)} (hi : i < s.nofSegments)
    (hmem : s.segmentLength ≤ 8 * memory.length) :
    ∃ data, fillSegment crc s tb (computeTbCrcSize (8 * tb.length)) (crc.tbChecksum tb) memory
        (i * s.cbInfoBits) (decide (i = s.nofSegments - 1)) = .ok data ∧
      firstBits data s.segmentLength =
        infoBits crc s tb i ++ segmentCrc crc s.nofSegments (infoBits crc s tb i) ++
          List.replicate (s.segmentLength - s.cbInfoBits - s.nofCrcBits) false := by
  obtain ⟨hle, hend⟩ := mul_cbInfoBits_le h hmax hi
  have hfits := h.fits
  have hlast := h.last hmax
  have hinfo := infoBits_eq crc h hmax hi
  have hlen := length_infoBits crc h hi
  have hcrcmod : computeTbCrcSize (8 * tb.length) % 8 = 0 := by
    rcases computeTbCrcSize_mem (8 * tb.length) with hc | hc <;> rw [hc]
  generalize hused : nofUsedBits s (computeTbCrcSize (8 * tb.length))
    (decide (i = s.nofSegments - 1)) = used at hinfo
  have hin : i * s.cbInfoBits + used ≤ 8 * tb.length := by
    by_cases hl : i = s.nofSegments - 1
    · rw [decide_eq_true hl] at hused
      rw [← hused, hend (by omega)]
    · obtain ⟨hle', -⟩ := mul_cbInfoBits_le h hmax (i := i + 1) (by omega)
      rw [decide_eq_false hl] at hused
      rw [← hused, nofUsedBits, if_neg Bool.false_ne_true, ← Nat.succ_mul]
      exact hle'
  have husedle : used ≤ s.cbInfoBits := by
    rw [← hused, nofUsedBits]
    split <;> omega
  -- the bits of the transport block
  have hroom : used ≤ 8 * memory.length := by omega
  obtain ⟨words, hcopy, hwords, hbits⟩ := firstBits_copyOffset hin hroom
  have hcopied : copyTb s tb memory (i * s.cbInfoBits) used = .ok ⟨words, used⟩ := by
    rw [copyTb, if_pos (by omega), hcopy]
  have h₀ : Holds s.segmentLength ⟨words, used⟩
      (((tbBits tb).drop (i * s.cbInfoBits)).take used) := by
    have hl₀ : (((tbBits tb).drop (i * s.cbInfoBits)).take used).length = used := by
      rw [List.length_take, List.length_drop, tbBits, length_firstBits]
      omega
    exact ⟨hl₀.symm, by rw [hl₀, hbits]; rfl, by rw [hwords]; exact hmem⟩
  -- the checksum of the transport block and the padding
  obtain ⟨w₁, hok₁, h₁⟩ : ∃ w₁, pushTbCrc s (computeTbCrcSize (8 * tb.length)) (crc.tbChecksum tb)
      (decide (i = s.nofSegments - 1)) ⟨words, used⟩ = .ok w₁ ∧
      Holds s.segmentLength w₁ (infoBits crc s tb i) := by
    rw [pushTbCrc]
    by_cases hl : i = s.nofSegments - 1
    · rw [decide_eq_true hl, nofUsedBits, if_pos rfl] at hused
      rw [if_pos hl] at hinfo
      have hl₀ := h₀.used
      obtain ⟨wc, hokc, hc⟩ := h₀.pushChecksum (crc.tbChecksum tb) hcrcmod (by
        rw [← hl₀]
        simp only
        omega)
      have hlc := hc.used
      rw [List.length_append, length_natBits, ← hl₀] at hlc
      simp only at hlc
      have hstop : wc.used + s.zeroPad ≤ s.segmentLength := by omega
      obtain ⟨wz, hokz, hz⟩ := hc.pushZeros s.zeroPad
        (by rw [hc.used]; exact Nat.le_add_right _ _) hstop (by rw [hc.used]; omega)
      refine ⟨wz, ?_, ?_⟩
      · rw [if_pos (decide_eq_true hl), bind_of_ok hokc, hokz]
      · rw [hc.used, Nat.add_sub_cancel_left] at hz
        rw [hinfo, ← List.append_assoc]
        exact hz
    · rw [if_neg hl, List.append_nil] at hinfo
      exact ⟨_, if_neg (by simpa using hl), by rw [hinfo]; exact h₀⟩
  -- the checksum of the segment
  obtain ⟨w₂, hok₂, h₂⟩ : ∃ w₂, pushCbCrc crc s w₁ = .ok w₂ ∧ Holds s.segmentLength w₂
      (infoBits crc s tb i ++ segmentCrc crc s.nofSegments (infoBits crc s tb i)) := by
    rw [pushCbCrc, segmentCrc]
    by_cases hone : 1 < s.nofSegments
    · have hcrc : s.nofCrcBits = segCrcLength := if_pos hone
      rw [if_pos (by rw [hcrc]; decide), if_pos hone, h₁.used, h₁.bits, hcrc]
      exact h₁.pushChecksum _ rfl (by rw [hlen, ← hcrc]; exact hfits)
    · have hcrc : s.nofCrcBits = 0 := if_neg hone
      rw [if_neg (not_not_intro hcrc), if_neg hone, List.append_nil]
      exact ⟨w₁, rfl, h₁⟩
  have hlen₂ : (infoBits crc s tb i ++ segmentCrc crc s.nofSegments (infoBits crc s tb i)).length =
      s.cbInfoBits + s.nofCrcBits := by
    rw [List.length_append, hlen, segmentCrc, Segmenter.nofCrcBits]
    split <;> simp
  obtain ⟨w₃, hok₃, h₃⟩ := h₂.pushZeros s.segmentLength (by omega) (Nat.le_refl s.segmentLength)
    (Nat.sub_le _ _)
  refine ⟨w₃.words, ?_, ?_⟩
  · rw [fillSegment, hused, bind_of_ok hcopied, bind_of_ok hok₁, bind_of_ok hok₂, bind_of_ok hok₃]
    rfl
  · have hsize := h₃.bits
    rw [List.length_append, hlen₂, List.length_replicate, Nat.add_sub_cancel' hfits] at hsize
    rw [hsize, Nat.sub_sub]

end Fill

/-! ## Rate-matched lengths -/

section RateMatched

variable {tbs : Nat} {cfg : SegmenterConfig} {s : Segmenter}

/-- The symbols of segment `i` on each layer. -/
def symbolsOf (s : Segmenter) (i : Nat) : Nat :=
  if i < s.nofShortSegments then s.nofSymbolsPerLayer / s.nofSegments
  else divideCeil s.nofSymbolsPerLayer s.nofSegments

theorem offsets_ite (m a b n : Nat) :
    offsets (fun i => if i < m then a else b) n = min n m * a + (n - min n m) * b := by
  induction n with
  | zero => simp [offsets]
  | succ n ih =>
    rw [offsets_succ, ih]
    split
    · next h =>
      rw [Nat.min_eq_left (by omega), Nat.min_eq_left (by omega), Nat.sub_self, Nat.sub_self,
        Nat.zero_mul, Nat.add_zero, Nat.add_zero, Nat.succ_mul]
    · next h =>
      rw [Nat.min_eq_right (by omega), Nat.min_eq_right (by omega), Nat.succ_sub (by omega),
        Nat.succ_mul, Nat.add_assoc]

theorem offsets_mul (size : Nat → Nat) (k n : Nat) :
    offsets (fun i => size i * k) n = offsets size n * k :=
  List.sum_map_mul_right ..

/-- The channel symbols of a layer are divided fairly. -/
theorem offsets_symbolsOf (h : Dims tbs cfg s) :
    offsets (symbolsOf s) s.nofSegments = s.nofSymbolsPerLayer := by
  have hlt := Nat.mod_lt s.nofSymbolsPerLayer h.pos
  have hdiv := Nat.div_add_mod s.nofSymbolsPerLayer s.nofSegments
  have hshort := h.short
  rw [show symbolsOf s = fun i =>
      if i < s.nofShortSegments then s.nofSymbolsPerLayer / s.nofSegments
      else divideCeil s.nofSymbolsPerLayer s.nofSegments from rfl,
    offsets_ite, Nat.min_eq_right (by omega), divideCeil_eq _ h.pos]
  split
  · next hzero =>
    rw [Nat.add_zero, ← Nat.add_mul, Nat.add_sub_cancel' (by omega)]
    omega
  · rw [Nat.mul_add, ← Nat.add_assoc, ← Nat.add_mul, Nat.add_sub_cancel' (by omega)]
    omega

theorem symbolsOf_le (h : Dims tbs cfg s) (hi : i < s.nofSegments) :
    symbolsOf s i ≤ s.nofSymbolsPerLayer := by
  have hle := offsets_mono (symbolsOf s) (Nat.succ_le_of_lt hi)
  rw [offsets_symbolsOf h, Nat.succ_eq_add_one, offsets_succ] at hle
  omega

def codewordLength (cfg : SegmenterConfig) : Nat := cfg.nofChSymbols * cfg.mod.bitsPerSymbol

variable (h : Dims tbs cfg s) (hlayers : cfg.nofChSymbols % cfg.nofLayers = 0)
  (hcw : codewordLength cfg < 2 ^ 32)
include h hlayers

theorem symbols_mul : s.nofSymbolsPerLayer * (cfg.nofLayers * cfg.mod.bitsPerSymbol) =
    codewordLength cfg := by
  rw [h.symbols, ← Nat.mul_assoc, Nat.div_mul_cancel (Nat.dvd_of_mod_eq_zero hlayers),
    codewordLength]

include hcw

theorem computeRmLength_eq (hi : i < s.nofSegments) :
    s.computeRmLength i cfg.mod cfg.nofLayers =
      symbolsOf s i * (cfg.nofLayers * cfg.mod.bitsPerSymbol) := by
  have hle := Nat.mul_le_mul_right (cfg.nofLayers * cfg.mod.bitsPerSymbol) (symbolsOf_le h hi)
  rw [symbols_mul h hlayers] at hle
  have hmod := Nat.mod_eq_of_lt (Nat.lt_of_le_of_lt hle hcw)
  rw [Segmenter.computeRmLength, Nat.mul_assoc]
  exact hmod

/-- **The rate-matched lengths add up to the codeword.** -/
theorem sum_rmLengths :
    offsets (fun i => s.computeRmLength i cfg.mod cfg.nofLayers) s.nofSegments =
      codewordLength cfg := by
  rw [← symbols_mul h hlayers, ← offsets_symbolsOf h, ← offsets_mul, offsets, offsets]
  refine congrArg List.sum (List.map_congr_left fun i hi => ?_)
  exact computeRmLength_eq h hlayers hcw (List.mem_range.1 hi)

end RateMatched

/-! ## The loops over the segments -/

variable {st : TxState}

section Loops

variable (crc : SchCrc) {tb : List (BitVec 8)} {cfg : SegmenterConfig} {s : Segmenter}

def metadataOf (s : Segmenter) (tbs : Nat) (cfg : SegmenterConfig) (i : Nat) : CodeblockMetadata :=
  s.generateCbMetadata i (codewordLength cfg)
    (offsets (fun k => s.computeRmLength k cfg.mod cfg.nofLayers) i)
    (s.segmentLength - s.cbInfoBits - s.nofCrcBits) s.nofCrcBits (computeTbCrcSize tbs) cfg

def segmentBits (s : Segmenter) (tb : List (BitVec 8)) (i : Nat) : List Bool :=
  infoBits crc s tb i ++ segmentCrc crc s.nofSegments (infoBits crc s tb i) ++
    List.replicate (s.segmentLength - s.cbInfoBits - s.nofCrcBits) false

/-- After `n` rounds of the transmit loop. -/
structure TxInv (s : Segmenter) (tb : List (BitVec 8)) (cfg : SegmenterConfig) (n : Nat)
    (st : TxState) : Prop where
  metadata : st.segments.map DescribedSegment.metadata =
    (List.range n).map (metadataOf s (8 * tb.length) cfg)
  bits : st.segments.map DescribedSegment.bits = (List.range n).map (segmentBits crc s tb)
  size : ∀ seg ∈ st.segments, seg.size = s.segmentLength
  cwOffset : st.cwOffset = offsets (fun k => s.computeRmLength k cfg.mod cfg.nofLayers) n
  tbOffset : st.tbOffset = if n = s.nofSegments then tbBitsIn (8 * tb.length) else n * s.cbInfoBits

theorem TxInv.length (h : TxInv crc s tb cfg n st) : st.segments.length = n :=
  length_of_map_eq h.metadata

variable (h : Dims (8 * tb.length) cfg s) (hmax : s.nofSegments ≤ maxNofSegments)
include h hmax

theorem txRound_spec {memory : Nat → List (BitVec 8)}
    (hmem : ∀ i, s.segmentLength ≤ 8 * (memory i).length) (hst : TxInv crc s tb cfg n st)
    (hn : n < s.nofSegments) :
    ∃ st', txRound crc s tb (computeTbCrcSize (8 * tb.length)) (crc.tbChecksum tb) memory
        (codewordLength cfg) cfg st n = .ok st' ∧ TxInv crc s tb cfg (n + 1) st' := by
  have htb : st.tbOffset = n * s.cbInfoBits := by
    rw [hst.tbOffset, if_neg (Nat.ne_of_lt hn)]
  obtain ⟨data, hfill, hbits⟩ := fillSegment_spec crc h hmax hn (hmem n)
  have hguard : st.segments.length < maxNofSegments ∧ 0 < s.segmentLength ∧
      s.segmentLength ≤ maxSegLength :=
    ⟨by rw [hst.length]; exact Nat.lt_of_lt_of_le hn hmax, h.length_pos, h.length_le⟩
  have hmeta : s.generateCbMetadata n (codewordLength cfg) st.cwOffset
      (s.segmentLength - s.cbInfoBits - s.nofCrcBits) s.nofCrcBits
      (computeTbCrcSize (8 * tb.length)) cfg = metadataOf s (8 * tb.length) cfg n := by
    rw [hst.cwOffset, metadataOf]
  refine ⟨⟨st.segments ++ [⟨metadataOf s (8 * tb.length) cfg n, data, s.segmentLength⟩],
    st.cwOffset + s.computeRmLength n cfg.mod cfg.nofLayers,
    n * s.cbInfoBits + nofUsedBits s (computeTbCrcSize (8 * tb.length))
      (decide (n = s.nofSegments - 1)) +
      if decide (n = s.nofSegments - 1) then computeTbCrcSize (8 * tb.length) else 0⟩,
    ?_, ?_, ?_, ?_, ?_, ?_⟩
  · rw [txRound, bind_of_ok (ensure_ok hguard), htb, bind_of_ok hfill, hmeta]
    rfl
  · rw [List.map_append, hst.metadata, List.range_succ, List.map_append]
    rfl
  · rw [List.map_append, hst.bits, List.range_succ, List.map_append, List.map_singleton,
      List.map_singleton, DescribedSegment.bits, hbits, segmentBits]
  · intro seg hseg
    rcases List.mem_append.1 hseg with hseg | hseg
    · exact hst.size seg hseg
    · rw [List.mem_singleton.1 hseg]
  · rw [offsets_succ, hst.cwOffset]
  · obtain ⟨-, hend⟩ := mul_cbInfoBits_le h hmax hn
    by_cases hl : n + 1 = s.nofSegments
    · have hlast : n = s.nofSegments - 1 := by omega
      simp only [if_pos hl, decide_eq_true hlast, if_true, hend hl, tbBitsIn]
    · have hlast : ¬ n = s.nofSegments - 1 := by omega
      simp only [if_neg hl, decide_eq_false hlast, nofUsedBits, Bool.false_eq_true, if_false,
        Nat.succ_mul, Nat.add_zero]

theorem txLoop_spec {memory : Nat → List (BitVec 8)}
    (hmem : ∀ i, s.segmentLength ≤ 8 * (memory i).length) :
    ∃ st, (List.range s.nofSegments).foldlM (txRound crc s tb (computeTbCrcSize (8 * tb.length))
        (crc.tbChecksum tb) memory (codewordLength cfg) cfg) ⟨[], 0, 0⟩ = .ok st ∧
      TxInv crc s tb cfg s.nofSegments st := by
  refine range_foldlM (P := TxInv crc s tb cfg) ⟨rfl, rfl, nofun, rfl, ?_⟩
    fun i st hi hst => txRound_spec crc h hmax hmem hst hi
  rw [if_neg (Nat.ne_of_lt h.pos), Nat.zero_mul]

end Loops

section ReceiveLoop

variable {α : Type} {llrs : List α} {tbs : Nat} {cfg : SegmenterConfig} {s : Segmenter}

/-- After `n` rounds of the receive loop. -/
structure RxInv (s : Segmenter) (tbs : Nat) (cfg : SegmenterConfig) (llrs : List α) (n : Nat)
    (st : List (List α × CodeblockMetadata) × Nat) : Prop where
  metadata : st.1.map Prod.snd = (List.range n).map (metadataOf s tbs cfg)
  parts : st.1.map Prod.fst =
    (List.range n).map (part llrs fun k => s.computeRmLength k cfg.mod cfg.nofLayers)
  offset : st.2 = offsets (fun k => s.computeRmLength k cfg.mod cfg.nofLayers) n

theorem rxRound_spec (hmax : s.nofSegments ≤ maxNofSegments)
    (hlen : llrs.length = codewordLength cfg)
    (hsum : offsets (fun k => s.computeRmLength k cfg.mod cfg.nofLayers) s.nofSegments ≤
      llrs.length)
    {st : List (List α × CodeblockMetadata) × Nat} (hst : RxInv s tbs cfg llrs n st)
    (hn : n < s.nofSegments) :
    ∃ st', rxRound s llrs (computeTbCrcSize tbs) cfg st n = .ok st' ∧
      RxInv s tbs cfg llrs (n + 1) st' := by
  have hlength := length_of_map_eq hst.metadata
  have hle := Nat.le_trans
    (offsets_mono (fun k => s.computeRmLength k cfg.mod cfg.nofLayers) (Nat.succ_le_of_lt hn)) hsum
  rw [Nat.succ_eq_add_one, offsets_succ, ← hst.offset] at hle
  have hsub : subspan llrs st.2 (s.computeRmLength n cfg.mod cfg.nofLayers) =
      .ok ((llrs.drop st.2).take (s.computeRmLength n cfg.mod cfg.nofLayers)) := if_pos hle
  have hmeta : s.generateCbMetadata n llrs.length st.2
      (s.segmentLength - (s.cbInfoBits + s.nofCrcBits)) s.nofCrcBits (computeTbCrcSize tbs) cfg =
        metadataOf s tbs cfg n := by
    rw [hst.offset, hlen, ← Nat.sub_sub, metadataOf]
  refine ⟨(st.1 ++ [((llrs.drop st.2).take (s.computeRmLength n cfg.mod cfg.nofLayers),
    metadataOf s tbs cfg n)], st.2 + s.computeRmLength n cfg.mod cfg.nofLayers), ?_, ?_, ?_, ?_⟩
  · rw [rxRound, bind_of_ok (ensure_ok (by rw [hlength]; exact Nat.lt_of_lt_of_le hn hmax)), hmeta]
    exact bind_of_ok hsub
  · rw [List.map_append, hst.metadata, List.range_succ, List.map_append]
    rfl
  · rw [List.map_append, hst.parts, List.range_succ, List.map_append, List.map_singleton,
      List.map_singleton, part, hst.offset]
  · rw [offsets_succ, hst.offset]

end ReceiveLoop

/-! ## The segmentation of a transport block -/

section Main

variable (crc : SchCrc) {tb : List (BitVec 8)} {cfg : SegmenterConfig}

/-- The segments carry the transport block: without filler zeros, checksums and padding, their bits
are those of the transport block and its checksum. -/
structure Carries (tb : List (BitVec 8)) (segs : List DescribedSegment) (infos : List (List Bool))
    (pad : Nat) : Prop where
  segments : List.Forall₂ (fun seg info => seg.bits = info ++ segmentCrc crc segs.length info ++
    List.replicate seg.metadata.nofFillerBits false) segs infos
  content : infos.flatten = tbBits tb ++ tbCrcBits crc tb ++ List.replicate pad false
  pad_lt : pad < segs.length

variable {s : Segmenter}

theorem TxInv.carries (h : Dims (8 * tb.length) cfg s) (hst : TxInv crc s tb cfg s.nofSegments st) :
    Carries crc tb st.segments ((List.range s.nofSegments).map (infoBits crc s tb)) s.zeroPad := by
  refine ⟨List.forall₂_iff_get.2 ⟨?_, fun i hi hi' => ?_⟩, ?_, ?_⟩
  · rw [hst.length, List.length_map, List.length_range]
  · rw [List.get_eq_getElem, List.get_eq_getElem, getElem_of_map_eq hst.bits hi,
      getElem_of_map_eq hst.metadata hi, hst.length, List.getElem_map, List.getElem_range]
    rfl
  · have hparts := flatten_parts (payload crc tb s.zeroPad) (fun _ => s.cbInfoBits) s.nofSegments
    rw [offsets_const, h.info, ← length_payload crc, List.take_length] at hparts
    rw [List.append_assoc]
    exact hparts
  · rw [hst.length]
    exact h.pad_lt

variable (memory : Nat → Nat → BitVec 8) (hne : tb ≠ []) (htbs : 8 * tb.length + 24 ≤ maxTbs)
  (hmax : computeNofCodeblocks (8 * tb.length) cfg.baseGraph ≤ maxNofSegments) (hrv : cfg.rv ≤ 3)
  (hlayers : 1 ≤ cfg.nofLayers ∧ cfg.nofLayers ≤ 4)
  (hsymbols : cfg.nofChSymbols % cfg.nofLayers = 0) (hcw : codewordLength cfg < 2 ^ 32)

include hne htbs hmax hrv hlayers hsymbols hcw in
theorem segmentTx_spec :
    ∃ s st, configure (8 * tb.length) cfg = .ok s ∧ Dims (8 * tb.length) cfg s ∧
      s.nofSegments ≤ maxNofSegments ∧ segmentTx crc memory tb cfg = .ok st.segments ∧
      TxInv crc s tb cfg s.nofSegments st := by
  obtain ⟨s, hs, hdims⟩ := configure_spec (8 * tb.length) cfg
  have hmax : s.nofSegments ≤ maxNofSegments := by rwa [hdims.nofSegments]
  have hwords : ∀ i, s.segmentLength ≤ 8 * (newWords s.segmentLength (memory i)).length := by
    intro i
    rw [newWords, List.length_map, List.length_range]
    omega
  obtain ⟨st, hloop, hst⟩ := txLoop_spec crc hdims hmax hwords
  refine ⟨s, st, hs, hdims, hmax, ?_, hst⟩
  have hmod : cfg.nofChSymbols * cfg.mod.bitsPerSymbol % 2 ^ 32 = codewordLength cfg :=
    Nat.mod_eq_of_lt hcw
  have htb : s.nofTbBitsIn = st.tbOffset := by rw [hst.tbOffset, if_pos rfl, hdims.bitsIn]
  have hoff : codewordLength cfg = st.cwOffset := by
    rw [hst.cwOffset, sum_rmLengths hdims hsymbols hcw]
  rw [segmentTx, bind_of_ok (ensure_ok ⟨hne, htbs, hrv, hlayers.1, hlayers.2, hsymbols⟩),
    bind_of_ok hs, hmod, bind_of_ok hloop, bind_of_ok (ensure_ok htb), bind_of_ok (ensure_ok hoff)]
  rfl

include hrv hlayers hsymbols hcw in
theorem segmentRx_spec {α : Type} {llrs : List α} {tbs : Nat} (hs : configure tbs cfg = .ok s)
    (hdims : Dims tbs cfg s) (hmax : s.nofSegments ≤ maxNofSegments) (hne : llrs ≠ [])
    (hlen : llrs.length = codewordLength cfg) :
    ∃ st, segmentRx llrs tbs cfg = .ok st.1 ∧ RxInv s tbs cfg llrs s.nofSegments st := by
  have hsum := sum_rmLengths hdims hsymbols hcw
  obtain ⟨st, hloop, hst⟩ := range_foldlM (f := rxRound s llrs (computeTbCrcSize tbs) cfg)
    (P := RxInv s tbs cfg llrs) (s := ([], 0)) ⟨rfl, rfl, rfl⟩ fun i st hi hst =>
      rxRound_spec hmax hlen (by rw [hsum, hlen]) hst hi
  refine ⟨st, ?_, hst⟩
  have hmod : cfg.nofChSymbols * cfg.mod.bitsPerSymbol % 2 ^ 32 = codewordLength cfg :=
    Nat.mod_eq_of_lt hcw
  have hoff : llrs.length = st.2 := by rw [hst.offset, hsum, hlen]
  have hguard : llrs ≠ [] ∧ llrs.length = cfg.nofChSymbols * cfg.mod.bitsPerSymbol % 2 ^ 32 ∧
      cfg.rv ≤ 3 ∧ 1 ≤ cfg.nofLayers ∧ cfg.nofLayers ≤ 4 ∧ cfg.nofChSymbols % cfg.nofLayers = 0 :=
    ⟨hne, by rw [hmod, hlen], hrv, hlayers.1, hlayers.2, hsymbols⟩
  rw [segmentRx, bind_of_ok (ensure_ok hguard), bind_of_ok hs, bind_of_ok hloop,
    bind_of_ok (ensure_ok hoff)]
  rfl

/-- The segments `segs` of lifting size `ls` are what the transmit segmentation makes of a transport
block; they carry it, and the receive segmentation of every codeword agrees with them. -/
structure Lossless (memory : Nat → Nat → BitVec 8) (tb : List (BitVec 8)) (cfg : SegmenterConfig)
    (segs : List DescribedSegment) (ls : Nat) : Prop where
  tx : segmentTx crc memory tb cfg = .ok segs
  lifting : SmallestSufficient (8 * tb.length) cfg.baseGraph ls
  count : segs.length = computeNofCodeblocks (8 * tb.length) cfg.baseGraph
  segment : ∀ seg ∈ segs, seg.metadata.liftingSize = ls ∧
    seg.bits.length = computeCodeblockSize cfg.baseGraph ls ∧
    cfg.nofLayers * cfg.mod.bitsPerSymbol ∣ seg.metadata.rmLength
  carries : ∃ infos pad, Carries crc tb segs infos pad
  codeword : (segs.map fun seg => seg.metadata.rmLength).sum = codewordLength cfg
  rx : ∀ (α : Type) (llrs : List α), llrs ≠ [] → llrs.length = codewordLength cfg →
    ∃ cbs, segmentRx llrs (8 * tb.length) cfg = .ok cbs ∧
      cbs.map Prod.snd = segs.map DescribedSegment.metadata ∧
      (cbs.map Prod.fst).flatten = llrs ∧
      ∀ cb ∈ cbs, cb.1 = (llrs.drop cb.2.cwOffset).take cb.2.rmLength ∧
        cb.1.length = cb.2.rmLength

include hne htbs hmax hrv hlayers hsymbols hcw in
theorem segmentation_lossless : ∃ segs ls, Lossless crc memory tb cfg segs ls := by
  obtain ⟨s, st, hs, hdims, hmax, hok, hst⟩ :=
    segmentTx_spec crc memory hne htbs hmax hrv hlayers hsymbols hcw
  have hsum := sum_rmLengths hdims hsymbols hcw
  refine ⟨st.segments, s.liftingSize, hok, hdims.lifting, ?_, fun seg hseg => ?_,
    ⟨_, _, hst.carries crc hdims⟩, ?_, fun α llrs hllrs hlen => ?_⟩
  · rw [hst.length, hdims.nofSegments]
  · obtain ⟨i, hi, rfl⟩ := List.getElem_of_mem hseg
    have hmeta := getElem_of_map_eq hst.metadata hi
    refine ⟨by rw [hmeta]; rfl, ?_, ?_⟩
    · rw [DescribedSegment.bits, length_firstBits, hst.size _ hseg, hdims.segmentLength]
    · rw [hmeta]
      have hrm := computeRmLength_eq hdims hsymbols hcw (by rwa [hst.length] at hi)
      exact ⟨symbolsOf s i, hrm.trans (Nat.mul_comm _ _)⟩
  · rw [← hsum, offsets]
    have hmap := congrArg (List.map CodeblockMetadata.rmLength) hst.metadata
    rw [List.map_map, List.map_map] at hmap
    exact congrArg List.sum hmap
  · obtain ⟨rx, hrx, hinv⟩ := segmentRx_spec hrv hlayers hsymbols hcw hs hdims hmax hllrs hlen
    refine ⟨rx.1, hrx, by rw [hinv.metadata, hst.metadata], ?_, fun cb hcb => ?_⟩
    · rw [hinv.parts, flatten_parts, hsum, ← hlen, List.take_length]
    · obtain ⟨i, hi, rfl⟩ := List.getElem_of_mem hcb
      have hn : i < s.nofSegments := length_of_map_eq hinv.metadata ▸ hi
      rw [getElem_of_map_eq hinv.metadata hi, getElem_of_map_eq hinv.parts hi]
      exact ⟨rfl, length_part hn (by rw [hsum, hlen])⟩

end Main

/-- A transport block of 1000 bytes has three segments of base graph 2. -/
theorem segmentation_lossless_threeSegments :
    ∃ segs ls, Lossless ⟨fun _ => 0, fun _ => 0, fun _ => 0⟩ (fun _ _ => 0)
      (List.replicate 1000 0x5a) ⟨.bg2, 0, .qpsk, 0, 2, 6000⟩ segs ls ∧ segs.length = 3 := by
  have hlossless : ∃ segs ls, Lossless ⟨fun _ => 0, fun _ => 0, fun _ => 0⟩ (fun _ _ => 0)
      (List.replicate 1000 0x5a) ⟨.bg2, 0, .qpsk, 0, 2, 6000⟩ segs ls :=
    segmentation_lossless _ _ (List.cons_ne_nil _ _) (by rw [List.length_replicate]; decide)
      (by rw [List.length_replicate]; decide) (by decide) ⟨by decide, by decide⟩ (by decide)
      (by decide)
  obtain ⟨segs, ls, h⟩ := hlossless
  refine ⟨segs, ls, h, h.count.trans ?_⟩
  rw [List.length_replicate]
  decide

/-- A transport block of 159747 bytes has 152 code blocks of base graph 1, but is longer than the
segmenter accepts. -/
theorem segmentTx_too_long :
    computeNofCodeblocks (8 * (List.replicate 159747 (0 : BitVec 8)).length) .bg1 ≤ maxNofSegments ∧
    segmentTx ⟨fun _ => 0, fun _ => 0, fun _ => 0⟩ (fun _ _ => 0) (List.replicate 159747 0)
      ⟨.bg1, 0, .qpsk, 0, 1, 100⟩ = .error .assertion := by
  refine ⟨by rw [List.length_replicate]; decide, ?_⟩
  have hguard : ensure (List.replicate 159747 (0 : BitVec 8) ≠ [] ∧
      8 * (List.replicate 159747 (0 : BitVec 8)).length + 24 ≤ maxTbs ∧ 0 ≤ 3 ∧ 1 ≤ 1 ∧ 1 ≤ 4 ∧
      100 % 1 = 0) = .error .assertion := by
    refine ensure_error fun h => ?_
    have hle := h.2.1
    rw [List.length_replicate, maxTbs] at hle
    omega
  exact bind_of_error hguard

end RadioStack.Phy
