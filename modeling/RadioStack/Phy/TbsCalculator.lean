import Mathlib.Data.Nat.Log
import Mathlib.Data.Rat.Floor
import RadioStack.Phy.Ldpc

/-!
# Transport block sizes

`tbs_calculator.cpp` turns the number of information bits that a shared channel can carry into the
size of a transport block. The number is first rounded to a multiple of a power of two that grows
with it. A small one is then looked up in a table; a large one is rounded up to equal code blocks.
The calculator counts the code blocks from the rounded number, the segmentation from the size.

Floating-point numbers are rational here and their operations exact; integers have 32 bits.

**Theorem (`tbsCalculator_fits`).** Below 2³² - 2²⁵ + 24 information bits a size is found, it is
monotone in the number of bits, and both counts agree: `capacity` is what a number of code blocks
holds, and the rounded number and the size lie between the same two capacities.

From there on the rounded number wraps to 0 (`tbsCalculator_wraps`).
-/

namespace RadioStack.Phy

/-! ## Rounding to a power of two -/

/-- `std::floor(std::log2(x))`, for `x` of at least 1. -/
def floorLog2 (x : ℚ) : Nat := ⌊x⌋₊.log2

/-- `std::round`, for numbers that are not negative. -/
def roundNat (x : ℚ) : Nat := ⌊x + 1 / 2⌋₊

section

variable {x y : ℚ}

theorem floorLog2_mono : Monotone floorLog2 := by
  intro x y h
  simp only [floorLog2, Nat.log2_eq_log_two]
  exact Nat.log_mono_right (Nat.floor_mono h)

theorem lt_two_pow_floorLog2 (x : ℚ) : x < 2 ^ (floorLog2 x + 1) := by
  have hlt : ⌊x⌋₊ + 1 ≤ 2 ^ (floorLog2 x + 1) := Nat.lt_log2_self
  exact (Nat.lt_floor_add_one x).trans_le (by exact_mod_cast hlt)

theorem two_pow_floorLog2_le (hx : floorLog2 x ≠ 0) : 2 ^ floorLog2 x ≤ x := by
  have hle : 2 ^ floorLog2 x ≤ ⌊x⌋₊ := Nat.log2_self_le fun h => hx (by rw [floorLog2, h]; rfl)
  exact_mod_cast (Nat.le_floor_iff' (by positivity)).1 hle

theorem roundNat_mono : Monotone roundNat := fun _ _ h => Nat.floor_mono (by linarith)

theorem roundNat_natCast (k : Nat) : roundNat k = k :=
  (Nat.floor_eq_iff (by positivity)).2 ⟨by linarith, by linarith⟩

/-- Rounding to a grid that grows with the number is monotone: where the grid changes, a power of
two that is on both lies in between. -/
theorem grid_mono {r : ℚ → Nat} (hr : Monotone r) (hint : ∀ k : Nat, r k = k) {e : Nat → Nat}
    (he : ∀ i j, i < j → e i = e j ∨ e i ≤ j ∧ e j ≤ j) (hxy : x ≤ y) :
    2 ^ e (floorLog2 x) * r (x / 2 ^ e (floorLog2 x)) ≤
      2 ^ e (floorLog2 y) * r (y / 2 ^ e (floorLog2 y)) := by
  have hmono : ∀ (n : Nat) {x y : ℚ}, x ≤ y → 2 ^ n * r (x / 2 ^ n) ≤ 2 ^ n * r (y / 2 ^ n) :=
    fun n _ _ h => Nat.mul_le_mul_left _ (hr (by gcongr))
  have hgrid : ∀ {n L : Nat}, n ≤ L → 2 ^ n * r (2 ^ L / 2 ^ n) = 2 ^ L := by
    intro n L hn
    have hdiv : (2 ^ L / 2 ^ n : ℚ) = ((2 ^ (L - n) : Nat) : ℚ) := by
      rw [Nat.cast_pow, Nat.cast_ofNat, pow_sub₀ _ two_ne_zero hn, div_eq_mul_inv]
    rw [hdiv, hint, ← pow_add, Nat.add_sub_cancel' hn]
  have hcases : e (floorLog2 x) = e (floorLog2 y) ∨ floorLog2 x < floorLog2 y ∧
      e (floorLog2 x) ≤ floorLog2 y ∧ e (floorLog2 y) ≤ floorLog2 y := by
    rcases Nat.lt_or_eq_of_le (floorLog2_mono hxy) with hlt | heq
    · exact (he _ _ hlt).imp id fun h => ⟨hlt, h⟩
    · exact .inl (by rw [heq])
  rcases hcases with heq | ⟨hlt, hn, hn'⟩
  · rw [heq]
    exact hmono _ hxy
  · have hx := (lt_two_pow_floorLog2 x).le.trans (pow_le_pow_right₀ one_le_two hlt)
    refine (hmono _ hx).trans ?_
    rw [hgrid hn, ← hgrid hn']
    exact hmono _ (two_pow_floorLog2_le (Nat.ne_zero_of_lt hlt))

end

/-! ## The calculator -/

/-- `table_valid_tbs`, by the number of times that entries are repeated. -/
def tableValidTbs : List Nat :=
  List.flatMap (fun run : Nat × List Nat => run.2.flatMap (List.replicate run.1))
    [(4, [24]),
      (1, [32, 40, 48, 56, 64, 72, 80, 88, 96, 104, 112, 120, 128, 136, 144, 152, 160, 168, 176,
        184, 192]), (2, [208, 224, 240, 256, 272, 288, 304, 320, 336, 352, 368, 384]),
      (3, [408, 432, 456, 480, 504, 528, 552, 576]), (4, [608, 640, 672, 704, 736, 768]),
      (5, [808, 848, 888, 928]), (7, [984]), (6, [1032]), (4, [1064]), (8, [1128]),
      (4, [1160, 1192, 1224, 1256, 1288, 1320, 1352]),
      (8, [1416, 1480, 1544, 1608, 1672, 1736, 1800, 1864, 1928]), (12, [2024]),
      (8, [2088, 2152, 2216, 2280]), (16, [2408]), (8, [2472, 2536, 2600, 2664, 2728, 2792, 2856]),
      (15, [2976]), (16, [3104]), (17, [3240]), (16, [3368, 3496, 3624, 3752]), (9, [3824])]

/-- `tbs_calculator_table_find_smallest_not_less_than`; it asserts that the index is in the table.
-/
def tableFindSmallestNotLessThan (nofInfoPrime : Nat) : Option Nat :=
  tableValidTbs[divideCeil nofInfoPrime 8]?

/-- `nof_info_prime` of step 3. -/
def nofInfoPrimeStep3 (nofInfo : ℚ) : Nat :=
  let n := if 2 ^ 9 < nofInfo then floorLog2 nofInfo - 6 else 3
  max 24 (2 ^ n * ⌊nofInfo / 2 ^ n⌋₊)

def tbsCalculatorStep3 (nofInfo : ℚ) : Option Nat :=
  tableFindSmallestNotLessThan (nofInfoPrimeStep3 nofInfo)

/-- `nof_info_prime` of step 4. This product is the one that can exceed 32 bits. -/
def nofInfoPrimeStep4 (nofInfo : ℚ) : Nat :=
  let n := floorLog2 (nofInfo - 24) - 5
  max 3840 (2 ^ n * roundNat ((nofInfo - 24) / 2 ^ n) % 2 ^ 32)

/-- `C` of step 4. -/
def nofCodeblocksStep4 (nofInfoPrime : Nat) (tcr : ℚ) : Nat :=
  if tcr ≤ 1 / 4 then divideCeil (nofInfoPrime + 24) 3816
  else if 8424 < nofInfoPrime then divideCeil (nofInfoPrime + 24) 8424
  else 1

/-- The size that is returned by step 4. -/
def sizeStep4 (nofInfoPrime : Nat) (tcr : ℚ) : Nat :=
  let C := nofCodeblocksStep4 nofInfoPrime tcr
  8 * C * divideCeil (nofInfoPrime + 24) (8 * C) - 24

/-- The shift by `n` is defined up to 31. -/
def tbsCalculatorStep4 (nofInfo tcr : ℚ) : Option Nat :=
  if floorLog2 (nofInfo - 24) - 5 < 32 then some (sizeStep4 (nofInfoPrimeStep4 nofInfo) tcr)
  else none

/-- Steps 3 and 4, as `tbs_calculator_step2` takes them for its product `nof_info`. -/
def tbsCalculator (nofInfo tcr : ℚ) : Option Nat :=
  if nofInfo ≤ 3824 then tbsCalculatorStep3 nofInfo else tbsCalculatorStep4 nofInfo tcr

/-- The number of code blocks that the calculator assumes; the table is for one. -/
def assumedCodeblocks (nofInfo tcr : ℚ) : Nat :=
  if nofInfo ≤ 3824 then 1 else nofCodeblocksStep4 (nofInfoPrimeStep4 nofInfo) tcr

/-- `get_ldpc_base_graph`; it asserts that the rate is between 0 and 1. -/
def getLdpcBaseGraph (R : ℚ) (A : Nat) : Option BaseGraph :=
  if 0 < R ∧ R < 1 then
    if A ≤ 292 ∨ R ≤ 1 / 4 ∨ (A ≤ 3824 ∧ R ≤ 67 / 100) then some .bg2 else some .bg1
  else none

/-! ## Step 3 -/

theorem length_tableValidTbs : tableValidTbs.length = 479 := by decide +kernel

theorem tableValidTbs_sorted : tableValidTbs.Pairwise (· ≤ ·) :=
  List.isChain_iff_pairwise.1 (by decide +kernel)

theorem mem_tableValidTbs {tbs : Nat} (h : tbs ∈ tableValidTbs) :
    8 ∣ tbs ∧ 24 ≤ tbs ∧ tbs ≤ 3824 := by
  have hall : ∀ tbs ∈ tableValidTbs, 8 ∣ tbs ∧ 24 ≤ tbs ∧ tbs ≤ 3824 := by decide +kernel
  exact hall tbs h

section

variable {x y tcr : ℚ}

theorem nofInfoPrimeStep3_le (hpos : 0 < x) (hx : x ≤ 3824) : nofInfoPrimeStep3 x ≤ 3824 := by
  have hle : ∀ n : Nat, 2 ^ n * ⌊x / 2 ^ n⌋₊ ≤ 3824 := by
    intro n
    have hfloor := Nat.floor_le (div_nonneg hpos.le (pow_nonneg zero_le_two n) : 0 ≤ x / 2 ^ n)
    rw [le_div_iff₀ (by positivity), mul_comm] at hfloor
    exact_mod_cast hfloor.trans hx
  exact max_le (by decide) (hle _)

theorem shiftStep3_eq (x : ℚ) :
    (if 2 ^ 9 < x then floorLog2 x - 6 else 3) = max 3 (floorLog2 x - 6) := by
  split
  · next hx =>
    have hlog := hx.trans (lt_two_pow_floorLog2 x)
    rw [pow_lt_pow_iff_right₀ one_lt_two] at hlog
    omega
  · next hx =>
    have hlog : floorLog2 x ≤ floorLog2 (2 ^ 9) := floorLog2_mono (not_lt.1 hx)
    have : floorLog2 (2 ^ 9) = 9 := by decide +kernel
    omega

theorem nofInfoPrimeStep3_mono (hxy : x ≤ y) : nofInfoPrimeStep3 x ≤ nofInfoPrimeStep3 y := by
  simp only [nofInfoPrimeStep3, shiftStep3_eq]
  refine max_le_max_left 24 (grid_mono (e := fun k => max 3 (k - 6)) Nat.floor_mono
    Nat.floor_natCast (fun i j h => ?_) hxy)
  omega

/-- The table has an entry for every number of step 3. -/
theorem tbsCalculatorStep3_spec (hpos : 0 < x) (hx : x ≤ 3824) :
    ∃ tbs ∈ tableValidTbs, tbsCalculatorStep3 x = some tbs := by
  have hlt : divideCeil (nofInfoPrimeStep3 x) 8 < tableValidTbs.length := by
    rw [length_tableValidTbs, Nat.lt_succ_iff, divideCeil_le_iff (by decide)]
    exact nofInfoPrimeStep3_le hpos hx
  exact ⟨_, List.getElem_mem hlt, List.getElem?_eq_getElem hlt⟩

theorem divideCeil_mono {a b den : Nat} (hden : 0 < den) (h : a ≤ b) :
    divideCeil a den ≤ divideCeil b den :=
  (divideCeil_le_iff hden).2 (h.trans (le_divideCeil_mul b hden))

theorem tbsCalculatorStep3_mono (hxy : x ≤ y) {tbs tbs' : Nat} (h : tbsCalculatorStep3 x = some tbs)
    (h' : tbsCalculatorStep3 y = some tbs') : tbs ≤ tbs' := by
  obtain ⟨hi, rfl⟩ := List.getElem?_eq_some_iff.1 h
  obtain ⟨hj, rfl⟩ := List.getElem?_eq_some_iff.1 h'
  have hle := divideCeil_mono (by decide : 0 < 8) (nofInfoPrimeStep3_mono hxy)
  rcases Nat.lt_or_eq_of_le hle with hlt | heq
  · exact List.pairwise_iff_getElem.1 tableValidTbs_sorted _ _ hi hj hlt
  · simp only [heq, le_refl]

/-! ## Code blocks -/

/-- The bits of a transport block with its checksum that a number of code blocks holds. -/
def capacity (bg : BaseGraph) (C : Nat) : Nat :=
  if C ≤ 1 then C * maxCodeblockLength bg else C * (maxCodeblockLength bg - 24)

theorem capacity_mono (bg : BaseGraph) : Monotone (capacity bg) := by
  intro C C' h
  cases bg <;> simp only [capacity, maxCodeblockLength] <;> split_ifs <;> omega

theorem dvd_capacity (bg : BaseGraph) (C : Nat) : 8 * C ∣ capacity bg C := by
  rw [mul_comm]
  cases bg <;> rw [capacity] <;> split <;> exact Nat.mul_dvd_mul_left C (by decide)

theorem le_of_capacity {bg : BaseGraph} {C C' u : Nat} (hlt : capacity bg (C - 1) < u)
    (hle : u ≤ capacity bg C') : C ≤ C' := by
  refine Nat.le_of_not_lt fun h => ?_
  exact (capacity_mono bg (Nat.le_sub_one_of_lt h)).not_gt (hlt.trans_le hle)

/-- The segmentation takes the fewest code blocks that hold the transport block. -/
theorem computeNofCodeblocks_spec (tbs : Nat) (bg : BaseGraph) :
    capacity bg (computeNofCodeblocks tbs bg - 1) < tbBitsIn tbs ∧
      tbBitsIn tbs ≤ capacity bg (computeNofCodeblocks tbs bg) := by
  have hcrc := computeTbCrcSize_mem tbs
  have hbounds := maxCodeblockLength_bounds bg
  have hden : 0 < maxCodeblockLength bg - 24 := by omega
  have hceil := le_divideCeil_mul (tbBitsIn tbs) hden
  have hlt := divideCeil_mul_lt (tbBitsIn tbs) hden
  rw [computeNofCodeblocks]
  split
  · next hfit => exact ⟨by simp [capacity, tbBitsIn]; omega, by simpa [capacity] using hfit⟩
  · generalize divideCeil (tbBitsIn tbs) (maxCodeblockLength bg - 24) = C at *
    cases bg <;> simp only [capacity, maxCodeblockLength] at * <;> split_ifs <;> omega

/-- The base graph of a large transport block. -/
def graphStep4 (tcr : ℚ) : BaseGraph := if tcr ≤ 1 / 4 then .bg2 else .bg1

variable {a b : Nat}

theorem tbBitsIn_of_le (ha : 3840 ≤ a) : tbBitsIn a = a + 24 := by
  rw [tbBitsIn, computeTbCrcSize, if_neg (by omega)]

/-- The calculator counts as the segmentation does, but for the rounded number. -/
theorem nofCodeblocksStep4_eq (tcr : ℚ) (ha : 3840 ≤ a) :
    nofCodeblocksStep4 a tcr = computeNofCodeblocks a (graphStep4 tcr) := by
  rw [nofCodeblocksStep4, computeNofCodeblocks, graphStep4, tbBitsIn_of_le ha]
  split_ifs <;> simp only [maxCodeblockLength] at * <;> omega

theorem nofCodeblocksStep4_pos (tcr : ℚ) (ha : 3840 ≤ a) : 0 < nofCodeblocksStep4 a tcr := by
  rw [nofCodeblocksStep4_eq tcr ha]
  exact computeNofCodeblocks_pos _ _

/-- Equal code blocks with the size and its checksum, between the rounded number and what fits. -/
theorem sizeStep4_spec (tcr : ℚ) (ha : 3840 ≤ a) :
    8 * nofCodeblocksStep4 a tcr ∣ sizeStep4 a tcr + 24 ∧ a ≤ sizeStep4 a tcr ∧
      capacity (graphStep4 tcr) (nofCodeblocksStep4 a tcr - 1) < a + 24 ∧
      sizeStep4 a tcr + 24 ≤ capacity (graphStep4 tcr) (nofCodeblocksStep4 a tcr) := by
  have hspec := computeNofCodeblocks_spec a (graphStep4 tcr)
  rw [← nofCodeblocksStep4_eq tcr ha, tbBitsIn_of_le ha] at hspec
  have hpos := Nat.mul_pos (by decide : 0 < 8) (nofCodeblocksStep4_pos tcr ha)
  have hceil := le_divideCeil_mul (a + 24) hpos
  rw [mul_comm] at hceil
  have hsize : sizeStep4 a tcr + 24 =
      8 * nofCodeblocksStep4 a tcr * divideCeil (a + 24) (8 * nofCodeblocksStep4 a tcr) :=
    Nat.sub_add_cancel (by omega)
  obtain ⟨q, hq⟩ := dvd_capacity (graphStep4 tcr) (nofCodeblocksStep4 a tcr)
  refine ⟨hsize ▸ Dvd.intro _ rfl, by omega, hspec.1, ?_⟩
  rw [hq, mul_comm] at hspec
  rw [hsize, hq]
  exact Nat.mul_le_mul_left _ ((divideCeil_le_iff hpos).2 hspec.2)

/-- The segmentation finds the code blocks of the calculator. -/
theorem computeNofCodeblocks_sizeStep4 (tcr : ℚ) (ha : 3840 ≤ a) :
    computeNofCodeblocks (sizeStep4 a tcr) (graphStep4 tcr) = nofCodeblocksStep4 a tcr := by
  obtain ⟨-, hge, hlt, hle⟩ := sizeStep4_spec tcr ha
  obtain ⟨hlt', hle'⟩ := computeNofCodeblocks_spec (sizeStep4 a tcr) (graphStep4 tcr)
  rw [tbBitsIn_of_le (ha.trans hge)] at hlt' hle'
  exact le_antisymm (le_of_capacity hlt' hle) (le_of_capacity hlt (by omega))

/-- More code blocks hold more than the size before. -/
theorem sizeStep4_mono (tcr : ℚ) (ha : 3840 ≤ a) (hab : a ≤ b) :
    sizeStep4 a tcr ≤ sizeStep4 b tcr := by
  obtain ⟨-, -, hlt, hle⟩ := sizeStep4_spec tcr ha
  obtain ⟨-, hge', hlt', hle'⟩ := sizeStep4_spec tcr (ha.trans hab)
  have hfits := le_trans (by omega : a + 24 ≤ sizeStep4 b tcr + 24) hle'
  rcases Nat.lt_or_eq_of_le (le_of_capacity hlt hfits) with hC | hC
  · have hmono := capacity_mono (graphStep4 tcr) (Nat.le_sub_one_of_lt hC)
    omega
  · rw [sizeStep4, sizeStep4, hC]
    refine Nat.sub_le_sub_right (Nat.mul_le_mul_left _ (divideCeil_mono ?_ (by omega))) 24
    exact Nat.mul_pos (by decide) (nofCodeblocksStep4_pos tcr (ha.trans hab))

/-! ## Step 4 -/

/-- From this number of information bits on the product of step 4 wraps. -/
def nofInfoLimit : ℚ := 2 ^ 32 - 2 ^ 25 + 24

theorem floorLog2_le_of_lt_limit (hlt : x < nofInfoLimit) : floorLog2 (x - 24) ≤ 31 :=
  (floorLog2_mono (by linarith)).trans_eq
    (by decide +kernel : floorLog2 (nofInfoLimit - 24) = 31)

theorem nofInfoPrimeStep4_eq (hx : 3824 < x) (hlt : x < nofInfoLimit) :
    nofInfoPrimeStep4 x = max 3840 (2 ^ (floorLog2 (x - 24) - 5) *
      roundNat ((x - 24) / 2 ^ (floorLog2 (x - 24) - 5))) := by
  have hlog := floorLog2_le_of_lt_limit hlt
  rw [nofInfoLimit] at hlt
  have hn : (2 : ℚ) ^ (floorLog2 (x - 24) - 5) ≤ 2 ^ 26 :=
    pow_le_pow_right₀ one_le_two (by omega)
  rw [nofInfoPrimeStep4]
  generalize floorLog2 (x - 24) - 5 = n at hn ⊢
  have hround := Nat.floor_le (by
    have : 0 ≤ (x - 24) / 2 ^ n := div_nonneg (by linarith) (by positivity)
    linarith : 0 ≤ (x - 24) / 2 ^ n + 1 / 2)
  have hprod : (2 : ℚ) ^ n * roundNat ((x - 24) / 2 ^ n) ≤ (x - 24) + 2 ^ n / 2 := by
    calc (2 : ℚ) ^ n * roundNat ((x - 24) / 2 ^ n) ≤ 2 ^ n * ((x - 24) / 2 ^ n + 1 / 2) := by
          gcongr
          exact hround
      _ = (x - 24) + 2 ^ n / 2 := by field_simp
  have hbound : (2 : ℚ) ^ n * roundNat ((x - 24) / 2 ^ n) < 2 ^ 32 := by linarith
  have hnat : 2 ^ n * roundNat ((x - 24) / 2 ^ n) < 2 ^ 32 := by exact_mod_cast hbound
  simp only [Nat.mod_eq_of_lt hnat]

theorem nofInfoPrimeStep4_mono (hx : 3824 < x) (hxy : x ≤ y) (hy : y < nofInfoLimit) :
    nofInfoPrimeStep4 x ≤ nofInfoPrimeStep4 y := by
  rw [nofInfoPrimeStep4_eq hx (hxy.trans_lt hy), nofInfoPrimeStep4_eq (hx.trans_le hxy) hy]
  refine max_le_max_left 3840 (grid_mono (e := fun k => k - 5) roundNat_mono roundNat_natCast
    (fun i j h => ?_) (by linarith))
  omega

theorem tbsCalculator_cases (hpos : 0 < x) (hlt : x < nofInfoLimit) (tcr : ℚ) :
    ∃ tbs, tbsCalculator x tcr = some tbs ∧
      (x ≤ 3824 ∧ tbs ∈ tableValidTbs ∧ tbsCalculatorStep3 x = some tbs ∨
        3824 < x ∧ ∃ a, 3840 ≤ a ∧ nofInfoPrimeStep4 x = a ∧ tbs = sizeStep4 a tcr) := by
  rw [tbsCalculator]
  by_cases hx : x ≤ 3824
  · obtain ⟨tbs, hmem, htbs⟩ := tbsCalculatorStep3_spec hpos hx
    exact ⟨tbs, by rw [if_pos hx, htbs], .inl ⟨hx, hmem, htbs⟩⟩
  · have hlog := floorLog2_le_of_lt_limit hlt
    rw [if_neg hx, tbsCalculatorStep4, if_pos (by omega)]
    exact ⟨_, rfl, .inr ⟨not_le.1 hx, _, le_max_left _ _, rfl, rfl⟩⟩

theorem tbsCalculator_mono (hpos : 0 < x) (hxy : x ≤ y) (hy : y < nofInfoLimit) {tbs tbs' : Nat}
    (h : tbsCalculator x tcr = some tbs) (h' : tbsCalculator y tcr = some tbs') : tbs ≤ tbs' := by
  obtain ⟨t, ht, hcases⟩ := tbsCalculator_cases hpos (hxy.trans_lt hy) tcr
  obtain ⟨t', ht', hcases'⟩ := tbsCalculator_cases (hpos.trans_le hxy) hy tcr
  cases h.symm.trans ht
  cases h'.symm.trans ht'
  rcases hcases with ⟨-, hmem, hstep⟩ | ⟨hx, a, ha, rfl, rfl⟩
  · rcases hcases' with ⟨-, -, hstep'⟩ | ⟨-, b, hb, -, rfl⟩
    · exact tbsCalculatorStep3_mono hxy hstep hstep'
    · have hsize := (sizeStep4_spec tcr hb).2.1
      have htable := (mem_tableValidTbs hmem).2.2
      omega
  · rcases hcases' with ⟨hy', -⟩ | ⟨-, b, -, rfl, rfl⟩
    · exact absurd (hx.trans_le hxy) (not_lt.2 hy')
    · exact sizeStep4_mono tcr ha (nofInfoPrimeStep4_mono hx hxy hy)

/-- **Sizes fit the segmentation.** -/
theorem tbsCalculator_fits {nofInfo tcr : ℚ} (hpos : 0 < nofInfo) (hlimit : nofInfo < nofInfoLimit)
    (htcr : 0 < tcr ∧ tcr < 1) :
    ∃ tbs bg, tbsCalculator nofInfo tcr = some tbs ∧ getLdpcBaseGraph tcr tbs = some bg ∧
      8 ∣ tbs ∧ 24 ≤ tbs ∧
      -- monotone in the number of information bits
      (∀ nofInfo' tbs', nofInfo ≤ nofInfo' → nofInfo' < nofInfoLimit →
        tbsCalculator nofInfo' tcr = some tbs' → tbs ≤ tbs') ∧
      -- equal code blocks, as many as the calculator assumed
      computeNofCodeblocks tbs bg = assumedCodeblocks nofInfo tcr ∧
      (1 < computeNofCodeblocks tbs bg →
        8 * computeNofCodeblocks tbs bg ∣ tbs + computeTbCrcSize tbs) := by
  obtain ⟨tbs, htbs, hcases⟩ := tbsCalculator_cases hpos hlimit tcr
  have hmono : ∀ nofInfo' tbs', nofInfo ≤ nofInfo' → nofInfo' < nofInfoLimit →
      tbsCalculator nofInfo' tcr = some tbs' → tbs ≤ tbs' :=
    fun _ _ hle hlt => tbsCalculator_mono hpos hle hlt htbs
  rw [assumedCodeblocks]
  simp only [getLdpcBaseGraph, if_pos htcr]
  rcases hcases with ⟨hx, hmem, -⟩ | ⟨hx, a, ha, rfl, rfl⟩
  · obtain ⟨hdvd, hlow, hhigh⟩ := mem_tableValidTbs hmem
    have hC : ∀ bg, computeNofCodeblocks tbs bg = 1 := by
      intro bg
      have hbounds := maxCodeblockLength_bounds bg
      rw [computeNofCodeblocks, tbBitsIn, computeTbCrcSize, if_pos hhigh, if_pos (by omega)]
    refine ⟨tbs, _, htbs, (apply_ite some ..).symm, hdvd, hlow, hmono, ?_, fun h => ?_⟩
    · rw [hC, if_pos hx]
    · rw [hC] at h
      omega
  · obtain ⟨hdvd, hge, -⟩ := sizeStep4_spec tcr ha
    have h8 := (Dvd.intro _ rfl : 8 ∣ _).trans hdvd
    refine ⟨_, graphStep4 tcr, htbs, ?_, by omega, by omega, hmono, ?_, fun _ => ?_⟩
    · have hlarge : ¬ sizeStep4 (nofInfoPrimeStep4 nofInfo) tcr ≤ 292 ∧
          ¬ sizeStep4 (nofInfoPrimeStep4 nofInfo) tcr ≤ 3824 := by omega
      simp [graphStep4, apply_ite some, hlarge]
    · rw [computeNofCodeblocks_sizeStep4 tcr ha, if_neg (not_le.2 hx)]
    · rwa [computeNofCodeblocks_sizeStep4 tcr ha, computeTbCrcSize, if_neg (by omega)]

/-- At rate 1/5, 20000 information bits. -/
theorem tbsCalculator_fits_twentyThousand : ∃ tbs bg, tbsCalculator 20000 (1 / 5) = some tbs ∧
    computeNofCodeblocks tbs bg = assumedCodeblocks 20000 (1 / 5) := by
  obtain ⟨tbs, bg, htbs, -, -, -, -, hC, -⟩ := tbsCalculator_fits (by norm_num : (0 : ℚ) < 20000)
    (by norm_num [nofInfoLimit]) (by norm_num : (0 : ℚ) < 1 / 5 ∧ (1 / 5 : ℚ) < 1)
  exact ⟨tbs, bg, htbs, hC⟩

/-- One bit more, and a transport block of more than half a gigabyte shrinks to 480 bytes. -/
theorem tbsCalculator_wraps :
    tbsCalculator 4261412887 (1 / 2) = some 4227862368 ∧
      tbsCalculator 4261412888 (1 / 2) = some 3840 := by
  decide +kernel

end

end RadioStack.Phy
