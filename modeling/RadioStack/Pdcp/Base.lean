import Mathlib.Data.Nat.Bitwise

/-!
# COUNT values and security of a PDCP entity

What the transmitting and the receiving side of a PDCP entity share (`pdcp_entity_tx_rx_base`,
`pdcp_sn.h`): a COUNT is a 32-bit number made of a hyper frame number and a sequence number, only
the sequence number is on the wire, and the other side completes it relative to a COUNT it knows
(`estimateCount`). Both sides protect PDUs with a `security_engine_impl`, whose algorithms are
parameters here.

**Theorem (`estimateCount_lt_add`).** The completed COUNT is less than a window ahead of the known
one, except where the hyper frame number wraps below zero (`estimateCount_of_below`).
-/

namespace RadioStack.Pdcp

inductive SnSize where
  | size12bits
  | size18bits
  deriving DecidableEq

namespace SnSize

/-- `pdcp_sn_size_to_uint`. -/
def toUint : SnSize → Nat
  | size12bits => 12
  | size18bits => 18

/-- `pdcp_sn_cardinality`. -/
def cardinality (n : SnSize) : Nat := 1 <<< n.toUint

/-- `pdcp_window_size`. -/
def windowSize : SnSize → Nat
  | size12bits => 2048
  | size18bits => 131072

/-- `pdcp_data_pdu_header_size`. -/
def headerSize : SnSize → Nat
  | size12bits => 2
  | size18bits => 3

end SnSize

/-- `pdcp_compute_sn`. -/
def computeSn (n : SnSize) (count : Nat) : Nat := count &&& (0xffffffff >>> (32 - n.toUint))

/-- `pdcp_compute_hfn`. -/
def computeHfn (n : SnSize) (count : Nat) : Nat := count >>> n.toUint

/-- `pdcp_compute_count`. -/
def computeCount (n : SnSize) (hfn sn : Nat) : Nat := (hfn <<< n.toUint) % 2 ^ 32 ||| sn

/-- The COUNT with sequence number `sn` that belongs to the known COUNT `lower`, as in TS 38.323,
section 5.2.2. The hyper frame number is a `uint32_t` and wraps. -/
def estimateCount (n : SnSize) (lower sn : Nat) : Nat :=
  let hfn :=
    if (sn : Int) < (computeSn n lower : Int) - n.windowSize then
      (computeHfn n lower + 1) % 2 ^ 32
    else if computeSn n lower + n.windowSize ≤ sn then (computeHfn n lower + (2 ^ 32 - 1)) % 2 ^ 32
    else computeHfn n lower
  computeCount n hfn sn

section Count

variable (n : SnSize)

theorem windowSize_pos : 0 < n.windowSize := by cases n <;> decide

theorem cardinality_eq : n.cardinality = 2 * n.windowSize := by cases n <;> rfl

theorem cardinality_dvd : n.cardinality ∣ 2 ^ 32 := by cases n <;> decide

theorem two_mul_windowSize_le : 2 * n.windowSize ≤ 2 ^ 32 := by cases n <;> decide

theorem windowSize_dvd : n.windowSize ∣ 2 ^ 32 := by cases n <;> decide

theorem computeSn_eq (count : Nat) : computeSn n count = count % n.cardinality := by
  cases n
  · exact Nat.and_two_pow_sub_one_eq_mod count 12
  · exact Nat.and_two_pow_sub_one_eq_mod count 18

theorem computeHfn_eq (count : Nat) : computeHfn n count = count / n.cardinality := by
  rw [computeHfn, Nat.shiftRight_eq_div_pow, SnSize.cardinality, Nat.one_shiftLeft]

theorem computeSn_lt (count : Nat) : computeSn n count < n.cardinality := by
  rw [computeSn_eq]
  exact Nat.mod_lt _ (by have := windowSize_pos n; have := cardinality_eq n; omega)

variable {n} {hfn sn lower : Nat}

theorem computeCount_eq (hsn : sn < n.cardinality) :
    computeCount n hfn sn = hfn * n.cardinality % 2 ^ 32 + sn := by
  have hcard : n.cardinality = 2 ^ n.toUint := by rw [SnSize.cardinality, Nat.one_shiftLeft]
  obtain ⟨k, hk⟩ := hcard ▸ cardinality_dvd n
  rw [hcard] at hsn ⊢
  rw [computeCount, Nat.shiftLeft_eq, hk, Nat.mul_comm hfn, Nat.mul_mod_mul_left,
    ← Nat.two_pow_add_eq_or_of_lt hsn]

theorem computeCount_hfn_sn (hlower : lower < 2 ^ 32) :
    computeCount n (computeHfn n lower) (computeSn n lower) = lower := by
  have hdiv := Nat.div_add_mod lower n.cardinality
  rw [computeCount_eq (computeSn_lt n lower), computeHfn_eq, computeSn_eq, Nat.mul_comm,
    Nat.mod_eq_of_lt (by omega), hdiv]

/-- A sequence number a window or more above that of a COUNT in the first hyper frame. -/
def BelowWindow (n : SnSize) (lower sn : Nat) : Prop :=
  computeHfn n lower = 0 ∧ computeSn n lower + n.windowSize ≤ sn

instance : Decidable (BelowWindow n lower sn) := inferInstanceAs (Decidable (_ ∧ _))

/-- The hyper frame number wraps: the COUNT is one of the highest ones. -/
theorem estimateCount_of_below (hsn : sn < n.cardinality) (h : BelowWindow n lower sn) :
    estimateCount n lower sn = 2 ^ 32 - n.cardinality + sn := by
  obtain ⟨hhfn, hge⟩ := h
  have hnot : ¬ (sn : Int) < (computeSn n lower : Int) - n.windowSize := by omega
  rw [estimateCount]
  simp only [if_neg hnot, if_pos hge, hhfn]
  rw [computeCount_eq hsn]
  congr 1
  cases n <;> rfl

theorem estimateCount_lt_add (hlower : lower < 2 ^ 32) (hsn : sn < n.cardinality)
    (h : ¬ BelowWindow n lower sn) : estimateCount n lower sn < lower + n.windowSize := by
  have hcard := cardinality_eq n
  have hparts := computeCount_hfn_sn (n := n) hlower
  rw [computeCount_eq (computeSn_lt n lower)] at hparts
  have hmod : ∀ x, x % 2 ^ 32 ≤ x := fun x => Nat.mod_le x _
  have hhfn : computeHfn n lower * n.cardinality < 2 ^ 32 := by
    rw [computeHfn_eq]
    exact Nat.lt_of_le_of_lt (Nat.div_mul_le_self _ _) hlower
  rw [estimateCount]
  by_cases hlow : (sn : Int) < (computeSn n lower : Int) - n.windowSize
  · simp only [if_pos hlow]
    rw [computeCount_eq hsn]
    have hle : (computeHfn n lower + 1) % 2 ^ 32 * n.cardinality % 2 ^ 32 ≤
        computeHfn n lower * n.cardinality + n.cardinality :=
      calc _ ≤ (computeHfn n lower + 1) % 2 ^ 32 * n.cardinality := hmod _
        _ ≤ (computeHfn n lower + 1) * n.cardinality := Nat.mul_le_mul_right _ (hmod _)
        _ = _ := Nat.succ_mul _ _
    omega
  · simp only [if_neg hlow]
    by_cases hhigh : computeSn n lower + n.windowSize ≤ sn
    · rw [if_pos hhigh, computeCount_eq hsn]
      -- not in the first hyper frame: the previous one
      obtain ⟨k, hk⟩ : ∃ k, computeHfn n lower = k + 1 :=
        Nat.exists_eq_succ_of_ne_zero fun h0 => h ⟨h0, hhigh⟩
      rw [hk, Nat.succ_mul] at hhfn hparts
      have hwrap : (k + 1 + (2 ^ 32 - 1)) % 2 ^ 32 ≤ k := by
        rw [show k + 1 + (2 ^ 32 - 1) = k + 2 ^ 32 by omega, Nat.add_mod_right]
        exact hmod k
      have hle : (k + 1 + (2 ^ 32 - 1)) % 2 ^ 32 * n.cardinality % 2 ^ 32 ≤ k * n.cardinality :=
        Nat.le_trans (hmod _) (Nat.mul_le_mul_right _ hwrap)
      rw [hk]
      omega
    · rw [if_neg hhigh, computeCount_eq hsn, Nat.mod_eq_of_lt hhfn]
      omega

end Count

/-! ## Configuration -/

inductive RbType where
  | srb
  | drb
  deriving DecidableEq

inductive RlcMode where
  | um
  | am
  deriving DecidableEq

/-- COUNT values from which on the upper layers are notified and PDUs are refused. -/
structure MaxCount where
  notify : Nat
  hard : Nat
  notify_lt : notify < 2 ^ 32
  hard_lt : hard < 2 ^ 32

/-- `pdcp_tx_default_max_count_notify`, `pdcp_tx_default_max_count_hard`: also the defaults of the
receiver's configuration. -/
def MaxCount.default : MaxCount :=
  ⟨0xc0000000, 0xffffffff - 1, by decide, by decide⟩

/-! ## Security -/

inductive SecurityDirection where
  | uplink
  | downlink
  deriving DecidableEq

inductive SecDomain where
  | rrc
  | up
  deriving DecidableEq

inductive IntegrityAlgorithm where
  | nia0 | nia1 | nia2 | nia3
  deriving DecidableEq

inductive CipheringAlgorithm where
  | nea0 | nea1 | nea2 | nea3
  deriving DecidableEq

abbrev Sec128Key := Vector UInt8 16

structure Sec128AsConfig where
  domain : SecDomain
  k128Int : Option Sec128Key
  k128Enc : Sec128Key
  integAlgo : Option IntegrityAlgorithm
  cipherAlgo : CipheringAlgorithm
  deriving DecidableEq

inductive SecurityError where
  | bufferFailure
  | integrityFailure
  | cipheringFailure
  deriving DecidableEq

/-- The integrity and ciphering algorithms, for a key, bearer and direction. -/
structure Crypto where
  protectIntegrity : IntegrityAlgorithm → Sec128Key → Nat → SecurityDirection → List UInt8 → Nat →
    Except SecurityError (List UInt8)
  verifyIntegrity : IntegrityAlgorithm → Sec128Key → Nat → SecurityDirection → List UInt8 → Nat →
    Except SecurityError (List UInt8)
  applyCiphering : CipheringAlgorithm → Sec128Key → Nat → SecurityDirection → List UInt8 → Nat →
    Nat → Except SecurityError (List UInt8)

/-- Algorithms that leave every PDU as it is. -/
def noCrypto : Crypto :=
  { protectIntegrity := fun _ _ _ _ buf _ => .ok buf
    verifyIntegrity := fun _ _ _ _ buf _ => .ok buf
    applyCiphering := fun _ _ _ _ buf _ _ => .ok buf }

/-- `security_engine_impl`: which of the two engines exist, with their algorithms and keys. -/
structure SecurityEngine where
  bearerId : Nat
  direction : SecurityDirection
  integEng : Option (IntegrityAlgorithm × Sec128Key)
  cipherEng : Option (CipheringAlgorithm × Sec128Key)
  deriving DecidableEq

namespace SecurityEngine

variable (crypto : Crypto) (e : SecurityEngine)

variable (buf : List UInt8)

def protect (count : Nat) : Except SecurityError (List UInt8) :=
  match e.integEng with
  | some (algo, key) => crypto.protectIntegrity algo key e.bearerId e.direction buf count
  | none => .ok buf

def verify (count : Nat) : Except SecurityError (List UInt8) :=
  match e.integEng with
  | some (algo, key) => crypto.verifyIntegrity algo key e.bearerId e.direction buf count
  | none => .ok buf

def cipher (offset count : Nat) : Except SecurityError (List UInt8) :=
  match e.cipherEng with
  | some (algo, key) => crypto.applyCiphering algo key e.bearerId e.direction buf offset count
  | none => .ok buf

def encryptAndProtectIntegrity (offset count : Nat) :
    Except SecurityError (List UInt8) :=
  (e.protect crypto buf count).bind fun buf => e.cipher crypto buf offset count

def decryptAndVerifyIntegrity (offset count : Nat) :
    Except SecurityError (List UInt8) :=
  (e.cipher crypto buf offset count).bind fun buf => e.verify crypto buf count

end SecurityEngine

/-- Bearer of a PDCP entity: fixed when it is created. -/
structure Bearer where
  rbType : RbType
  rlcMode : RlcMode
  snSize : SnSize
  direction : SecurityDirection
  bearerId : Nat
  deriving DecidableEq

namespace Bearer

def isSrb (b : Bearer) : Bool := b.rbType == .srb

def isDrb (b : Bearer) : Bool := b.rbType == .drb

def isUm (b : Bearer) : Bool := b.rlcMode == .um

def isAm (b : Bearer) : Bool := b.rlcMode == .am

end Bearer

structure Security where
  secEngine : Option SecurityEngine := none
  integrityEnabled : Bool := false
  cipheringEnabled : Bool := false
  deriving DecidableEq

inductive Configured where
  /-- Logged and refused: the previous security stays. -/
  | refused
  | installed (security : Security)
  /-- An assertion on the domain or on SRB integrity fails. -/
  | assertion

/-- `configure_security` of both sides. The check for NIA0 only logs. -/
def configureSecurity (b : Bearer) (cfg : Sec128AsConfig) (integrity ciphering : Bool) :
    Configured :=
  if !((b.isSrb && cfg.domain == .rrc) || (b.isDrb && cfg.domain == .up)) then .assertion
  else
    let integEng : Option (Option (IntegrityAlgorithm × Sec128Key)) :=
      if integrity then
        match cfg.k128Int, cfg.integAlgo with
        | some key, some algo => some (some (algo, key))
        | _, _ => none
      else some none
    match integEng with
    | none => .refused
    | some integEng =>
      if !integrity && b.isSrb then .assertion
      else
        .installed
          { integrityEnabled := integrity
            cipheringEnabled := ciphering
            secEngine := some
              { bearerId := b.bearerId
                direction := b.direction
                integEng
                -- no engine for NEA0
                cipherEng :=
                  if ciphering && cfg.cipherAlgo != .nea0 then some (cfg.cipherAlgo, cfg.k128Enc)
                  else none } }

end RadioStack.Pdcp
