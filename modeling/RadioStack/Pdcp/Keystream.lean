import RadioStack.Pdcp.TxInvariant

/-!
# Use of COUNT values by the transmitting PDCP entity

The keystream of a PDU is determined by the key and the COUNT, so between two configurations of the
key a COUNT may protect only one SDU. `SecureTrace` states this of the calls an entity has made,
with two more facts: a retransmission uses the COUNT under which its SDU was sent first, and no
COUNT reaches the hard limit.

The invariant `Keyed` says that the COUNTs used with the current key are below TX_NEXT, and that the
window stores the SDUs they protected. Only a reset of TX_NEXT can break it: `reestablish` resets
the variables of SRBs and UM bearers before it configures the new key, and keeps the old key if the
configuration is refused.

**Theorem (`txEntity_keystream`).** In every run in which re-establishments that reset TX_NEXT
supply the key and algorithm of the enabled integrity protection, the calls are a `SecureTrace`.
`txEntity_keystream_reused` is a run without that condition.
-/

namespace RadioStack.Pdcp

/-! ## Traces -/

/-- `sdu` has been protected with COUNT `c` since the key was configured last. -/
def CurrentKey (as : List TxAction) (c : Nat) (sdu : List UInt8) : Prop :=
  ∃ seg, seg <:+ as ∧ .keyConfigured ∉ seg ∧ .secured c sdu ∈ seg

/-- The requirements on the calls of an entity. -/
structure SecureTrace (hard : Nat) (as : List TxAction) : Prop where
  /-- Between two configurations of the key a COUNT protects one SDU. -/
  unique : ∀ seg, seg <:+: as → .keyConfigured ∉ seg →
    ∀ c a b, .secured c a ∈ seg → .secured c b ∈ seg → a = b
  /-- A retransmitted SDU has been sent before, with the same COUNT. -/
  resent : ∀ before c sdu pdu, before ++ [.dataPdu c sdu pdu true] <+: as →
    ∃ pdu', .dataPdu c sdu pdu' false ∈ before
  secured_lt : ∀ c sdu, .secured c sdu ∈ as → c < hard
  dataPdu_lt : ∀ c sdu pdu isRetx, .dataPdu c sdu pdu isRetx ∈ as → c < hard

theorem secureTrace_nil (hard : Nat) : SecureTrace hard [] where
  unique seg hseg _ c a b ha := by
    rw [List.infix_nil.1 hseg] at ha
    cases ha
  resent before c sdu pdu h := by
    have := List.prefix_nil.1 h
    simp at this
  secured_lt := nofun
  dataPdu_lt := nofun

variable {sdu : List UInt8}

theorem not_currentKey_nil {c : Nat} : ¬ CurrentKey [] c sdu := by
  rintro ⟨seg, hseg, -, hmem⟩
  rw [List.suffix_nil.1 hseg] at hmem
  cases hmem

variable {hard c : Nat} {as : List TxAction} {a : TxAction} {sdu : List UInt8}

theorem currentKey_concat (h : CurrentKey (as ++ [a]) c sdu) :
    a ≠ .keyConfigured ∧ (a = .secured c sdu ∨ CurrentKey as c sdu) := by
  obtain ⟨seg, hseg, hkey, hmem⟩ := h
  rcases List.suffix_concat_iff.1 hseg with rfl | ⟨seg', rfl, hseg'⟩
  · cases hmem
  rw [List.mem_append, List.mem_singleton] at hkey hmem
  obtain ⟨hkey, hne⟩ := not_or.1 hkey
  refine ⟨Ne.symm hne, ?_⟩
  rcases hmem with hmem | hmem
  · exact .inr ⟨seg', hseg', hkey, hmem⟩
  · exact .inl hmem.symm

theorem SecureTrace.currentKey_unique (h : SecureTrace hard as) {b b' : List UInt8}
    (hb : CurrentKey as c b) (hb' : CurrentKey as c b') : b = b' := by
  obtain ⟨seg, hseg, hkey, hmem⟩ := hb
  obtain ⟨seg', hseg', hkey', hmem'⟩ := hb'
  -- of two ends of the trace, the longer one contains the other
  rcases List.suffix_or_suffix_of_suffix hseg hseg' with hle | hle
  · exact h.unique seg' hseg'.isInfix hkey' c b b' (hle.subset hmem) hmem'
  · exact h.unique seg hseg.isInfix hkey c b b' hmem (hle.subset hmem')

/-- What may be called after `as`, where `f` says which SDU each COUNT may protect. -/
def Permitted (hard : Nat) (f : Nat → List UInt8 → Prop) (as : List TxAction) : TxAction → Prop
  | .secured c sdu => c < hard ∧ f c sdu
  | .dataPdu c sdu _ isRetx => c < hard ∧ (isRetx → ∃ pdu, .dataPdu c sdu pdu false ∈ as)
  | _ => True

section Append

variable {f : Nat → List UInt8 → Prop}

theorem currentKey_permitted (hcur : ∀ c a, CurrentKey as c a → f c a)
    (ha : Permitted hard f as a) (h : CurrentKey (as ++ [a]) c sdu) : f c sdu := by
  rcases (currentKey_concat h).2 with rfl | h
  · exact ha.2
  · exact hcur c sdu h

theorem Permitted.mono {as' : List TxAction} (h : Permitted hard f as a) (hsub : as ⊆ as') :
    Permitted hard f as' a := by
  cases a with
  | dataPdu c sdu pdu isRetx => exact ⟨h.1, fun hr => (h.2 hr).imp fun _ hm => hsub hm⟩
  | secured c sdu => exact h
  | _ => trivial

variable (hf : ∀ c a b, f c a → f c b → a = b)

include hf

theorem SecureTrace.concat (h : SecureTrace hard as) (hcur : ∀ c a, CurrentKey as c a → f c a)
    (ha : Permitted hard f as a) : SecureTrace hard (as ++ [a]) where
  unique seg hseg hkey c b b' hb hb' := by
    rcases List.infix_concat_iff.1 hseg with hseg | hseg
    · have hcase : ∀ b, .secured c b ∈ seg → f c b := fun b hb => by
        rcases (currentKey_concat ⟨seg, hseg, hkey, hb⟩).2 with rfl | hcur'
        · exact ha.2
        · exact hcur c b hcur'
      exact hf c b b' (hcase b hb) (hcase b' hb')
    · exact h.unique seg hseg hkey c b b' hb hb'
  resent before c sdu pdu hpre := by
    rcases List.prefix_concat_iff.1 hpre with heq | hpre
    · obtain ⟨rfl, hlast⟩ := List.append_inj' heq rfl
      obtain rfl := List.singleton_inj.1 hlast
      exact ha.2 rfl
    · exact h.resent before c sdu pdu hpre
  secured_lt c sdu hmem := by
    rcases List.mem_append.1 hmem with hmem | hmem
    · exact h.secured_lt c sdu hmem
    · obtain rfl := List.mem_singleton.1 hmem
      exact ha.1
  dataPdu_lt c sdu pdu isRetx hmem := by
    rcases List.mem_append.1 hmem with hmem | hmem
    · exact h.dataPdu_lt c sdu pdu isRetx hmem
    · obtain rfl := List.mem_singleton.1 hmem
      exact ha.1

theorem SecureTrace.append {bs : List TxAction} (h : SecureTrace hard as)
    (hcur : ∀ c a, CurrentKey as c a → f c a) (hbs : ∀ b ∈ bs, Permitted hard f as b) :
    SecureTrace hard (as ++ bs) ∧ ∀ c a, CurrentKey (as ++ bs) c a → f c a := by
  induction bs generalizing as with
  | nil =>
    rw [List.append_nil]
    exact ⟨h, hcur⟩
  | cons b bs ih =>
    have hb := hbs b List.mem_cons_self
    rw [← List.singleton_append, ← List.append_assoc]
    refine ih (h.concat hf hcur hb) (fun c a => currentKey_permitted hcur hb) fun b' hb' => ?_
    exact (hbs b' (List.mem_cons_of_mem b hb')).mono (List.subset_append_left _ _)

end Append

theorem permitted_of_not_keyed {f : Nat → List UInt8 → Prop} (h : TxEntity.keyed a = false) :
    Permitted hard f as a := by
  cases a with
  | secured => cases h
  | dataPdu => cases h
  | _ => trivial

namespace TxEntity

variable {cfg : TxConfig} {s t : TxEntity cfg}

/-! ## Invariant -/

/-- The COUNTs used with the current key are below TX_NEXT and protected the SDUs of the window. -/
structure Keyed (s : TxEntity cfg) : Prop where
  inv : s.Inv
  le_hard : s.txNext ≤ cfg.maxCount.hard
  trace : SecureTrace cfg.maxCount.hard s.actions
  current : ∀ c sdu, CurrentKey s.actions c sdu → c < s.txNext ∧
    ∀ info, s.txWindow.get? c = some info → cfg.isAm → info.sdu = sdu
  first : cfg.isAm → ∀ c info, s.txWindow.get? c = some info →
    ∃ pdu, .dataPdu c info.sdu pdu false ∈ s.actions

theorem keyed_init : Keyed ({} : TxEntity cfg) where
  inv := inv_init
  le_hard := Nat.zero_le _
  trace := secureTrace_nil _
  current _ _ h := absurd h not_currentKey_nil
  first _ := nofun

theorem Keyed.quiet (h : Keyed s) (hq : Quiet s t) : Keyed t := by
  obtain ⟨as, has, hkeyed⟩ := hq.actions
  obtain ⟨htrace, hcur⟩ := h.trace.append (f := CurrentKey s.actions)
    (fun _ _ _ => h.trace.currentKey_unique) (fun _ _ hc => hc)
    (fun a ha => permitted_of_not_keyed (hkeyed a ha))
  rw [← has] at htrace hcur
  refine ⟨hq.inv, hq.next ▸ h.le_hard, htrace, fun c sdu hc => ?_, fun ham c info hget => ?_⟩
  · obtain ⟨hlt, hstored⟩ := h.current c sdu (hcur c sdu hc)
    exact ⟨hq.next ▸ hlt, fun info hget => hstored info (hq.window c info hget)⟩
  · obtain ⟨pdu, hmem⟩ := h.first ham c info (hq.window c info hget)
    exact ⟨pdu, has ▸ List.mem_append_left _ hmem⟩

/-- The SDUs that COUNTs may protect when `c` gets `sdu`. -/
def Extend (s : TxEntity cfg) (c : Nat) (sdu : List UInt8) (c' : Nat) (sdu' : List UInt8) : Prop :=
  CurrentKey s.actions c' sdu' ∨ (c' = c ∧ sdu' = sdu)

theorem Keyed.extend_unique (h : Keyed s) (hc : ∀ sdu', CurrentKey s.actions c sdu' → sdu' = sdu)
    (c' : Nat) (a b : List UInt8) (ha : Extend s c sdu c' a) (hb : Extend s c sdu c' b) :
    a = b := by
  rcases ha with ha | ⟨rfl, rfl⟩ <;> rcases hb with hb | ⟨hcc, rfl⟩
  · exact h.trace.currentKey_unique ha hb
  · subst hcc
    exact hc a ha
  · exact (hc b hb).symm
  · rfl

theorem Keyed.sent (h : Keyed s) (hsent : Sent s sdu t) : Keyed t := by
  obtain ⟨as, pdu, as', has, hkeyed, hkeyed'⟩ := hsent.actions
  rw [List.append_assoc] at has
  have hfresh : ∀ sdu', CurrentKey s.actions s.txNext sdu' → sdu' = sdu := fun sdu' hc =>
    absurd (h.current _ sdu' hc).1 (Nat.lt_irrefl _)
  have hpermitted : ∀ a ∈ as ++ .dataPdu s.txNext sdu pdu false :: as',
      Permitted cfg.maxCount.hard (Extend s s.txNext sdu) s.actions a := by
    intro a ha
    rcases List.mem_append.1 ha with ha | ha
    · rcases hkeyed a ha with hka | rfl
      · exact permitted_of_not_keyed hka
      · exact ⟨hsent.lt_hard, .inr ⟨rfl, rfl⟩⟩
    · rcases List.mem_cons.1 ha with rfl | ha
      · exact ⟨hsent.lt_hard, nofun⟩
      · exact permitted_of_not_keyed (hkeyed' a ha)
  obtain ⟨htrace, hcur⟩ := h.trace.append (h.extend_unique hfresh) (fun _ _ hc => .inl hc)
    hpermitted
  rw [← has] at htrace hcur
  refine ⟨hsent.inv, hsent.next ▸ hsent.lt_hard, htrace, fun c sdu' hc => ?_,
    fun ham c info hget => ?_⟩
  · rw [hsent.next]
    rcases hcur c sdu' hc with hc | ⟨rfl, rfl⟩
    · obtain ⟨hlt, hstored⟩ := h.current c sdu' hc
      refine ⟨Nat.lt_succ_of_lt hlt, fun info hget ham => ?_⟩
      rcases hsent.window c info hget with ⟨rfl, -⟩ | hget
      · exact absurd hlt (Nat.lt_irrefl _)
      · exact hstored info hget ham
    · refine ⟨Nat.lt_succ_self _, fun info hget ham => ?_⟩
      rcases hsent.window _ info hget with ⟨-, hinfo⟩ | hget
      · rw [hinfo, if_pos ham]
      · exact absurd (h.inv.entry _ info hget).2.2 (Nat.lt_irrefl _)
  · rw [has]
    rcases hsent.window c info hget with ⟨rfl, hinfo⟩ | hget
    · rw [hinfo, if_pos ham]
      exact ⟨pdu, List.mem_append_right _ (List.mem_append_right _ List.mem_cons_self)⟩
    · obtain ⟨pdu', hmem⟩ := h.first ham c info hget
      exact ⟨pdu', List.mem_append_left _ hmem⟩

/-- One call that concerns a stored SDU of an acknowledged bearer. -/
theorem Keyed.act_stored {c : Nat} {info : TxSduInfo} {a : TxAction} (h : Keyed s)
    (ham : cfg.isAm) (hget : s.txWindow.get? c = some info)
    (ha : Permitted cfg.maxCount.hard (Extend s c info.sdu) s.actions a) : Keyed (s.act a) := by
  have hstored : ∀ sdu', CurrentKey s.actions c sdu' → sdu' = info.sdu := fun sdu' hc =>
    ((h.current c sdu' hc).2 info hget ham).symm
  have hf := h.extend_unique hstored
  refine ⟨h.inv.act a, h.le_hard, h.trace.concat hf (fun _ _ hc => .inl hc) ha,
    fun c' sdu' hc => ?_, fun ham c' info' hget' => ?_⟩
  · rcases currentKey_permitted (fun _ _ hc => .inl hc) ha hc with hc | ⟨rfl, rfl⟩
    · exact h.current c' sdu' hc
    · refine ⟨(h.inv.entry c' info hget).2.2, fun info' hget' _ => ?_⟩
      obtain rfl := Option.some.inj (hget.symm.trans hget')
      rfl
  · obtain ⟨pdu, hmem⟩ := h.first ham c' info' hget'
    exact ⟨pdu, List.mem_append_left _ hmem⟩

variable {crypto : Crypto}

theorem Keyed.retransmitAllPdus {mem : Nat → Memory} (h : Keyed s) (ham : cfg.isAm) :
    Ensures External Keyed (s.retransmitAllPdus crypto mem) := by
  have hlt : ∀ {u : TxEntity cfg} {c info}, Keyed u → u.txWindow.get? c = some info →
      info.count = c ∧ c < cfg.maxCount.hard := fun hu hget =>
    have hentry := hu.inv.entry _ _ hget
    ⟨hentry.1, Nat.lt_of_lt_of_le hentry.2.2 hu.le_hard⟩
  refine retransmitAllPdus_ensures crypto mem (fun u hu => hu.quiet (.act hu.inv rfl))
    (fun u c info hu hget => ?_) (fun u c info pdu hu hget => ?_) h
    ⟨h.inv.back, h.le_hard, h.trace, h.current, h.first⟩
  · obtain ⟨rfl, hc⟩ := hlt hu hget
    exact hu.act_stored ham hget ⟨hc, .inr ⟨rfl, rfl⟩⟩
  · obtain ⟨rfl, hc⟩ := hlt hu hget
    exact hu.act_stored ham hget ⟨hc, fun _ => hu.first ham _ info hget⟩

/-! ## Configuration of the key -/

/-- With a new key no COUNT has been used. -/
theorem Keyed.keyConfigured (hinv : s.Inv) (hhard : s.txNext ≤ cfg.maxCount.hard)
    (htrace : SecureTrace cfg.maxCount.hard s.actions)
    (hfirst : cfg.isAm → ∀ c info, s.txWindow.get? c = some info →
      ∃ pdu, .dataPdu c info.sdu pdu false ∈ s.actions) (security : Security) :
    Keyed ({ s.act .keyConfigured with security } : TxEntity cfg) where
  inv := ⟨hinv.ack_le, hinv.trans_le, hinv.bound, hinv.entry⟩
  le_hard := hhard
  trace := htrace.concat (f := CurrentKey s.actions) (fun _ _ _ => htrace.currentKey_unique)
    (fun _ _ hc => hc) trivial
  current _ _ hc := absurd rfl (currentKey_concat hc).1
  first ham c info hget :=
    (hfirst ham c info hget).imp fun _ hmem => List.mem_append_left _ hmem

theorem Keyed.configure {sec : Sec128AsConfig} {integrity ciphering : Bool} (h : Keyed s) :
    Ensures External Keyed (s.configure sec integrity ciphering) := by
  refine (configure_ensures s sec integrity ciphering).mono fun t ht => ?_
  rcases ht with rfl | ⟨security, rfl⟩
  · exact h
  · exact Keyed.keyConfigured h.inv h.le_hard h.trace h.first security

/-- The configuration has what the enabled integrity protection needs. -/
def Sufficient (sec : Sec128AsConfig) (integrity : Bool) : Prop :=
  integrity → sec.k128Int.isSome ∧ sec.integAlgo.isSome

instance (sec : Sec128AsConfig) (integrity : Bool) : Decidable (Sufficient sec integrity) :=
  inferInstanceAs (Decidable (_ → _))

/-- A sufficient configuration is not refused. -/
theorem configure_sufficient {sec : Sec128AsConfig} {integrity ciphering : Bool}
    (h : Sufficient sec integrity) :
    Ensures External (fun t => ∃ security, t = { s.act .keyConfigured with security })
      (s.configure sec integrity ciphering) := by
  rw [TxEntity.configure, configureSecurity]
  split
  · next hassert =>
    split at hassert
    all_goals exact .inr rfl
  · next hrefused =>
    exfalso
    split at hrefused
    · cases hrefused
    cases integrity with
    | false => simp at hrefused; split at hrefused <;> cases hrefused
    | true =>
      obtain ⟨key, hkey⟩ := Option.isSome_iff_exists.1 (h rfl).1
      obtain ⟨algo, halgo⟩ := Option.isSome_iff_exists.1 (h rfl).2
      simp [hkey, halgo] at hrefused
  · next security _ => exact ⟨security, rfl⟩

/-! ## Steps and runs -/

/-- Re-establishments that reset TX_NEXT come with a sufficient configuration. -/
def KeySupplied (s : TxEntity cfg) : Event → Prop
  | .reestablish sec _ =>
    (cfg.isSrb || cfg.isUm) → Sufficient sec s.security.integrityEnabled
  | _ => True

instance (s : TxEntity cfg) (e : Event) : Decidable (s.KeySupplied e) :=
  match e with
  | .reestablish _ _ => inferInstanceAs (Decidable (_ → _))
  | .sdu _ _ | .transmitNotification _ | .deliveryNotification _ | .retransmitNotification _
  | .statusReport _ | .discardExpiry _ | .dataRecovery _ _ | .configureSecurity _ _ _ =>
    isTrue trivial

theorem Keyed.handle {e : Event} (h : Keyed s) (he : s.KeySupplied e) :
    Ensures External Keyed (s.handle crypto e) := by
  have hquiet : ∀ {x : Except TxFault (TxEntity cfg)}, (∃ t, x = .ok t ∧ Quiet s t) →
      Ensures External Keyed x := by
    rintro _ ⟨t, rfl, hq⟩
    exact h.quiet hq
  cases e with
  | sdu sdu mem =>
    refine (handleSdu_ensures crypto h.inv sdu mem).mono fun t ht => ?_
    rcases ht with hq | hsent
    · exact h.quiet hq
    · exact h.sent hsent
  | transmitNotification sn => exact hquiet (handleTransmitNotification_quiet h.inv sn)
  | deliveryNotification sn => exact hquiet (handleDeliveryNotification_quiet h.inv sn)
  | retransmitNotification sn => exact h
  | statusReport status => exact hquiet (handleStatusReport_quiet h.inv status)
  | discardExpiry count => exact hquiet (discardPdu_quiet h.inv count)
  | dataRecovery statusReport mem =>
    refine .ite (fun _ => .inr rfl) fun ham => ?_
    have ham : cfg.isDrb = true ∧ cfg.isAm = true := by simpa using ham
    refine Keyed.retransmitAllPdus ?_ ham.2
    split
    · exact h.quiet (.act h.inv rfl)
    · exact h
  | configureSecurity sec integrity ciphering => exact h.configure
  | reestablish sec mem =>
    have hconfigured : ∀ u, Ensures External Keyed u → Ensures External Keyed (u.bind fun t =>
        if cfg.isAm then t.retransmitAllPdus crypto mem else .ok t) := fun u hu =>
      hu.bind fun t ht => .ite (fun ham => ht.retransmitAllPdus ham) fun _ => ht
    refine hconfigured _ ?_
    by_cases hreset : (cfg.isSrb || cfg.isUm) = true
    · rw [if_pos hreset]
      refine (configure_sufficient (he hreset)).mono ?_
      rintro _ ⟨security, rfl⟩
      exact Keyed.keyConfigured h.inv.reset (Nat.zero_le _) h.trace nofun
        security
    · rw [if_neg hreset]
      exact h.configure

theorem Keyed.step {e : Event} (h : Keyed s) (he : s.KeySupplied e)
    (hstep : s.step crypto e = some t) : Keyed t := by
  rw [TxEntity.step] at hstep
  split_ifs at hstep
  exact (h.handle he).of_ok (toOption_eq_some.1 hstep)

/-- **One SDU for each key and COUNT.** -/
theorem txEntity_keystream {crypto : Crypto} {es : List Event} {s : TxEntity cfg}
    (hrun : Run (fun s e t => TxEntity.step crypto s e = some t ∧ s.KeySupplied e)
      ({} : TxEntity cfg) es s) :
    SecureTrace cfg.maxCount.hard s.actions :=
  (hrun.invariant (P := Keyed) (fun _ _ _ h hstep => h.step hstep.2 hstep.1) keyed_init).trace

/-! ## Refused keys -/

/-- A signalling radio bearer. -/
def srbConfig : TxConfig where
  rbType := .srb
  rlcMode := .am
  snSize := .size12bits
  direction := .downlink
  bearerId := 1
  discardTimer := none
  statusReportRequired := false
  maxCount := .default
  rlcSduQueue := 4096
  testMode := false
  srb_ok _ := ⟨rfl, rfl⟩

def srbKeys (integ : IntegrityAlgorithm) (cipher : CipheringAlgorithm) : Sec128AsConfig where
  domain := .rrc
  k128Int := some (.replicate 16 1)
  k128Enc := .replicate 16 2
  integAlgo := some integ
  cipherAlgo := cipher

/-- Two SDUs with a re-establishment between them. -/
def reestablished (keys keys' : Sec128AsConfig) : List Event :=
  [.configureSecurity keys true true, .sdu [1] {}, .reestablish keys' (fun _ => {}), .sdu [2] {}]

/-- Algorithms that never fail. -/
def totalCrypto
    (mac : IntegrityAlgorithm → Sec128Key → Nat → SecurityDirection → List UInt8 → Nat → List UInt8)
    (stream : CipheringAlgorithm → Sec128Key → Nat → SecurityDirection → List UInt8 → Nat → Nat →
      List UInt8) : Crypto where
  protectIntegrity algo key bearer direction buf count :=
    .ok (mac algo key bearer direction buf count)
  verifyIntegrity _ _ _ _ _ _ := .error .integrityFailure
  applyCiphering algo key bearer direction buf offset count :=
    .ok (stream algo key bearer direction buf offset count)

/-- Without integrity key TX_NEXT starts again at 0 and the old key stays, whatever the algorithms
are. -/
theorem reestablished_without_key (mac stream) (integ : IntegrityAlgorithm)
    (cipher : CipheringAlgorithm) :
    ∃ s pdu pdu', exec (TxEntity.step (totalCrypto mac stream)) ({} : TxEntity srbConfig)
        (reestablished (srbKeys integ cipher) { srbKeys integ cipher with k128Int := none }) =
          some s ∧
      s.actions = [.keyConfigured, .secured 0 [1], .dataPdu 0 [1] pdu false, .secured 0 [2],
        .dataPdu 0 [2] pdu' false] := by
  cases cipher with
  | nea0 | nea1 | nea2 | nea3 => exact ⟨_, _, _, rfl, rfl⟩

/-- The null algorithms: NIA0 appends zeros, there is no engine for NEA0. -/
def nullCrypto : Crypto :=
  totalCrypto (fun _ _ _ _ buf _ => buf ++ [0, 0, 0, 0]) fun _ _ _ _ buf _ _ => buf

/-- COUNT 0 protects two SDUs with one key. -/
theorem txEntity_keystream_reused :
    ∃ s : TxEntity srbConfig,
      Run (fun s e t => TxEntity.step nullCrypto s e = some t) ({} : TxEntity srbConfig)
        (reestablished (srbKeys .nia0 .nea0) { srbKeys .nia0 .nea0 with k128Int := none }) s ∧
      (∃ pdu pdu', s.actions = [.keyConfigured, .secured 0 [1], .dataPdu 0 [1] pdu false,
        .secured 0 [2], .dataPdu 0 [2] pdu' false]) ∧
      ¬ SecureTrace srbConfig.maxCount.hard s.actions := by
  obtain ⟨s, pdu, pdu', hs, hactions⟩ := reestablished_without_key
    (fun _ _ _ _ buf _ => buf ++ [0, 0, 0, 0]) (fun _ _ _ _ buf _ _ => buf) .nia0 .nea0
  refine ⟨s, run_of_exec hs, ⟨pdu, pdu', hactions⟩, fun h => ?_⟩
  rw [hactions] at h
  have hsame := h.unique [.secured 0 [1], .dataPdu 0 [1] pdu false, .secured 0 [2]]
    ⟨[.keyConfigured], [.dataPdu 0 [2] pdu' false], rfl⟩ (by simp) 0 [1] [2] (by simp) (by simp)
  simp at hsame

/-- With keys both SDUs get COUNT 0, with different keys. -/
theorem txEntity_keystream_rekeyed :
    ∃ s : TxEntity srbConfig,
      Run (fun s e t => TxEntity.step nullCrypto s e = some t ∧ s.KeySupplied e)
        ({} : TxEntity srbConfig)
        (reestablished (srbKeys .nia0 .nea0) (srbKeys .nia0 .nea0)) s ∧
      s.actions = [.keyConfigured, .secured 0 [1], .dataPdu 0 [1] [0, 0, 1, 0, 0, 0, 0] false,
        .keyConfigured, .secured 0 [2], .dataPdu 0 [2] [0, 0, 2, 0, 0, 0, 0] false] ∧
      SecureTrace srbConfig.maxCount.hard s.actions := by
  have hexec : (exec (guarded (TxEntity.step nullCrypto) KeySupplied) ({} : TxEntity srbConfig)
      (reestablished (srbKeys .nia0 .nea0) (srbKeys .nia0 .nea0))).map actions =
      some [.keyConfigured, .secured 0 [1], .dataPdu 0 [1] [0, 0, 1, 0, 0, 0, 0] false,
        .keyConfigured, .secured 0 [2], .dataPdu 0 [2] [0, 0, 2, 0, 0, 0, 0] false] := by
    decide +kernel
  obtain ⟨s, hs, hactions⟩ := Option.map_eq_some_iff.1 hexec
  have hrun := run_of_guarded hs
  exact ⟨s, hrun, hactions, txEntity_keystream hrun⟩

end TxEntity

end RadioStack.Pdcp
