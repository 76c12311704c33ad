import RadioStack.Lib.Outcome
import RadioStack.Pdcp.RxEntity

/-!
# What the receiver's functions leave alone

Delivering SDUs and handling t-Reordering only takes SDUs out of the window and passes them on:
`Popped s t`. A PDU that is placed is stored first and nothing else is new (`placeSdu_changed`), and
the checks before that only raise flags and notify the upper layers (`Warned`). With this, whatever
a step does is one of three things (`changed_of_step`), and an invariant of the receiver follows
without looking into the loops again. -/

namespace RadioStack.Pdcp.RxEntity

variable {cfg : RxConfig} {s t u : RxEntity cfg}

/-! ## Delivery -/

/-- From `s` to `t` SDUs may have left the window, and those that are passed on are appended to the
delivered ones. -/
structure Popped (s t : RxEntity cfg) : Prop where
  next : t.rxNext = s.rxNext
  deliv_lt : s.rxDeliv < 2 ^ 32 → t.rxDeliv < 2 ^ 32
  window : ∀ c info, t.rxWindow.get? c = some info → s.rxWindow.get? c = some info
  delivered : s.delivered.length ≤ t.delivered.length
  /-- An SDU only leaves the window to be delivered. -/
  kept : ∀ c, s.rxWindow.contains c → t.rxWindow.contains c ∨
    s.delivered.length < t.delivered.length
  security : t.security = s.security
  notified : t.maxCountNotified = s.maxCountNotified
  overflow : t.maxCountOverflow = s.maxCountOverflow
  notifications : t.notifications = s.notifications

namespace Popped

theorem refl (s : RxEntity cfg) : Popped s s :=
  ⟨rfl, id, fun _ _ => id, Nat.le_refl _, fun _ => .inl, rfl, rfl, rfl, rfl⟩

theorem trans (h : Popped s t) (h' : Popped t u) : Popped s u where
  next := h'.next.trans h.next
  deliv_lt := h'.deliv_lt ∘ h.deliv_lt
  window := fun c info hc => h.window c info (h'.window c info hc)
  delivered := Nat.le_trans h.delivered h'.delivered
  kept := by
    intro c hc
    rcases h.kept c hc with hc | hlt
    · exact (h'.kept c hc).imp_right (Nat.lt_of_le_of_lt h.delivered)
    · exact .inr (Nat.lt_of_lt_of_le hlt h'.delivered)
  security := h'.security.trans h.security
  notified := h'.notified.trans h.notified
  overflow := h'.overflow.trans h.overflow
  notifications := h'.notifications.trans h.notifications

theorem retime (h : Popped s t) (reord : Nat) (timer : Bool) :
    Popped s { t with rxReord := reord, reorderingTimer := timer } := { h with }

end Popped

variable (cfg) in
/-- The loop bodies: an entry is passed on or the state stays. -/
def Pops (body : CircularMap cfg.snSize.windowSize RxSduInfo × List (Nat × RxSduInfo) → Nat →
    Option (CircularMap cfg.snSize.windowSize RxSduInfo × List (Nat × RxSduInfo))) : Prop :=
  ∀ p cur p', body p cur = some p' → p' = p ∨ CircularMap.popNext p cur = some p'

theorem pops_popNext : Pops cfg CircularMap.popNext := fun _ _ _ h => .inr h

theorem pops_popAny : Pops cfg CircularMap.popAny := by
  intro p cur p' h
  cases h
  cases hn : CircularMap.popNext p cur with
  | none => exact .inl rfl
  | some q => exact .inr rfl

theorem popped_popNext {p : CircularMap cfg.snSize.windowSize RxSduInfo × List (Nat × RxSduInfo)}
    {cur : Nat} (hp : Popped s { s with rxWindow := p.1, delivered := p.2 })
    {p' : CircularMap cfg.snSize.windowSize RxSduInfo × List (Nat × RxSduInfo)}
    (h : CircularMap.popNext p cur = some p') :
    Popped s { s with rxWindow := p'.1, delivered := p'.2 } := by
  obtain ⟨info, hget, rfl⟩ := Option.map_eq_some_iff.1 h
  have hlen : s.delivered.length ≤ p.2.length := hp.delivered
  have hgrown : s.delivered.length < (p.2 ++ [(cur, info)]).length := by
    rw [List.length_append]
    exact Nat.lt_succ_of_le hlen
  refine { hp with
    window := fun c info' hc => hp.window c info' ?_
    delivered := Nat.le_of_lt hgrown
    kept := fun _ _ => .inr hgrown }
  simp only [CircularMap.get?_erase] at hc
  split_ifs at hc
  exact hc

/-- Induction over the rounds of a delivery loop. -/
theorem deliverUntil_popped {body} (hbody : Pops cfg body) (fuel stop : Nat) :
    Ensures (fun _ => True) (Popped s) (s.deliverUntil body fuel stop) := by
  have hloop : ∀ fuel p cur r, Popped s { s with rxWindow := p.1, delivered := p.2 } →
      loopUntil (2 ^ 32) stop body fuel p cur = some r →
      Popped s { s with rxWindow := r.1.1, delivered := r.1.2 } := by
    intro fuel
    induction fuel with
    | zero =>
      intro p cur r hp hr
      rw [loopUntil] at hr
      split_ifs at hr
      cases hr
      exact hp
    | succ fuel ih =>
      intro p cur r hp hr
      rw [loopUntil] at hr
      split at hr
      · cases hr
        exact hp
      · split at hr
        · next p' hb =>
          refine ih p' _ r ?_ hr
          rcases hbody p cur p' hb with rfl | hpop
          · exact hp
          · exact popped_popNext hp hpop
        · cases hr
          exact hp
  rw [deliverUntil]
  cases hr : loopUntil (2 ^ 32) stop body fuel (s.rxWindow, s.delivered) s.rxDeliv with
  | none => trivial
  | some r =>
    have hp := hloop fuel _ _ r (.refl s) hr
    exact { hp with deliv_lt := fun hlt => loopUntil_lt hr hlt }

theorem handleTReorderingExpire_popped (s : RxEntity cfg) :
    Ensures (fun _ => True) (Popped s) s.handleTReorderingExpire := by
  refine (deliverUntil_popped pops_popAny _ _).bind fun t ht =>
    (deliverUntil_popped pops_popNext _ _).bind fun u hu => ?_
  refine .ite (fun _ => .ite (fun _ => ht.trans hu) fun _ => ?_) fun _ => ht.trans hu
  exact (ht.trans hu).retime _ _

theorem updateReorderingTimer_popped (s : RxEntity cfg) :
    Ensures (fun _ => True) (Popped s) s.updateReorderingTimer := by
  have hstop : Popped s (if s.reorderingTimer && s.rxReord ≤ s.rxDeliv then
      { s with reorderingTimer := false } else s) := by
    split
    · exact (Popped.refl s).retime _ _
    · exact .refl s
  refine .ite (fun _ => hstop) fun _ => .ite (fun _ => ?_) fun _ =>
    .ite (fun _ => ?_) fun _ => hstop
  · exact (handleTReorderingExpire_popped _).mono fun t ht => (hstop.retime _ _).trans ht
  · exact hstop.retime _ _

/-! ## Placing a PDU -/

/-- An SDU is stored, then SDUs are delivered. -/
theorem place_popped (c : Nat) (sdu : List UInt8) (s : RxEntity cfg) :
    Ensures (fun _ => True) (Popped (s.storeSdu c sdu)) (placeSdu.place c sdu s) := by
  refine .ite (fun _ => ?_) fun _ => updateReorderingTimer_popped _
  exact (deliverUntil_popped pops_popNext _ _).bind fun t ht =>
    (updateReorderingTimer_popped t).mono fun u hu => ht.trans hu

/-- Every stored SDU has the COUNT it is stored under. -/
def Keyed (s : RxEntity cfg) : Prop := ∀ c info, s.rxWindow.get? c = some info → info.count = c

theorem keyed_init : Keyed ({} : RxEntity cfg) := nofun

theorem Keyed.storeSdu (h : s.Keyed) (c : Nat) (sdu : List UInt8) : (s.storeSdu c sdu).Keyed := by
  intro k info hk
  simp only [RxEntity.storeSdu, CircularMap.get?_overwrite] at hk
  split at hk
  · next heq =>
    cases hk
    exact heq.symm
  · split_ifs at hk
    exact h k info hk

/-- A PDU whose COUNT is below RX_DELIV or in the window is dropped; any other is stored. -/
theorem placeSdu_eq (h : s.Keyed) (c : Nat) (sdu : List UInt8) :
    s.placeSdu c sdu =
      if c < s.rxDeliv ∨ s.rxWindow.contains c then .ok s else placeSdu.place c sdu s := by
  rw [placeSdu]
  by_cases hlt : c < s.rxDeliv
  · rw [if_pos hlt, if_pos (.inl hlt)]
  rw [if_neg hlt]
  by_cases hin : s.rxWindow.contains c = true
  · obtain ⟨info, hget⟩ := CircularMap.contains_iff.1 hin
    rw [if_pos hin, if_pos (.inr hin), hget]
    exact if_pos (h c info hget)
  · rw [if_neg hin, if_neg (by simp [hlt, hin])]

/-! ## Checks -/

/-- From `s` to `t` flags may have been raised and the upper layers notified. -/
structure Warned (s t : RxEntity cfg) : Prop where
  next : t.rxNext = s.rxNext
  deliv : t.rxDeliv = s.rxDeliv
  reord : t.rxReord = s.rxReord
  window : t.rxWindow = s.rxWindow
  timer : t.reorderingTimer = s.reorderingTimer
  delivered : t.delivered = s.delivered
  security : t.security = s.security

theorem Warned.refl (s : RxEntity cfg) : Warned s s := ⟨rfl, rfl, rfl, rfl, rfl, rfl, rfl⟩

theorem Warned.notify (s : RxEntity cfg) (n : RxNotification) : Warned s (s.notify n) :=
  ⟨rfl, rfl, rfl, rfl, rfl, rfl, rfl⟩

theorem checkMaxCount_warned (s : RxEntity cfg) (c : Nat) :
    Warned s (s.checkMaxCount c).1 ∧ (s.checkMaxCount c).2 = decide (cfg.maxCount.hard ≤ c) := by
  rw [checkMaxCount]
  generalize ht : (if decide (cfg.maxCount.notify < c) && !s.maxCountNotified then
    { s.notify .maxCountReached with maxCountNotified := true } else s) = t
  have hw : Warned s t := by
    rw [← ht]
    split
    · exact { Warned.notify s .maxCountReached with }
    · exact .refl s
  by_cases hhard : cfg.maxCount.hard ≤ c
  · simp only [if_pos hhard, decide_eq_true hhard, and_true]
    split
    · exact { hw with }
    · exact hw
  · simp only [if_neg hhard, decide_eq_false hhard, and_true]
    exact hw

theorem applyDecipheringAndIntegrityCheck_warned (crypto : Crypto) (s : RxEntity cfg)
    (buf : List UInt8) (c : Nat) :
    Warned s (s.applyDecipheringAndIntegrityCheck crypto buf c).1 := by
  rw [applyDecipheringAndIntegrityCheck]
  split
  · split
    · split <;> exact .refl s
    · exact .refl s
  · split
    · exact .notify s _
    · exact .notify s _
    · exact .notify s _
    · exact .refl s

/-! ## Steps -/

/-- From `s` to `t` nothing is added to the window and RX_NEXT stays. -/
structure Shrunk (s t : RxEntity cfg) : Prop where
  next : t.rxNext = s.rxNext
  deliv_lt : s.rxDeliv < 2 ^ 32 → t.rxDeliv < 2 ^ 32
  window : ∀ c info, t.rxWindow.get? c = some info → s.rxWindow.get? c = some info

namespace Shrunk

theorem refl (s : RxEntity cfg) : Shrunk s s := ⟨rfl, id, fun _ _ => id⟩

theorem trans (h : Shrunk s t) (h' : Shrunk t u) : Shrunk s u :=
  ⟨h'.next.trans h.next, h'.deliv_lt ∘ h.deliv_lt,
    fun c info hc => h.window c info (h'.window c info hc)⟩

theorem of_eq (hnext : t.rxNext = s.rxNext) (hdeliv : t.rxDeliv = s.rxDeliv)
    (hwindow : t.rxWindow = s.rxWindow) : Shrunk s t :=
  ⟨hnext, fun h => hdeliv ▸ h, fun _ _ => hwindow ▸ id⟩

theorem erase (s : RxEntity cfg) (c : Nat) :
    Shrunk s { s with rxWindow := s.rxWindow.erase c } := by
  refine ⟨rfl, id, fun k info hk => ?_⟩
  simp only [CircularMap.get?_erase] at hk
  split_ifs at hk
  exact hk

end Shrunk

theorem Popped.shrunk (h : Popped s t) : Shrunk s t := ⟨h.next, h.deliv_lt, h.window⟩

theorem Warned.shrunk (h : Warned s t) : Shrunk s t := .of_eq h.next h.deliv h.window

/-- The sequence numbers start again. -/
def reset (s : RxEntity cfg) : RxEntity cfg := { s with rxNext := 0, rxDeliv := 0, rxReord := 0 }

/-- What a step can do to the window and the state variables. -/
inductive Changed (s t : RxEntity cfg) : Prop where
  | shrunk (h : Shrunk s t)
  | stored (u : RxEntity cfg) (c : Nat) (sdu : List UInt8) (hc : c < cfg.maxCount.hard)
      (h : Shrunk s u) (h' : Shrunk (u.storeSdu c sdu) t)
  | reset (u : RxEntity cfg) (h : Shrunk s u) (h' : Shrunk u.reset t)

theorem Changed.of_shrunk (h : Shrunk s t) (h' : Changed t u) : Changed s u := by
  cases h' with
  | shrunk h' => exact .shrunk (h.trans h')
  | stored v c sdu hc hv h' => exact .stored v c sdu hc (h.trans hv) h'
  | reset v hv h' => exact .reset v (h.trans hv) h'

section

variable (s : RxEntity cfg)

theorem placeSdu_changed {c : Nat} (hc : c < cfg.maxCount.hard)
    (sdu : List UInt8) : Ensures (fun _ => True) (Changed s) (s.placeSdu c sdu) := by
  have hplace : ∀ u, Shrunk s u → Ensures (fun _ => True) (Changed s) (placeSdu.place c sdu u) :=
    fun u hu => (place_popped c sdu u).mono fun t ht => .stored u c sdu hc hu ht.shrunk
  refine .ite (fun _ => .shrunk (.refl s)) fun _ => .ite (fun _ => ?_) fun _ => hplace s (.refl s)
  cases s.rxWindow.get? c with
  | none => trivial
  | some info => exact .ite (fun _ => .shrunk (.refl s)) fun _ => hplace _ (.erase s c)

theorem handleDataPdu_changed (crypto : Crypto) (s : RxEntity cfg) (pdu : List UInt8) :
    Ensures (fun _ => True) (Changed s) (s.handleDataPdu crypto pdu) := by
  rw [handleDataPdu]
  cases readDataPduHeader cfg.snSize pdu with
  | none => exact .shrunk (.refl s)
  | some sn =>
    simp only
    obtain ⟨h₁, hrefused⟩ := checkMaxCount_warned s (s.rcvdCount sn)
    generalize s.checkMaxCount (s.rcvdCount sn) = r at h₁ hrefused
    obtain ⟨s₁, refused⟩ := r
    refine .ite (fun _ => .shrunk h₁.shrunk) fun hno => ?_
    have h₂ := applyDecipheringAndIntegrityCheck_warned crypto s₁ pdu (s.rcvdCount sn)
    generalize s₁.applyDecipheringAndIntegrityCheck crypto pdu (s.rcvdCount sn) = r' at h₂
    have hboth := h₁.shrunk.trans h₂.shrunk
    obtain ⟨s₂, _ | buf⟩ := r'
    · exact .shrunk hboth
    · have hc : s.rcvdCount sn < cfg.maxCount.hard := by
        rw [show refused = _ from hrefused, decide_eq_true_iff] at hno
        exact Nat.lt_of_not_le hno
      exact .ite (fun _ => trivial) fun _ => (placeSdu_changed s₂ hc _).mono fun _ =>
        .of_shrunk hboth

theorem configure_shrunk (sec : Sec128AsConfig) (integrity ciphering : Bool) :
    Ensures (fun _ => True) (Shrunk s) (s.configure sec integrity ciphering) := by
  rw [configure]
  cases configureSecurity cfg.toBearer sec integrity ciphering with
  | assertion => trivial
  | refused => exact .refl s
  | installed security => exact .of_eq rfl rfl rfl

theorem deliverAllSdus_shrunk :
    Ensures (fun _ => True) (Shrunk s) s.deliverAllSdus :=
  .ite (fun _ => (deliverUntil_popped pops_popAny _ _).map fun _ ht => ⟨ht.next, id, ht.window⟩)
    fun _ => .refl s

theorem discardAllSdus_shrunk :
    Ensures (fun _ => True) (Shrunk s) s.discardAllSdus :=
  (deliverUntil_popped pops_popAny _ _).map fun _ ht => ⟨ht.next, ht.deliv_lt, ht.window⟩

theorem reestablish_changed (sec : Sec128AsConfig) :
    Ensures (fun _ => True) (Changed s) (s.reestablish sec) := by
  have hend : ∀ u, Shrunk s u → Ensures (fun _ => True) (Changed s) (do
      let v := if cfg.isSrb || cfg.isUm then
          { u with rxNext := 0, rxDeliv := 0, rxReord := 0 } else u
      v.configure sec v.security.integrityEnabled v.security.cipheringEnabled) := by
    intro u hu
    split
    · exact (configure_shrunk u.reset _ _ _).mono fun t ht => .reset u hu ht
    · exact (configure_shrunk u _ _ _).mono fun t ht => .shrunk (hu.trans ht)
  have hstop : ∀ u, Shrunk s u →
      Shrunk s (if cfg.isSrb || cfg.isUm then { u with reorderingTimer := false } else u) := by
    intro u hu
    split
    · exact hu.trans (.of_eq rfl rfl rfl)
    · exact hu
  have hrest : ∀ u, Shrunk s u → Ensures (fun _ => True) (Changed s) (do
      let v := if cfg.isSrb || cfg.isUm then { u with reorderingTimer := false } else u
      let v ← if cfg.isUm then v.deliverAllSdus else .ok v
      let v := if cfg.isSrb || cfg.isUm then
          { v with rxNext := 0, rxDeliv := 0, rxReord := 0 } else v
      v.configure sec v.security.integrityEnabled v.security.cipheringEnabled) := by
    intro u hu
    refine .ite (fun _ => ?_) fun _ => hend _ (hstop u hu)
    exact (deliverAllSdus_shrunk _).bind fun v hv => hend v ((hstop u hu).trans hv)
  refine .ite (fun _ => ?_) fun _ => hrest s (.refl s)
  exact (discardAllSdus_shrunk s).bind fun v hv => hrest v hv

end

/-- Whatever happens, nothing enters the window but one SDU whose COUNT is below the hard limit. -/
theorem changed_of_step {crypto : Crypto} {e : Event} (h : s.step crypto e = some t) :
    Changed s t := by
  cases e with
  | pdu pdu =>
    have hpdu : Ensures (fun _ => True) (Changed s) (s.handlePdu crypto pdu) := by
      cases pdu with
      | nil => exact .shrunk (.refl s)
      | cons b rest =>
        refine .ite (fun _ => handleDataPdu_changed crypto s _) fun _ => .shrunk ?_
        rw [handleControlPdu]
        split
        · exact (Warned.notify s _).shrunk
        · exact .refl s
    exact hpdu.of_ok (toOption_eq_some.1 h)
  | reorderingExpiry =>
    rw [step] at h
    split_ifs at h
    have hp := (handleTReorderingExpire_popped _).of_ok (toOption_eq_some.1 h)
    have hstop : Shrunk s { s with reorderingTimer := false } := .of_eq rfl rfl rfl
    exact .shrunk (hstop.trans hp.shrunk)
  | configureSecurity sec integrity ciphering =>
    exact .shrunk ((configure_shrunk s sec integrity ciphering).of_ok (toOption_eq_some.1 h))
  | reestablish sec => exact (reestablish_changed s sec).of_ok (toOption_eq_some.1 h)

theorem Keyed.shrunk (h : s.Keyed) (hs : Shrunk s t) : t.Keyed :=
  fun c info hc => h c info (hs.window c info hc)

theorem Keyed.step {crypto : Crypto} {e : Event} (h : s.Keyed) (hstep : s.step crypto e = some t) :
    t.Keyed := by
  cases changed_of_step hstep with
  | shrunk hs => exact h.shrunk hs
  | stored u c sdu hc hs hs' => exact ((h.shrunk hs).storeSdu c sdu).shrunk hs'
  | reset u hs hs' =>
    have hu : u.reset.Keyed := fun c info hc => h c info (hs.window c info hc)
    exact hu.shrunk hs'

end RadioStack.Pdcp.RxEntity
