import RadioStack.Gtpu.NguRx

/-!
# Reordering of a GTP-U tunnel on N3

The tunnel's window is a reordering buffer over unbounded counters of which the sequence numbers are
the residues modulo 65536 (`Tracks`). A PDU outside the window is delivered as it arrives, one with
the sequence number of a buffered PDU is dropped, and the others go through the buffer.

While t-Reordering runs, RX_REORD is between RX_DELIV and RX_NEXT, so an expiry is handled if it is
still inside the window of RX_DELIV. It is outside when RX_NEXT is a full window ahead of RX_DELIV,
which takes a PDU with the last sequence number of the window: the expiry is then skipped as
outdated and the timer not started again.

**Theorem (`nguRx_reordering`).** As long as no PDU has the last sequence number of the window,
every PDU is delivered exactly once, is buffered, or was dropped as a duplicate of a buffered one;
PDUs leave the window in order; and t-Reordering runs whenever something is buffered.
`nguRx_reordering_stalls` is a run with one, which stays in the window with no timer running. -/

namespace RadioStack.Gtpu

theorem windowModulus : WindowModulus snMod rxWindowSize := ⟨by decide, by decide⟩

theorem snMod_dvd : snMod ∣ 2 ^ 32 := by decide

theorem rxWindowSize_pos : 0 < rxWindowSize := by decide

def Delivery.direct? : Delivery → Option RxSduInfo
  | direct info => some info
  | window _ _ => none

def Delivery.window? : Delivery → Option (Nat × RxSduInfo)
  | direct _ => none
  | window sn info => some (sn, info)

section Log

variable (l : List Delivery) (w : List (Nat × RxSduInfo))

theorem map_info_perm :
    (l.map Delivery.info).Perm
      (l.filterMap Delivery.direct? ++ (l.filterMap Delivery.window?).map Prod.snd) := by
  induction l with
  | nil => exact .refl _
  | cons d l ih =>
    cases d with
    | direct info => exact ih.cons info
    | window sn info => exact (ih.cons info).trans List.perm_middle.symm

theorem filterMap_direct?_window :
    (w.map fun p => Delivery.window p.1 p.2).filterMap Delivery.direct? = [] := by
  induction w with
  | nil => rfl
  | cons p w ih => exact ih

theorem filterMap_window?_window :
    (w.map fun p => Delivery.window p.1 p.2).filterMap Delivery.window? = w := by
  induction w with
  | nil => rfl
  | cons p w ih => exact congrArg (p :: ·) ih

end Log

/-- The reordering buffer with what has gone through it. -/
structure Ghost where
  buffer : Reordering RxSduInfo
  accepted : List (Nat × RxSduInfo)
  windowed : List (Nat × RxSduInfo)

namespace NguRx

variable {cfg : NguRxConfig} {s t : NguRx cfg} {g : Ghost} {received : List RxSduInfo}
  {n stop : Nat}

/-- The tunnel's state is the reordering buffer, and all PDUs received are accounted for. -/
structure Tracks (received : List RxSduInfo) (s : NguRx cfg) (g : Ghost) : Prop where
  deliv : s.rxDeliv = g.buffer.deliv % snMod
  next : s.rxNext = g.buffer.next % snMod
  holds : s.rxWindow.Holds snMod g.buffer
  inv : g.buffer.Inv (rxWindowSize - 1)
  sn : ∀ n info, g.buffer.window n = some info → info.sn = some (n % snMod)
  ends : g.buffer.Ends g.buffer.next
  history : g.buffer.History g.accepted g.windowed
  paced : g.buffer.Paced rxWindowSize g.windowed
  log : s.delivered.filterMap Delivery.window? = CircularMap.serials snMod g.windowed
  conserved : received.Perm (s.delivered.filterMap Delivery.direct? ++ g.accepted.map Prod.snd ++
    s.dropped.map Prod.fst)
  duplicates : ∀ d ∈ s.dropped, d.1.sn = d.2.sn ∧ d.2 ∈ g.accepted.map Prod.snd

variable {info : RxSduInfo}

namespace Tracks

theorem init : Tracks [] ({} : NguRx cfg) ⟨.init, [], []⟩ :=
  ⟨rfl, rfl, CircularMap.holds_init, Reordering.inv_init, nofun, fun h => absurd h (by decide),
    Reordering.history_init, Reordering.paced_init, rfl, .refl _, nofun⟩

section

variable (h : Tracks received s g)

include h

theorem frame (hdeliv : t.rxDeliv = s.rxDeliv)
    (hnext : t.rxNext = s.rxNext) (hwindow : t.rxWindow = s.rxWindow)
    (hdelivered : t.delivered = s.delivered) (hdropped : t.dropped = s.dropped) :
    Tracks received t g :=
  ⟨hdeliv.trans h.deliv, hnext.trans h.next, hwindow ▸ h.holds, h.inv, h.sn, h.ends, h.history,
    h.paced, hdelivered ▸ h.log, hdelivered ▸ hdropped ▸ h.conserved, hdropped ▸ h.duplicates⟩

theorem fuel (hstop : stop ≤ g.buffer.next) :
    stop - g.buffer.deliv ≤ snMod := by
  refine Nat.sub_le_of_le_add (Nat.le_trans hstop (Nat.le_trans h.inv.room ?_))
  rw [Nat.add_comm]
  exact Nat.add_le_add_right (by decide) _

theorem inv' : g.buffer.Inv rxWindowSize := h.inv.mono (by decide)

theorem room : g.buffer.next ≤ g.buffer.deliv + 32767 := h.inv.room

theorem rxModBase (hle : g.buffer.deliv ≤ n)
    (hlt : n < g.buffer.deliv + snMod) : s.rxModBase (n % snMod) = n - g.buffer.deliv := by
  rw [NguRx.rxModBase, h.deliv]
  exact serialSub_eq snMod_dvd (Nat.mod_modEq _ _) (Nat.mod_modEq _ _) hle
    (Nat.sub_lt_left_of_lt_add hle hlt)

theorem rxModBase_deliv : s.rxModBase s.rxDeliv = 0 := by
  have := h.rxModBase (Nat.le_refl _) (Nat.lt_add_of_pos_right (by decide))
  rwa [← h.deliv, Nat.sub_self] at this

theorem rxModBase_next :
    s.rxModBase s.rxNext = g.buffer.next - g.buffer.deliv := by
  rw [h.next]
  exact h.rxModBase h.inv.le (Nat.lt_of_le_of_lt h.room (Nat.add_lt_add_left (by decide) _))

/-- The counter of the window an SN stands for. -/
theorem exists_counter {sn : Nat} (hsn : sn < snMod) :
    sn = (g.buffer.deliv + s.rxModBase sn) % snMod := by
  have hser := exists_serial (a := sn) snMod_dvd
    (show s.rxDeliv ≡ g.buffer.deliv [MOD snMod] from h.deliv ▸ Nat.mod_modEq _ _)
  exact (Nat.mod_eq_of_lt hsn).symm.trans hser

theorem passTo (hle : g.buffer.deliv ≤ stop)
    (hstop : stop ≤ g.buffer.next) (hends : g.buffer.Ends stop)
    {w : CircularMap rxWindowSize RxSduInfo} (hw : w.Holds snMod (g.buffer.passTo stop)) :
    Tracks received
      ({ s with
        rxWindow := w
        delivered := s.delivered ++
          (CircularMap.serials snMod (slice g.buffer.window g.buffer.deliv stop)).map
            fun p => .window p.1 p.2
        rxDeliv := stop % snMod } : NguRx cfg)
      { g with
        buffer := g.buffer.passTo stop
        windowed := g.windowed ++ slice g.buffer.window g.buffer.deliv stop } where
  deliv := rfl
  next := h.next
  holds := hw
  inv := h.inv.passTo hle hstop
  sn n info hn := by
    change (if n < stop then none else g.buffer.window n) = some info at hn
    split_ifs at hn
    exact h.sn n info hn
  ends := h.ends.passTo hle
  history := h.history.passTo hle hstop
  paced := h.paced.passTo h.inv' hends hle hstop
  log := by
    rw [List.filterMap_append, filterMap_window?_window, h.log]
    exact List.map_append.symm
  conserved := by
    rw [List.filterMap_append, filterMap_direct?_window, List.append_nil]
    exact h.conserved
  duplicates := h.duplicates

end

/-- The state after a delivery loop: everything but the window, RX_DELIV and the log is kept. -/
structure Passed (s t : NguRx cfg) : Prop where
  next : t.rxNext = s.rxNext
  reord : t.rxReord = s.rxReord
  timer : t.reorderingTimer = s.reorderingTimer
  stopped : t.stopped = s.stopped

theorem deliverAllConsecutiveSdus (h : Tracks received s g) :
    ∃ t, s.deliverAllConsecutiveSdus = some t ∧ Passed s t ∧
      ∃ w, Tracks received t ⟨g.buffer.passTo g.buffer.front, g.accepted, w⟩ := by
  obtain ⟨w, hw, hloop⟩ := CircularMap.popNext_spec windowModulus h.holds h.inv' rxWindowSize_pos
    (h.fuel (Nat.le_refl _)) []
  rw [← h.next, ← h.deliv, List.nil_append] at hloop
  refine ⟨_, ?_, ?_, _, h.passTo Reordering.le_front (Reordering.front_le h.inv.le)
    Reordering.ends_front hw⟩
  · rw [NguRx.deliverAllConsecutiveSdus, deliverUntil, hloop]
    rfl
  · exact ⟨rfl, rfl, rfl, rfl⟩

theorem deliverBelow (h : Tracks received s g) (hle : g.buffer.deliv ≤ stop)
    (hstop : stop ≤ g.buffer.next) (hends : g.buffer.Ends stop) :
    ∃ t, s.deliverUntil CircularMap.popAny (stop % snMod) = some t ∧ Passed s t ∧
      ∃ w, Tracks received t ⟨g.buffer.passTo stop, g.accepted, w⟩ := by
  obtain ⟨w, hw, hloop⟩ := CircularMap.popAny_spec windowModulus h.holds h.inv rxWindowSize_pos
    hle (Nat.le_trans hstop h.inv'.room) (h.fuel hstop) []
  rw [← h.deliv, List.nil_append] at hloop
  refine ⟨_, ?_, ?_, _, h.passTo hle hstop hends hw⟩
  · rw [deliverUntil, hloop]
    rfl
  · exact ⟨rfl, rfl, rfl, rfl⟩

theorem deliverSdu (h : Tracks received s g) (info : RxSduInfo) :
    Tracks (received ++ [info]) (s.deliverSdu info) g where
  __ := h
  log := by
    rw [NguRx.deliverSdu, List.filterMap_append, ← h.log]
    exact List.append_nil _
  conserved := by
    have hdirect : (s.deliverSdu info).delivered.filterMap Delivery.direct? =
        s.delivered.filterMap Delivery.direct? ++ [info] := List.filterMap_append
    rw [hdirect, List.append_assoc, List.append_assoc]
    refine (h.conserved.append_right [info]).trans ?_
    rw [List.append_assoc, List.append_assoc]
    refine List.Perm.append_left _ ?_
    rw [← List.append_assoc]
    exact List.perm_append_comm

theorem drop (h : Tracks received s g) {info buffered : RxSduInfo}
    (hsn : info.sn = buffered.sn) (hmem : buffered ∈ g.accepted.map Prod.snd) :
    Tracks (received ++ [info])
      ({ s with dropped := s.dropped ++ [(info, buffered)] } : NguRx cfg) g where
  __ := h
  conserved := by
    rw [List.map_append, ← List.append_assoc]
    exact h.conserved.append_right _
  duplicates d hd := by
    rcases List.mem_append.1 hd with hd | hd
    · exact h.duplicates d hd
    · obtain rfl := List.mem_singleton.1 hd
      exact ⟨hsn, hmem⟩

theorem storeSdu (h : Tracks received s g) (hle : g.buffer.deliv ≤ n)
    (hlt : n < g.buffer.deliv + (rxWindowSize - 1)) (hnone : g.buffer.window n = none)
    (hsn : info.sn = some (n % snMod)) :
    Tracks (received ++ [info]) (s.storeSdu (n % snMod) info)
      ⟨g.buffer.put n info, g.accepted ++ [(n, info)], g.windowed⟩ where
  deliv := h.deliv
  next := by
    have hmod : snMod = 65536 := rfl
    have hsize : rxWindowSize = 32768 := rfl
    have hbase := h.rxModBase hle (by omega)
    show (if s.rxModBase s.rxNext ≤ s.rxModBase (n % snMod) then (n % snMod + 1) % snMod
      else s.rxNext) = max g.buffer.next (n + 1) % snMod
    rw [h.rxModBase_next, hbase]
    by_cases hhigh : g.buffer.next ≤ n
    · rw [if_pos (Nat.sub_le_sub_right hhigh _), Nat.mod_add_mod,
        Nat.max_eq_right (Nat.le_succ_of_le hhigh)]
    · rw [if_neg (by omega), Nat.max_eq_left (Nat.lt_of_not_le hhigh), h.next]
  holds := h.holds.overwrite windowModulus hle (by omega)
  inv := h.inv.put hle hlt
  sn m i hm := by
    by_cases hmn : m = n
    · subst hmn
      rw [Reordering.window_put_self] at hm
      cases hm
      exact hsn
    · rw [Reordering.window_put_of_ne hmn] at hm
      exact h.sn m i hm
  ends := h.ends.put_next
  history := h.history.put h.inv hle hnone
  paced := h.paced.put
  log := h.log
  conserved := by
    refine (h.conserved.append_right [info]).trans ?_
    rw [List.map_append, List.append_assoc, List.append_assoc, List.append_assoc]
    refine List.Perm.append_left _ ?_
    rw [List.append_assoc]
    exact List.Perm.append_left _ List.perm_append_comm
  duplicates d hd := by
    obtain ⟨h₁, h₂⟩ := h.duplicates d hd
    exact ⟨h₁, by rw [List.map_append]; exact List.mem_append_left _ h₂⟩

end Tracks

/-- What holds between two events. While t-Reordering runs, RX_REORD stands for a counter between
RX_DELIV and RX_NEXT; it runs when something is missing. -/
structure Sound (received : List RxSduInfo) (s : NguRx cfg) : Prop where
  tracks : ∃ g, Tracks received s g ∧ g.buffer.window g.buffer.deliv = none ∧
    (s.reorderingTimer → ∃ m, s.rxReord = m % snMod ∧ g.buffer.deliv ≤ m ∧ m ≤ g.buffer.next ∧
      g.buffer.Ends m) ∧
    (g.buffer.deliv < g.buffer.next → s.reorderingTimer)
  timed : s.reorderingTimer → cfg.tReordering ≠ 0
  notStopped : s.stopped = false

theorem Sound.init : Sound [] ({} : NguRx cfg) :=
  ⟨⟨_, .init, rfl, nofun, fun h => absurd h (by decide)⟩, nofun, rfl⟩

/-- The comparison that decides whether SNs are missing. -/
theorem Tracks.missing_iff (h : Tracks received s g) :
    s.rxModBase s.rxDeliv < s.rxModBase s.rxNext ↔ g.buffer.deliv < g.buffer.next := by
  rw [h.rxModBase_deliv, h.rxModBase_next]
  exact Nat.sub_pos_iff_lt

theorem Tracks.started (h : Tracks received s g) (hgap : g.buffer.window g.buffer.deliv = none)
    (hstopped : s.stopped = false) (hzero : cfg.tReordering ≠ 0) :
    Sound received ({ s with rxReord := s.rxNext, reorderingTimer := true } : NguRx cfg) :=
  ⟨⟨g, h.frame rfl rfl rfl rfl rfl, hgap,
    fun _ => ⟨g.buffer.next, h.next, h.inv.le, Nat.le_refl _, h.ends⟩, fun _ => rfl⟩,
    fun _ => hzero, hstopped⟩

/-- The expiry of t-Reordering: the loops end, and the timer runs again if SNs are missing. -/
theorem handleTReorderingExpire_spec (h : Tracks received s g) (hrun : s.reorderingTimer = false)
    (hstopped : s.stopped = false) (hzero : cfg.tReordering ≠ 0) {m : Nat}
    (hreord : s.rxReord = m % snMod) (hle : g.buffer.deliv ≤ m) (hm : m ≤ g.buffer.next)
    (hends : g.buffer.Ends m) :
    ∃ t, s.handleTReorderingExpire = some t ∧ Sound received t := by
  have hinside : s.insideRxWindow s.rxReord = true := by
    have hroom := h.room
    have hsize : rxWindowSize = 32768 := rfl
    have hmod : snMod = 65536 := rfl
    rw [insideRxWindow, hreord, h.rxModBase hle (by omega)]
    exact decide_eq_true (by omega)
  obtain ⟨s₁, hs₁, hp₁, w₁, htr₁⟩ := h.deliverBelow hle hm hends
  obtain ⟨s₂, hs₂, hp₂, w₂, htr₂⟩ := htr₁.deliverAllConsecutiveSdus
  have hgap := Reordering.passTo_front_gap htr₁.inv
  have hstopped₂ : s₂.stopped = false := hp₂.stopped.trans (hp₁.stopped.trans hstopped)
  rw [handleTReorderingExpire, hrun, hinside, hreord, hs₁]
  simp only [Bool.false_eq_true, if_false, Bool.not_true, bind, Option.bind, hs₂]
  by_cases hmissing : s₂.rxModBase s₂.rxDeliv < s₂.rxModBase s₂.rxNext
  · rw [if_pos hmissing, if_neg hzero]
    exact ⟨_, rfl, htr₂.started hgap hstopped₂ hzero⟩
  · rw [if_neg hmissing]
    refine ⟨s₂, rfl, ⟨_, htr₂, hgap, fun hrun₂ => ?_, fun hlt => ?_⟩, fun _ => hzero, hstopped₂⟩
    · rw [hp₂.timer, hp₁.timer, hrun] at hrun₂
      cases hrun₂
    · exact absurd (htr₂.missing_iff.2 hlt) hmissing

/-- Stopping and starting t-Reordering after a PDU: RX_REORD may have fallen behind RX_DELIV. -/
theorem updateReorderingTimer_spec (h : Tracks received s g)
    (hgap : g.buffer.window g.buffer.deliv = none) (hstopped : s.stopped = false)
    (hzero : cfg.tReordering ≠ 0)
    (htimer : s.reorderingTimer → ∃ m, s.rxReord = m % snMod ∧ g.buffer.deliv ≤ m + 32767 ∧
      m ≤ g.buffer.next ∧ g.buffer.Ends m) :
    ∃ t, s.updateReorderingTimer = some t ∧ Sound received t := by
  have hsize : rxWindowSize = 32768 := rfl
  have hmod : snMod = 65536 := rfl
  rw [updateReorderingTimer]
  generalize ht : (if s.reorderingTimer && !s.insideRxWindow s.rxReord then
    { s with reorderingTimer := false } else s) = t
  have htr : Tracks received t g ∧ t.stopped = false ∧ (t.reorderingTimer →
      ∃ m, t.rxReord = m % snMod ∧ g.buffer.deliv ≤ m ∧ m ≤ g.buffer.next ∧ g.buffer.Ends m) := by
    rw [← ht]
    split
    · exact ⟨h.frame rfl rfl rfl rfl rfl, hstopped, nofun⟩
    · next hrun =>
      refine ⟨h, hstopped, fun hr => ?_⟩
      obtain ⟨m, hm, hbehind, hnext, hends⟩ := htimer hr
      refine ⟨m, hm, ?_, hnext, hends⟩
      -- behind RX_DELIV, RX_REORD is outside the window and the timer has been stopped
      by_contra hlt
      have hbase : s.rxModBase s.rxReord = m + snMod - g.buffer.deliv := by
        rw [rxModBase, h.deliv]
        exact serialSub_eq_of_lt snMod_dvd (hm ▸ Nat.mod_modEq _ _) (Nat.mod_modEq _ _)
          (Nat.lt_of_not_le hlt) (by omega)
      have houtside : s.insideRxWindow s.rxReord = false := by
        exact decide_eq_false (by omega)
      rw [hr, houtside] at hrun
      exact hrun rfl
  obtain ⟨htr, hstopped, htimer⟩ := htr
  simp only [if_neg hzero]
  by_cases hstart : (!t.reorderingTimer &&
      decide (t.rxModBase t.rxDeliv < t.rxModBase t.rxNext)) = true
  · rw [if_pos hstart]
    exact ⟨_, rfl, htr.started hgap hstopped hzero⟩
  · rw [if_neg hstart]
    refine ⟨t, rfl, ⟨g, htr, hgap, htimer, fun hlt => ?_⟩, fun _ => hzero, hstopped⟩
    simpa [htr.missing_iff, hlt] using hstart

/-- The SN is not the last one of the window. -/
def BeforeLast (s : NguRx cfg) (sn : Nat) : Prop := s.rxModBase sn ≠ rxWindowSize - 1

theorem handleSn_spec (h : Sound received s) (hzero : cfg.tReordering ≠ 0) {sn : Nat}
    (hsn : sn < snMod) (hlast : s.BeforeLast sn) (hinfo : info.sn = some sn) :
    ∃ t, s.handleSn sn info = some t ∧ Sound (received ++ [info]) t := by
  obtain ⟨⟨g, htr, hgap, htimer, hwait⟩, htimed, hstopped⟩ := h
  have hsize : rxWindowSize = 32768 := rfl
  rw [handleSn]
  by_cases houtside : (!s.insideRxWindow sn) = true
  · rw [if_pos houtside]
    exact ⟨_, rfl, ⟨g, (htr.deliverSdu info), hgap, htimer, hwait⟩, htimed, hstopped⟩
  rw [if_neg houtside, htr.rxModBase_deliv, if_neg (Nat.not_lt_zero _)]
  -- the counter of the window that the SN stands for
  obtain ⟨n, hn, hle, hlt⟩ : ∃ n, sn = n % snMod ∧ g.buffer.deliv ≤ n ∧
      n < g.buffer.deliv + (rxWindowSize - 1) := by
    refine ⟨g.buffer.deliv + s.rxModBase sn, htr.exists_counter hsn, Nat.le_add_right _ _, ?_⟩
    have hin : s.rxModBase sn < rxWindowSize := by simpa [insideRxWindow] using houtside
    have : s.rxModBase sn ≠ rxWindowSize - 1 := hlast
    omega
  subst hn
  rw [htr.holds.get? hle (by omega)]
  cases hw : g.buffer.window n with
  | some buffered =>
    refine ⟨_, rfl, ⟨g, htr.drop ?_ ?_, hgap, htimer, hwait⟩, htimed, hstopped⟩
    · rw [hinfo, htr.sn n buffered hw]
    · have hmem : (n, buffered) ∈ g.accepted := by
        refine htr.history.perm.mem_iff.2 (List.mem_append_right _ (mem_slice.2 ⟨?_, hw⟩))
        exact htr.inv.mem n buffered hw
      exact List.mem_map.2 ⟨_, hmem, rfl⟩
  | none =>
    have hstored := htr.storeSdu hle hlt hw hinfo
    generalize hs₁ : s.storeSdu (n % snMod) info = s₁ at hstored ⊢
    have hs₁timer : s₁.reorderingTimer = s.reorderingTimer := by rw [← hs₁]; rfl
    have hs₁reord : s₁.rxReord = s.rxReord := by rw [← hs₁]; rfl
    have hs₁stopped : s₁.stopped = false := by rw [← hs₁]; exact hstopped
    have hmod : snMod = 65536 := rfl
    have hmaxle : g.buffer.next ≤ (g.buffer.put n info).next := Nat.le_max_left _ _
    simp only [hstored.rxModBase_deliv, bind, Option.bind]
    rw [hstored.rxModBase hle (show n < g.buffer.deliv + snMod by omega)]
    by_cases hfirst : n - (g.buffer.put n info).deliv = 0
    · -- RX_DELIV arrived: the consecutive SDUs are delivered
      obtain ⟨s₂, hs₂, hp₂, w₂, htr₂⟩ := hstored.deliverAllConsecutiveSdus
      have hgap₂ := Reordering.passTo_front_gap hstored.inv
      simp only [if_pos hfirst, hs₂]
      refine updateReorderingTimer_spec htr₂ hgap₂ (hp₂.stopped.trans hs₁stopped) hzero
        fun hrun => ?_
      obtain ⟨m, hm, hdm, hnext, hends⟩ := htimer (hs₁timer ▸ hp₂.timer ▸ hrun)
      have hfront : (g.buffer.put n info).front ≤ g.buffer.deliv + 32767 :=
        Nat.le_trans (Reordering.front_le hstored.inv.le) hstored.room
      refine ⟨m, (hp₂.reord.trans hs₁reord).trans hm, ?_, Nat.le_trans hnext hmaxle,
        hends.put.passTo Reordering.le_front⟩
      exact Nat.le_trans hfront (Nat.add_le_add_right hdm _)
    · simp only [if_neg hfirst]
      refine updateReorderingTimer_spec hstored ?_ hs₁stopped hzero fun hrun => ?_
      · show (g.buffer.put n info).window g.buffer.deliv = none
        rw [Reordering.window_put_of_ne, hgap]
        intro heq
        exact hfirst (by show n - g.buffer.deliv = 0; omega)
      · obtain ⟨m, hm, hdm, hnext, hends⟩ := htimer (hs₁timer ▸ hrun)
        exact ⟨m, hs₁reord.trans hm, Nat.le_add_right_of_le hdm, Nat.le_trans hnext hmaxle,
          hends.put⟩

/-! ## Runs -/

/-- A PDU that would be buffered does not have the last SN of the window. -/
def RegularEvent (s : NguRx cfg) : Event → Prop
  | .pdu pdu => ∀ info sn, sduInfo cfg pdu = some info → info.sn = some sn → s.BeforeLast sn
  | _ => True

def Step (s : NguRx cfg) (e : Event) (t : NguRx cfg) : Prop := e ≠ .stop ∧ step s e = some t

/-- The SDUs of the PDUs of a run. -/
def receivedSdus (cfg : NguRxConfig) (es : List Event) : List RxSduInfo :=
  es.filterMap fun
    | .pdu pdu => sduInfo cfg pdu
    | _ => none

theorem sduInfo_sn {pdu : DissectedPdu} {sn : Nat} (h : sduInfo cfg pdu = some info)
    (hsn : info.sn = some sn) :
    cfg.tReordering ≠ 0 ∧ sn < snMod := by
  rw [sduInfo] at h
  split at h
  · cases h
    cases hsn
  · obtain ⟨qfi, -, rfl⟩ := Option.map_eq_some_iff.1 h
    split_ifs at hsn with hcond
    cases hsn
    exact ⟨fun h0 => hcond (by simp [h0]), pdu.seqNumber.toNat_lt⟩

/-- Every PDU is handled: the loops end. -/
theorem handlePdu_spec (h : Sound received s) {pdu : DissectedPdu}
    (hlast : s.RegularEvent (.pdu pdu)) :
    ∃ t, s.handlePdu pdu = some t ∧ Sound (received ++ (sduInfo cfg pdu).toList) t := by
  rw [handlePdu, h.notStopped]
  cases hinfo : sduInfo cfg pdu with
  | none => exact ⟨s, rfl, by rwa [Option.toList_none, List.append_nil]⟩
  | some info =>
    simp only [Bool.false_eq_true, if_false]
    cases hsn : info.sn with
    | none =>
      obtain ⟨⟨g, htr, hrest⟩, htimed, hstopped⟩ := h
      exact ⟨_, rfl, ⟨g, htr.deliverSdu info, hrest⟩, htimed, hstopped⟩
    | some sn =>
      obtain ⟨hzero, hlt⟩ := sduInfo_sn hinfo hsn
      exact handleSn_spec h hzero hlt (hlast info sn hinfo hsn) hsn

theorem expiry_spec (h : Sound received s) (hrun : s.reorderingTimer = true) :
    ∃ t, handleTReorderingExpire ({ s with reorderingTimer := false } : NguRx cfg) = some t ∧
      Sound received t := by
  obtain ⟨⟨g, htr, -, htimer, -⟩, htimed, hstopped⟩ := h
  obtain ⟨m, hm, hle, hnext, hends⟩ := htimer hrun
  exact handleTReorderingExpire_spec
    (htr.frame (t := ({ s with reorderingTimer := false } : NguRx cfg)) rfl rfl rfl rfl rfl)
    rfl hstopped (htimed hrun) hm hle hnext hends

theorem Sound.step (h : Sound received s) {e : Event} (hregular : s.RegularEvent e)
    (hstep : Step s e t) : Sound (received ++ receivedSdus cfg [e]) t := by
  obtain ⟨hstop, hstep⟩ := hstep
  cases e with
  | pdu pdu =>
    obtain ⟨t', ht', hsound⟩ := handlePdu_spec h hregular
    have heq : receivedSdus cfg [.pdu pdu] = (sduInfo cfg pdu).toList := by
      rw [receivedSdus]
      cases hinfo : sduInfo cfg pdu <;> simp [hinfo]
    rw [NguRx.step, ht'] at hstep
    exact heq ▸ Option.some.inj hstep ▸ hsound
  | reorderingExpiry =>
    by_cases hrun : s.reorderingTimer = true
    · obtain ⟨t', ht', hsound⟩ := expiry_spec h hrun
      rw [NguRx.step, if_pos hrun, ht'] at hstep
      rw [receivedSdus, List.filterMap_cons, List.filterMap_nil, List.append_nil]
      exact Option.some.inj hstep ▸ hsound
    · rw [NguRx.step, if_neg hrun] at hstep
      cases hstep
  | stop => exact absurd rfl hstop

theorem Sound.run {es : List Event}
    (hrun : Run (fun s e t => Step s e t ∧ s.RegularEvent e) s es t) (h : Sound received s) :
    Sound (received ++ receivedSdus cfg es) t := by
  induction hrun generalizing received with
  | nil s => rwa [receivedSdus, List.filterMap_nil, List.append_nil]
  | cons hs _ ih =>
    have := ih (h.step hs.2 hs.1)
    rwa [List.append_assoc, receivedSdus, receivedSdus, ← List.filterMap_append] at this

/-- The SDUs in the window, from RX_DELIV on. -/
def buffered (s : NguRx cfg) : List RxSduInfo :=
  (List.range rxWindowSize).filterMap fun i => s.rxWindow.get? ((s.rxDeliv + i) % snMod)

theorem Tracks.buffered_eq (h : Tracks received s g) :
    s.buffered = g.buffer.buffered.map Prod.snd := by
  rw [← h.inv'.slice_eq (Nat.le_trans h.inv'.room (Nat.le_refl _)), slice, List.map_filterMap,
    Nat.add_sub_cancel_left, List.range'_eq_map_range, List.filterMap_map, buffered]
  refine List.filterMap_congr fun i hi => ?_
  have hi := List.mem_range.1 hi
  have hget := h.holds.get? (Nat.le_add_right g.buffer.deliv i) (Nat.add_lt_add_left hi _)
  rw [h.deliv, Nat.mod_add_mod, hget]
  show _ = ((g.buffer.window (g.buffer.deliv + i)).map _).map Prod.snd
  rw [Option.map_map]
  exact (Option.map_id' ..).symm

/-- The SNs of the SDUs delivered from the window. -/
def windowSns (s : NguRx cfg) : List Nat :=
  (s.delivered.filterMap Delivery.window?).map Prod.fst

/-- Reordering in a state of the tunnel, after the SDUs `received`. -/
structure Reordered (received : List RxSduInfo) (s : NguRx cfg) : Prop where
  /-- Every SDU has been delivered once, is in the window, or was dropped. -/
  conserved : received.Perm
    (s.delivered.map Delivery.info ++ s.buffered ++ s.dropped.map Prod.fst)
  /-- What was dropped had the SN of one that was in the window. -/
  duplicates : ∀ d ∈ s.dropped, d.1.sn = d.2.sn ∧
    (d.2 ∈ s.buffered ∨ d.2 ∈ s.delivered.map Delivery.info)
  /-- The SNs delivered from the window are those of increasing counters, each at most a window
  after the previous one. -/
  increasing : ∃ ns : List Nat, s.windowSns = ns.map (· % snMod) ∧ ns.Pairwise (· < ·) ∧
    ns.IsChain fun a b => b ≤ a + rxWindowSize
  next_le : s.rxModBase s.rxNext ≤ rxWindowSize
  between : ∀ sn, s.rxWindow.contains sn → 0 < s.rxModBase sn ∧
    s.rxModBase sn < s.rxModBase s.rxNext
  running : (∃ sn, s.rxWindow.contains sn) → s.reorderingTimer = true
  /-- The delivery loops end, for every PDU that may come next and for an expiry. -/
  pdu_terminates : ∀ pdu, s.RegularEvent (.pdu pdu) → ∃ t, s.handlePdu pdu = some t
  expiry_terminates : s.reorderingTimer = true → ∃ t, s.step .reorderingExpiry = some t

theorem Sound.reordered (h : Sound received s) : Reordered received s := by
  obtain ⟨g, htr, hgap, htimer, hwait⟩ := h.tracks
  have hsize : rxWindowSize = 32768 := rfl
  have hmod : snMod = 65536 := rfl
  have hroom := htr.room
  have hwindowed : (s.delivered.filterMap Delivery.window?).map Prod.snd =
      g.windowed.map Prod.snd := by
    rw [htr.log, CircularMap.serials, List.map_map]
    rfl
  have hdelivered := map_info_perm s.delivered
  rw [hwindowed] at hdelivered
  have hbetween : ∀ sn, s.rxWindow.contains sn → 0 < s.rxModBase sn ∧
      s.rxModBase sn < s.rxModBase s.rxNext := by
    intro sn hsn
    obtain ⟨info, hget⟩ := CircularMap.contains_iff.1 hsn
    obtain ⟨n, hle, hlt, rfl, hn⟩ := htr.holds.exists_entry hsn
    rw [hget] at hn
    have hmem := htr.inv.mem n info hn.symm
    have hne : n ≠ g.buffer.deliv := by
      rintro rfl
      rw [hgap] at hn
      cases hn
    rw [htr.rxModBase hle (by omega), htr.rxModBase_next]
    omega
  refine ⟨?_, fun d hd => ?_, ?_, ?_, hbetween, ?_, fun pdu hregular => ?_, fun hrun => ?_⟩
  · rw [htr.buffered_eq]
    have haccepted : (g.accepted.map Prod.snd).Perm
        (g.windowed.map Prod.snd ++ g.buffer.buffered.map Prod.snd) := by
      rw [← List.map_append]
      exact htr.history.perm.map Prod.snd
    refine htr.conserved.trans (List.Perm.append_right _ ?_)
    refine (haccepted.append_left _).trans ?_
    rw [← List.append_assoc]
    exact hdelivered.symm.append_right _
  · obtain ⟨hsn, hmem⟩ := htr.duplicates d hd
    refine ⟨hsn, ?_⟩
    obtain ⟨p, hp, hp'⟩ := List.mem_map.1 hmem
    rw [← hp', htr.buffered_eq]
    rcases List.mem_append.1 (htr.history.perm.mem_iff.1 hp) with hp | hp
    · exact .inr (hdelivered.mem_iff.2 (List.mem_append_right _ (List.mem_map_of_mem hp)))
    · exact .inl (List.mem_map_of_mem hp)
  · refine ⟨g.windowed.map Prod.fst, ?_, htr.history.sorted, htr.paced.chain⟩
    rw [windowSns, htr.log, CircularMap.serials, List.map_map, List.map_map]
    rfl
  · rw [htr.rxModBase_next]
    omega
  · rintro ⟨sn, hsn⟩
    have := hbetween sn hsn
    rw [htr.rxModBase_next] at this
    exact hwait (by omega)
  · obtain ⟨t, ht, -⟩ := handlePdu_spec h hregular
    exact ⟨t, ht⟩
  · obtain ⟨t, ht, -⟩ := expiry_spec h hrun
    exact ⟨t, by rw [NguRx.step, if_pos hrun, ht]⟩

/-- **Reordering of the tunnel.** -/
theorem nguRx_reordering {es : List Event} {s : NguRx cfg}
    (hrun : Run (fun s e t => Step s e t ∧ s.RegularEvent e) {} es s) :
    Reordered (receivedSdus cfg es) s :=
  (Sound.run hrun .init).reordered

def sampleConfig : NguRxConfig := ⟨10⟩

/-- A PDU of QoS flow 1 with a sequence number and one byte of payload. -/
def samplePdu (sn : UInt16) (payload : UInt8) : DissectedPdu :=
  { buf := List.replicate 16 0 ++ [payload], hdrLen := 16, hdrLen_le := by simp
    hasSeqNumber := true, seqNumber := sn
    extList := [⟨.pduSessionContainer, [0x00, 0x01]⟩], testMode := false }

/-- SN 1 twice, 0, one outside the window, 3, then t-Reordering expires twice: when 3 arrives, the
timer is still running for 1. -/
def gapThenExpiry : List Event :=
  [.pdu (samplePdu 1 11), .pdu (samplePdu 1 12), .pdu (samplePdu 0 10), .pdu (samplePdu 65535 9),
    .pdu (samplePdu 3 13), .reorderingExpiry, .reorderingExpiry]

instance (s : NguRx cfg) (sn : Nat) : Decidable (s.BeforeLast sn) :=
  inferInstanceAs (Decidable (_ ≠ _))

instance (s : NguRx cfg) (e : Event) : Decidable (s.RegularEvent e) :=
  match e with
  | .pdu pdu =>
    decidable_of_iff (∀ info ∈ sduInfo cfg pdu, ∀ sn ∈ info.sn, s.BeforeLast sn)
      ⟨fun h info sn hinfo hsn => h info hinfo sn hsn,
        fun h info hinfo sn hsn => h info sn hinfo hsn⟩
  | .reorderingExpiry => isTrue trivial
  | .stop => isTrue trivial

def regularStep (s : NguRx cfg) (e : Event) : Option (NguRx cfg) :=
  match e with
  | .stop => none
  | e => if s.RegularEvent e then step s e else none

theorem step_of_regularStep {e : Event} (h : regularStep s e = some t) :
    Step s e t ∧ s.RegularEvent e := by
  rw [regularStep.eq_def] at h
  split at h
  · cases h
  · next hstop =>
    split_ifs at h with hregular
    exact ⟨⟨hstop, h⟩, hregular⟩

/-- SNs 0, 1 and 3 leave the window in order. -/
theorem nguRx_reordering_gapThenExpiry :
    ∃ s : NguRx sampleConfig,
      Run (fun s e t => Step s e t ∧ s.RegularEvent e) {} gapThenExpiry s ∧
      s.windowSns = [0, 1, 3] ∧ Reordered (receivedSdus sampleConfig gapThenExpiry) s := by
  have hexec : (exec regularStep ({} : NguRx sampleConfig) gapThenExpiry).map windowSns =
      some [0, 1, 3] := by decide +kernel
  obtain ⟨s, hs, hsns⟩ := Option.map_eq_some_iff.1 hexec
  have hrun := (run_of_exec hs).mono fun _ _ _ h => step_of_regularStep h
  exact ⟨s, hrun, hsns, nguRx_reordering hrun⟩

/-- The PDU with the last SN of the window, then t-Reordering expires. -/
def lastThenExpiry : List Event := [.pdu (samplePdu 32767 1), .reorderingExpiry]

/-- RX_REORD is a full window ahead: the expiry is skipped, and the PDU stays in the window with no
timer running. -/
theorem nguRx_reordering_stalls :
    ∃ s : NguRx sampleConfig, Run Step {} lastThenExpiry s ∧ s.rxWindow.contains 32767 = true ∧
      s.reorderingTimer = false ∧ ¬ Reordered (receivedSdus sampleConfig lastThenExpiry) s := by
  have hexec : (exec step ({} : NguRx sampleConfig) lastThenExpiry).map
      (fun s => (s.rxWindow.contains 32767, s.reorderingTimer)) = some (true, false) := by
    decide +kernel
  obtain ⟨s, hs, hobs⟩ := Option.map_eq_some_iff.1 hexec
  obtain ⟨hwindow, htimer⟩ : s.rxWindow.contains 32767 = true ∧ s.reorderingTimer = false := by
    simpa using hobs
  have hrun : Run Step {} lastThenExpiry s := by
    have := run_of_exec hs
    cases this with
    | cons h₁ hrun =>
      cases hrun with
      | cons h₂ hrun =>
        cases hrun
        exact .cons ⟨nofun, h₁⟩ (.single ⟨nofun, h₂⟩)
  refine ⟨s, hrun, hwindow, htimer, fun h => ?_⟩
  have := h.running ⟨32767, hwindow⟩
  rw [htimer] at this
  cases this

end NguRx

end RadioStack.Gtpu
