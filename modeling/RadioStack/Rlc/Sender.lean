import RadioStack.Rlc.TxFrame

/-!
# The transmitter over unbounded counters

`Sender` replaces the SNs of the transmitter by counters that do not wrap and the TX window by a
partial map from counters to SDUs. `TxAm.Represents s a` relates it to the entity; a function that
leaves the window alone keeps the relation (`Represents.frame`), and the others are matched by two
operations:

* `ackLoop_spec`: the loop over acknowledged SNs is `Sender.acknowledge`;
* `pullPdu_spec`: a PDU with new data is `Sender.emit`.

Both keep the invariant that the window holds exactly the SDUs from `ack` on, up to `next` or, if
an SDU is under segmentation, up to and including `next` (`Sender.Inv`).
-/

namespace RadioStack.Rlc

/-- The transmitter, its SNs replaced by counters. -/
structure Sender where
  ack : Nat
  next : Nat
  segmenting : Bool
  /-- Unacknowledged SDUs and, for the one under segmentation, the number of bytes sent. -/
  window : Nat → Option (List UInt8 × Nat)

namespace Sender

def init : Sender := ⟨0, 0, false, fun _ => none⟩

/-- One past the last SDU of the window. -/
def top (a : Sender) : Nat := if a.segmenting then a.next + 1 else a.next

/-- Removes the SDUs below `k`. -/
def acknowledge (a : Sender) (k : Nat) : Sender :=
  { a with ack := k, window := fun x => if x < k then none else a.window x }

/-- Sends bytes of SDU `next`; `done` says that they are the last ones. -/
def emit (a : Sender) (sdu : List UInt8) (sent : Nat) (done : Bool) : Sender :=
  { a with
    window := Function.update a.window a.next (some (sdu, sent))
    next := if done then a.next + 1 else a.next
    segmenting := !done }

/-- The window holds exactly the SDUs `ack..top`, at most `W` of them. -/
structure Inv (W : Nat) (a : Sender) : Prop where
  ack_le : a.ack ≤ a.next
  mem : ∀ x, (∃ c, a.window x = some c) ↔ a.ack ≤ x ∧ x < a.top
  top_le : a.top ≤ a.ack + W
  progress : a.segmenting = true → ∀ sdu sent, a.window a.next = some (sdu, sent) →
    0 < sent ∧ sent < sdu.length

variable {W : Nat} {a : Sender}

theorem next_le_top (a : Sender) : a.next ≤ a.top := by
  unfold top
  split <;> omega

theorem top_le_succ (a : Sender) : a.top ≤ a.next + 1 := by
  unfold top
  split <;> omega

theorem top_of_not_segmenting (h : a.segmenting = false) : a.top = a.next := by
  rw [top, h]
  rfl

theorem top_of_segmenting (h : a.segmenting = true) : a.top = a.next + 1 := by
  rw [top, h]
  rfl

theorem inv_init : init.Inv W :=
  ⟨Nat.le_refl 0, fun x => ⟨nofun, fun h => absurd h.2 (Nat.not_lt_zero x)⟩, Nat.zero_le _, nofun⟩

namespace Inv

theorem window_eq_none (h : a.Inv W) {x : Nat} (hx : x < a.ack ∨ a.top ≤ x) :
    a.window x = none := by
  cases hw : a.window x with
  | none => rfl
  | some c =>
    have := (h.mem x).1 ⟨c, hw⟩
    omega

theorem acknowledge_ack (h : a.Inv W) : a.acknowledge a.ack = a := by
  have hw : (fun x => if x < a.ack then none else a.window x) = a.window := by
    funext x
    split
    · next hx => exact (h.window_eq_none (.inl hx)).symm
    · rfl
  unfold acknowledge
  rw [hw]

theorem acknowledge (h : a.Inv W) {k : Nat} (hk : a.ack ≤ k) (hk' : k ≤ a.next) :
    (a.acknowledge k).Inv W := by
  have htop : (a.acknowledge k).top = a.top := rfl
  refine ⟨hk', fun x => ?_, ?_, fun hseg sdu sent hw => h.progress hseg sdu sent ?_⟩
  · have hmem := h.mem x
    simp only [Sender.acknowledge] at *
    split
    · next hx => exact ⟨nofun, fun hc => absurd hc.1 (by omega)⟩
    · rw [hmem, htop]
      omega
  · have := h.top_le
    rw [htop]
    simp only [Sender.acknowledge]
    omega
  · simp only [Sender.acknowledge] at hw
    rwa [if_neg (by omega)] at hw

theorem emit (h : a.Inv W) {sdu : List UInt8} {sent : Nat} {done : Bool}
    (hroom : a.next < a.ack + W) (hsent : done = false → 0 < sent ∧ sent < sdu.length) :
    (a.emit sdu sent done).Inv W := by
  have hle := h.ack_le
  have htop : (a.emit sdu sent done).top = a.next + 1 := by
    cases done <;> rfl
  refine ⟨?_, fun x => ?_, ?_, fun hseg sdu' sent' hw => ?_⟩
  · simp only [Sender.emit]
    split <;> omega
  · rw [htop]
    simp only [Sender.emit]
    by_cases hx : x = a.next
    · subst hx
      rw [Function.update_self]
      exact ⟨fun _ => ⟨hle, by omega⟩, fun _ => ⟨_, rfl⟩⟩
    · have hnt := a.next_le_top
      have htn := a.top_le_succ
      rw [Function.update_of_ne hx, h.mem]
      omega
  · rw [htop]
    exact hroom
  · obtain rfl : done = false := by simpa [Sender.emit] using hseg
    simp only [Sender.emit, Bool.false_eq_true, if_false, Function.update_self, Option.some.injEq,
      Prod.mk.injEq] at hw
    obtain ⟨rfl, rfl⟩ := hw
    exact hsent rfl

end Inv

theorem acknowledge_acknowledge {k k' : Nat} (h : k ≤ k') :
    (a.acknowledge k).acknowledge k' = a.acknowledge k' := by
  have hw : (fun x => if x < k' then none else if x < k then none else a.window x) =
      fun x => if x < k' then none else a.window x := by
    funext x
    split
    · rfl
    · rw [if_neg (by omega)]
  simp [acknowledge, hw]

end Sender

namespace TxAm

variable {cfg : Config}

/-- The entity's state stands for the abstract sender. -/
structure Represents (s : TxAm cfg) (a : Sender) : Prop where
  ack : s.txNextAck = a.ack % cfg.mod
  next : s.txNext = a.next % cfg.mod
  seg : s.snUnderSegmentation = if a.segmenting then s.txNext else invalidRlcSn
  window : ∀ x, (s.txWindow.view cfg.mod a.ack x).map SduInfo.content = a.window x
  within : s.txWindow.Within cfg.mod a.ack
  count : s.txWindow.count = a.top - a.ack

theorem Config.mod_eq (cfg : Config) : cfg.mod = 2 * cfg.window := cfg.snFieldLength.mod_eq

theorem Config.mod_dvd (cfg : Config) : cfg.mod ∣ 2 ^ 32 := cfg.snFieldLength.mod_dvd

theorem Config.window_gt (cfg : Config) : 255 < cfg.window := cfg.snFieldLength.range_lt_window

theorem Config.mod_pos (cfg : Config) : 0 < cfg.mod := cfg.snFieldLength.mod_pos

variable {sn : Nat}

namespace Represents

variable {s s' : TxAm cfg} {a : Sender} {x : Nat}

theorem init : Represents (init cfg) Sender.init where
  ack := (Nat.zero_mod _).symm
  next := (Nat.zero_mod _).symm
  seg := rfl
  window x := by
    show Option.map _ (CircularMap.empty.view _ _ _) = none
    rw [CircularMap.view_empty]
    rfl
  within := CircularMap.within_empty
  count := rfl

/-- Functions that leave the window alone do not show in the abstract sender. -/
theorem frame (h : Represents s a) (hf : Frame s s') : Represents s' a where
  ack := hf.ack.trans h.ack
  next := hf.next.trans h.next
  seg := by rw [hf.seg, hf.next, h.seg]
  window x := by
    rw [← h.window x]
    unfold CircularMap.view
    split
    · exact hf.entries _
    · rfl
  within k hk := h.within k ((hf.contains k).symm.trans hk)
  count := hf.count.trans h.count

/-! ## Reading the state -/

section Reading

variable (h : Represents s a)
include h

theorem txModBase (hsn : sn ≡ x [MOD cfg.mod]) (hle : a.ack ≤ x) (hlt : x < a.ack + cfg.mod) :
    s.txModBase sn = x - a.ack := by
  refine serialSub_eq cfg.mod_dvd hsn ?_ hle (by omega)
  rw [h.ack]
  exact Nat.mod_modEq _ _

theorem txModBase_of_lt (hsn : sn ≡ x [MOD cfg.mod]) (hlt : x < a.ack) (hle : a.ack ≤ x + cfg.mod) :
    s.txModBase sn = x + cfg.mod - a.ack := by
  refine serialSub_eq_of_lt cfg.mod_dvd hsn ?_ hlt hle
  rw [h.ack]
  exact Nat.mod_modEq _ _

theorem get? (hle : a.ack ≤ x) (hlt : x < a.ack + cfg.window) :
    (s.txWindow.get? (x % cfg.mod)).map SduInfo.content = a.window x := by
  rw [← h.window, CircularMap.view_of_mem hle hlt]

theorem contains (hle : a.ack ≤ x) (hlt : x < a.ack + cfg.window) :
    s.txWindow.contains (x % cfg.mod) ↔ ∃ c, a.window x = some c := by
  rw [← h.get? hle hlt, ← Option.isSome_iff_exists, Option.isSome_map]
  rfl

theorem txNext_ne_invalid : s.txNext ≠ invalidRlcSn := by
  have hlt := Nat.mod_lt a.next cfg.mod_pos
  have hinv : cfg.mod < invalidRlcSn := cfg.snFieldLength.mod_lt_invalid
  rw [h.next]
  omega

theorem segmenting_iff : s.snUnderSegmentation = s.txNext ↔ a.segmenting = true := by
  have hne := h.txNext_ne_invalid
  rw [h.seg]
  cases a.segmenting with
  | true => simp
  | false => simp [hne.symm]

theorem next_modEq : s.txNext ≡ a.next [MOD cfg.mod] := by
  rw [h.next]
  exact Nat.mod_modEq _ _

variable (hinv : a.Inv cfg.window)
include hinv

theorem txModBase_txNext : s.txModBase s.txNext = a.next - a.ack := by
  have := hinv.top_le
  have := a.next_le_top
  have := cfg.mod_eq
  have := cfg.window_gt
  exact h.txModBase h.next_modEq hinv.ack_le (by omega)

/-- There is room for a new SDU, unless the window is full. -/
theorem next_lt_of_not_full (hseg : a.segmenting = false) (hfull : s.isTxWindowFull = false) :
    a.next < a.ack + cfg.window := by
  have hle := hinv.top_le
  have htop := Sender.top_of_not_segmenting hseg
  have hcount : s.txWindow.count ≠ cfg.window := by
    intro hc
    simp [isTxWindowFull, CircularMap.full, hc] at hfull
  have := h.count
  omega

end Reading

/-! ## Acknowledgements -/

theorem removeFirst (h : Represents s a) (hinv : a.Inv cfg.window) (hlt : a.ack < a.top) :
    Represents { s with
      txWindow := s.txWindow.erase s.txNextAck, txNextAck := (s.txNextAck + 1) % cfg.mod }
      (a.acknowledge (a.ack + 1)) := by
  have hpos := cfg.window_gt
  obtain ⟨hwithin, hview⟩ := CircularMap.eraseFirst (.of_eq cfg.mod_eq) (by omega) h.within
  have hin := (h.contains (Nat.le_refl _) (by omega)).2 ((hinv.mem a.ack).2 ⟨le_rfl, hlt⟩)
  refine ⟨?_, h.next, h.seg, fun x => ?_, ?_, ?_⟩
  · simp [h.ack, Sender.acknowledge]
  · simp only [h.ack, Sender.acknowledge]
    rw [hview, ← h.window x]
    beta_reduce
    split <;> rfl
  · simp only [h.ack]
    exact hwithin
  · simp only [h.ack, CircularMap.count_erase hin, h.count, Sender.acknowledge]
    show _ = a.top - (a.ack + 1)
    omega

end Represents

variable {s s' : TxAm cfg} {a : Sender}

/-- The loop over acknowledged SNs removes the SDUs below `stop`, but never beyond TX_NEXT. -/
theorem ackLoop_spec (h : Represents s a) (hinv : a.Inv cfg.window) {stop sn : Nat}
    (hle : a.ack ≤ stop) (hstop : stop ≤ a.next ∨ stop = a.next + 1 ∧ a.segmenting = false)
    (hsn : sn ≡ stop [MOD cfg.mod]) {fuel : Nat} (hfuel : stop - a.ack ≤ fuel) (d : Delivered) :
    Represents (ackLoop sn fuel s s.txNextAck d).1 (a.acknowledge (min stop a.next)) ∧
      (ackLoop sn fuel s s.txNextAck d).1.retxQueue = s.retxQueue ∧
      (ackLoop sn fuel s s.txNextAck d).1.sduQueue = s.sduQueue := by
  -- where the loop ends, everything up to the stop has been removed
  have hdone : ∀ {a : Sender}, a.Inv cfg.window → min stop a.next = a.ack →
      a.acknowledge (min stop a.next) = a := fun hinv heq => heq ▸ hinv.acknowledge_ack
  induction fuel generalizing s a d with
  | zero =>
    have := hinv.ack_le
    rw [hdone hinv (by omega)]
    exact ⟨h, rfl, rfl⟩
  | succ fuel ih =>
    have hackle := hinv.ack_le
    have htop := hinv.top_le
    have hnt := a.next_le_top
    have hmod := cfg.mod_eq
    have hpos := cfg.window_gt
    have hbase : s.txModBase s.txNextAck = 0 := by
      rw [h.txModBase (h.ack ▸ Nat.mod_modEq a.ack _) (Nat.le_refl _) (by omega), Nat.sub_self]
    unfold ackLoop
    rw [hbase, h.txModBase hsn hle (by omega)]
    split
    · next hlt =>
      by_cases hin : a.ack < a.top
      · -- the first SDU is removed, and the loop goes on from the next one
        obtain ⟨c, hc⟩ := (hinv.mem a.ack).2 ⟨le_rfl, hin⟩
        obtain ⟨info, hinfo⟩ := CircularMap.contains_iff.1
          ((h.contains le_rfl (by omega)).2 ⟨c, hc⟩)
        rw [h.ack] at *
        simp only [hinfo]
        have hnext : a.ack + 1 ≤ a.next := by
          rcases hstop with hs | ⟨hs, hseg⟩
          · omega
          · rw [Sender.top_of_not_segmenting hseg] at hin
            exact hin
        have hrem := h.removeFirst hinv hin
        rw [h.ack] at hrem
        have hlt' : a.ack + 1 ≤ stop := by omega
        obtain ⟨hrest, hqueues⟩ := ih hrem (hinv.acknowledge (Nat.le_succ _) hnext) hlt' hstop
          (show stop - (a.ack + 1) ≤ fuel by omega) (d.add info)
        refine ⟨?_, hqueues⟩
        rw [← Sender.acknowledge_acknowledge (le_min hlt' hnext)]
        exact hrest
      · -- nothing is left to remove
        have hnone : s.txWindow.get? s.txNextAck = none := by
          have hw := hinv.window_eq_none (.inr (Nat.le_of_not_lt hin))
          rw [← h.get? le_rfl (by omega), Option.map_eq_none_iff] at hw
          rw [h.ack, hw]
        rw [hnone, hdone hinv (by omega)]
        exact ⟨h, rfl, rfl⟩
    · rw [hdone hinv (by omega)]
      exact ⟨h, rfl, rfl⟩

/-! ## New data -/

/-- `s'` is `s` with `info` as the entry of SDU `next`. -/
structure Entered (s : TxAm cfg) (a : Sender) (s' : TxAm cfg) (info : SduInfo) : Prop where
  ack : s'.txNextAck = s.txNextAck
  next : s'.txNext = s.txNext
  retx : s'.retxQueue = s.retxQueue
  view : s'.txWindow.view cfg.mod a.ack =
    Function.update (s.txWindow.view cfg.mod a.ack) a.next (some info)
  within : s'.txWindow.Within cfg.mod a.ack
  count : s'.txWindow.count = a.next + 1 - a.ack

variable {info : SduInfo}

theorem Represents.entered (h : Represents s a) (hinv : a.Inv cfg.window)
    (hseg : a.segmenting = true) (hinfo : s.txWindow.get? s.txNext = some info) :
    Entered s a s info := by
  have hle := hinv.ack_le
  have htop := Sender.top_of_segmenting hseg
  have htople := hinv.top_le
  refine ⟨rfl, rfl, rfl, ?_, h.within, by rw [h.count, htop]⟩
  have hview : s.txWindow.view cfg.mod a.ack a.next = some info := by
    rw [CircularMap.view_of_mem hle (by omega), ← h.next, hinfo]
  rw [← hview, Function.update_eq_self]

theorem Represents.enterSdu (h : Represents s a) (hinv : a.Inv cfg.window)
    (hseg : a.segmenting = false) (hroom : a.next < a.ack + cfg.window) (queue : SduQueue.State)
    (sdu : RlcSdu) : Entered s a (s.enterSdu queue sdu) (newInfo sdu) := by
  have hle := hinv.ack_le
  have htop := Sender.top_of_not_segmenting hseg
  have hnone : s.txWindow.view cfg.mod a.ack a.next = none := by
    have hw := hinv.window_eq_none (.inr (Nat.le_of_eq htop))
    rwa [← h.window, Option.map_eq_none_iff] at hw
  have hslot := CircularMap.slots_of_view_none (.of_eq cfg.mod_eq) h.within hle hroom hnone
  refine ⟨rfl, rfl, rfl, ?_, ?_, ?_⟩
  · simp only [TxAm.enterSdu, notify, h.next]
    exact CircularMap.view_overwrite (.of_eq cfg.mod_eq) hle hroom (newInfo sdu)
  · simp only [TxAm.enterSdu, notify, h.next]
    exact CircularMap.within_overwrite h.within hle hroom (newInfo sdu)
  · simp only [TxAm.enterSdu, notify, h.next]
    rw [CircularMap.count_overwrite hslot, h.count, htop]
    omega

namespace Entered

variable {info : SduInfo}

section

variable (he : Entered s a s' info)

include he

theorem getPollingBit (sn : Nat) (isRetx : Bool) (size : Nat) :
    Entered s a (s'.getPollingBit sn isRetx size).1 info := by
  have hf := frame_getPollingBit s' sn isRetx size
  refine ⟨hf.ack.trans he.ack, hf.next.trans he.next,
    (retxQueue_getPollingBit _ _ _ _).trans he.retx, ?_, ?_, hf.count.trans he.count⟩
  · rw [txWindow_getPollingBit]
    exact he.view
  · rw [txWindow_getPollingBit]
    exact he.within

section

variable (h : Represents s a)

include h

theorem modifySdu (hle : a.ack ≤ a.next)
    (hroom : a.next < a.ack + cfg.window) (hsn : sn = s.txNext) (f : SduInfo → SduInfo) :
    Entered s a (s'.modifySdu sn f) (f info) := by
  subst hsn
  refine ⟨he.ack, he.next, he.retx, ?_, CircularMap.within_modify he.within _ _, ?_⟩
  · simp only [TxAm.modifySdu, h.next]
    rw [CircularMap.view_modify (.of_eq cfg.mod_eq) hle hroom, he.view, Function.update_self,
      Function.update_idem]
    rfl
  · simp only [TxAm.modifySdu, CircularMap.count_modify]
    exact he.count

theorem sendSegment (hle : a.ack ≤ a.next)
    (hroom : a.next < a.ack + cfg.window) (hsn : sn = s.txNext) (si : SiField) {len : Nat}
    (hpos : 0 < len) (hend : info.nextSo + len ≤ info.sdu.length)
    (hsi : si = retxSi info.nextSo (info.sdu.length ≤ info.nextSo + len)) :
    Entered s a (s'.sendSegment sn info si len).1 { info with nextSo := info.nextSo + len } ∧
      Carries cfg s.txNext info.sdu info.nextSo len (s'.sendSegment sn info si len).2 := by
  have hp := he.getPollingBit s'.txNext false len
  refine ⟨hp.modifySdu h hle hroom hsn fun info => { info with nextSo := info.nextSo + len },
    hpos, hend, (s'.getPollingBit s'.txNext false len).2, ?_⟩
  simp [TxAm.sendSegment, hp.next, hsi]

theorem window (x : Nat) :
    (s'.txWindow.view cfg.mod a.ack x).map SduInfo.content =
      Function.update a.window a.next (some (info.sdu, info.nextSo)) x := by
  rw [he.view]
  by_cases hx : x = a.next
  · subst hx
    rw [Function.update_self, Function.update_self]
    rfl
  · rw [Function.update_of_ne hx, Function.update_of_ne hx, h.window x]

theorem continues (hseg : s'.snUnderSegmentation = s.txNext) :
    Represents s' (a.emit info.sdu info.nextSo false) := by
  refine ⟨he.ack.trans h.ack, he.next.trans h.next, ?_, he.window h, he.within, he.count⟩
  rw [hseg, he.next]
  rfl

theorem finishes (hseg : s'.snUnderSegmentation = invalidRlcSn) :
    Represents { s' with txNext := (s'.txNext + 1) % cfg.mod }
      (a.emit info.sdu info.nextSo true) := by
  refine ⟨he.ack.trans h.ack, ?_, hseg, he.window h, he.within, he.count⟩
  simp only [he.next, h.next, Nat.mod_add_mod]
  rfl

end

end

end Entered

/-- What `pull_pdu` yields if no status report is due; SDUs taken from the queue satisfy `P`. -/
inductive Pulled (P : RlcSdu → Prop) (s : TxAm cfg) (a : Sender) (s' : TxAm cfg) :
    Sender → List UInt8 → Prop
  | idle (hretx : s'.retxQueue = s.retxQueue) : Pulled P s a s' a []
  | retx {pdu : List UInt8} (h : RetxPdu s s' pdu) : Pulled P s a s' a pdu
  | new {sdu : List UInt8} {so len sent : Nat} {done : Bool} {pdu : List UInt8}
      (hretx : s.retxQueue = []) (hretx' : s'.retxQueue = [])
      (hcarries : Carries cfg s.txNext sdu so len pdu)
      (hdone : done = true ↔ so + len = sdu.length)
      (hroom : a.next < a.ack + cfg.window) (hsent : done = false → sent = so + len)
      (horigin : (a.segmenting = false ∧ so = 0 ∧ ∃ q, P q ∧ q.buf = sdu) ∨
        (a.segmenting = true ∧ a.window a.next = some (sdu, so))) :
      Pulled P s a s' (a.emit sdu sent done) pdu

variable {P : RlcSdu → Prop}

theorem Pulled.inv {a' : Sender} {pdu : List UInt8} (hp : Pulled P s a s' a' pdu)
    (hinv : a.Inv cfg.window) : a'.Inv cfg.window := by
  cases hp with
  | idle | retx => exact hinv
  | new _ _ hcarries hdone hroom hsent _ =>
    refine hinv.emit hroom fun hd => ?_
    have hpos := hcarries.pos
    have hle := hcarries.le
    have hne := mt hdone.2 (Bool.eq_false_iff.1 hd)
    have := hsent hd
    omega

theorem buildContinuedSduSegment_spec (P : RlcSdu → Prop) (h : Represents s a)
    (hinv : a.Inv cfg.window) (hretx : s.retxQueue = []) (hseg : a.segmenting = true)
    (hinfo : s.txWindow.get? s.txNext = some info) (grantLen : Nat) :
    ∃ a', Represents (s.buildContinuedSduSegment grantLen info).1 a' ∧
      (s.buildContinuedSduSegment grantLen info).1.sduQueue = s.sduQueue ∧
      Pulled P s a (s.buildContinuedSduSegment grantLen info).1 a'
        (s.buildContinuedSduSegment grantLen info).2 := by
  have hle := hinv.ack_le
  have htop := Sender.top_of_segmenting hseg
  have htople := hinv.top_le
  have hroom : a.next < a.ack + cfg.window := by omega
  have hw : a.window a.next = some (info.sdu, info.nextSo) := by
    rw [← h.get? hle hroom, ← h.next, hinfo]
    rfl
  have hsn : s.snUnderSegmentation = s.txNext := (h.segmenting_iff).2 hseg
  have he := h.entered hinv hseg hinfo
  obtain ⟨hso, hlt⟩ := hinv.progress hseg _ _ hw
  have hso' := Nat.pos_iff_ne_zero.1 hso
  have hr := s.buildContinuedSduSegment_cases hso hlt grantLen
  generalize s.buildContinuedSduSegment grantLen info = r at hr
  cases hr with
  | nothing => exact ⟨a, h, rfl, .idle rfl⟩
  | middle _ hpos hend =>
    obtain ⟨he', hcarries⟩ := he.sendSegment h hle hroom hsn .middleSegment hpos
      (Nat.le_of_lt hend) (by rw [retxSi, if_neg hso', decide_eq_false (by omega)]; rfl)
    exact ⟨_, he'.continues h ((seg_sendSegment ..).trans hsn), queue_sendSegment ..,
      .new hretx (he'.retx.trans hretx) hcarries
        (iff_of_false Bool.false_ne_true (Nat.ne_of_lt hend)) hroom (fun _ => rfl)
        (.inr ⟨hseg, hw⟩)⟩
  | last _ hpos hend =>
    have he₁ : Entered s a { s with snUnderSegmentation := invalidRlcSn } info := { he with }
    obtain ⟨he', hcarries⟩ := he₁.sendSegment h hle hroom hsn .lastSegment hpos
      (Nat.le_of_eq hend) (by rw [retxSi, if_neg hso', decide_eq_true (by omega)]; rfl)
    exact ⟨_, he'.finishes h (seg_sendSegment ..),
      queue_sendSegment _ s.snUnderSegmentation info .lastSegment _,
      .new hretx (he'.retx.trans hretx) hcarries (iff_of_true rfl hend) hroom (fun _ => rfl)
        (.inr ⟨hseg, hw⟩)⟩

theorem sendSdu_spec (h : Represents s a) (hretx : s.retxQueue = []) (hseg : a.segmenting = false)
    (hroom : a.next < a.ack + cfg.window) (he : Entered s a s' info)
    (hseg' : s'.snUnderSegmentation = invalidRlcSn) (hlen : 0 < info.sdu.length)
    (hP : ∃ q, P q ∧ q.buf = info.sdu) :
    (s'.sendSdu info.sdu).1.sduQueue = s'.sduQueue ∧ ∃ a', Represents (s'.sendSdu info.sdu).1 a' ∧
      Pulled P s a (s'.sendSdu info.sdu).1 a' (s'.sendSdu info.sdu).2 := by
  have hf := frame_getPollingBit s' s'.txNext false 0
  have he' := he.getPollingBit s'.txNext false 0
  have hend : 0 + info.sdu.length = info.sdu.length := Nat.zero_add _
  have hcarries : Carries cfg s.txNext info.sdu 0 info.sdu.length (s'.sendSdu info.sdu).2 := by
    refine ⟨hlen, Nat.le_of_eq hend, (s'.getPollingBit s'.txNext false 0).2, ?_⟩
    rw [decide_eq_true (Nat.le_of_eq hend.symm), Nat.zero_mod, List.drop_zero, List.take_length,
      ← he'.next]
    rfl
  exact ⟨hf.queue, _, he'.finishes h (hf.seg.trans hseg'), .new hretx (he'.retx.trans hretx)
    hcarries (iff_of_true rfl hend) hroom nofun (.inl ⟨hseg, rfl, hP⟩)⟩

theorem buildNewPdu_spec (h : Represents s a) (hinv : a.Inv cfg.window) (hretx : s.retxQueue = [])
    (hseg : a.segmenting = false) (hq : s.sduQueue.All P) (hP : ∀ q, P q → q.buf ≠ [])
    (grantLen : Nat) :
    Ensures (fun _ => False) (fun r => r.1.sduQueue.All P ∧
      ∃ a', Represents r.1 a' ∧ Pulled P s a r.1 a' r.2) (s.buildNewPdu grantLen) := by
  obtain ⟨hq', hall⟩ := hq.read cfg.queue
  have hcases := buildNewPdu_cases (fun sdu hsdu => hP sdu (hall sdu hsdu)) grantLen
  generalize s.buildNewPdu grantLen = x at hcases
  cases x with
  | error f =>
    -- TX_NEXT is not in the window yet
    obtain ⟨hin, hfull⟩ := hcases
    have hroom := h.next_lt_of_not_full hinv hseg hfull
    rw [h.next, h.contains hinv.ack_le hroom, hinv.mem, Sender.top_of_not_segmenting hseg] at hin
    exact absurd hin.2 (Nat.lt_irrefl _)
  | ok r =>
    cases hcases with
    | nothing => exact ⟨hq, a, h, .idle rfl⟩
    | noSdu hread =>
      rw [hread] at hq'
      exact ⟨hq', a, { h with }, .idle rfl⟩
    | @segment queue sdu len hread hfull _ hpos hend =>
      rw [hread] at hq' hall
      have hroom := h.next_lt_of_not_full hinv hseg hfull
      have he := h.enterSdu hinv hseg hroom queue sdu
      have he₁ : Entered s a { s.enterSdu queue sdu with snUnderSegmentation := s.txNext }
        (newInfo sdu) := { he with }
      have hend' : (newInfo sdu).nextSo + len < (newInfo sdu).sdu.length := by
        rwa [newInfo, Nat.zero_add]
      obtain ⟨he', hcarries⟩ := he₁.sendSegment h hinv.ack_le hroom rfl .firstSegment hpos
        (Nat.le_of_lt hend') (by rw [decide_eq_false (Nat.not_le.2 hend')]; rfl)
      refine ⟨?_, _, he'.continues h (seg_sendSegment ..),
        .new hretx (he'.retx.trans hretx) hcarries
          (iff_of_false Bool.false_ne_true (Nat.ne_of_lt hend')) hroom (fun _ => rfl)
          (.inl ⟨hseg, rfl, sdu, hall sdu rfl, rfl⟩)⟩
      rw [queue_sendSegment]
      exact hq'
    | @whole queue sdu hread hfull =>
      rw [hread] at hq' hall
      have hroom := h.next_lt_of_not_full hinv hseg hfull
      have he := h.enterSdu hinv hseg hroom queue sdu
      have hsdu := hall sdu rfl
      obtain ⟨hqueue, hpulled⟩ := sendSdu_spec h hretx hseg hroom he
        (by rw [TxAm.enterSdu, notify, h.seg, hseg]; rfl) (List.length_pos_iff.2 (hP sdu hsdu))
        ⟨sdu, hsdu, rfl⟩
      exact ⟨hqueue ▸ hq', hpulled⟩

theorem pullPdu_spec (h : Represents s a) (hinv : a.Inv cfg.window) (hq : s.sduQueue.All P)
    (hP : ∀ q, P q → q.buf ≠ []) (grantLen : Nat) :
    Ensures (fun f => ∃ sn, f = Fault.retxHeaderLen sn) (fun r => r.1.sduQueue.All P ∧
      ∃ a', Represents r.1 a' ∧ Pulled P s a r.1 a' r.2) (s.pullPdu none grantLen) := by
  refine .ite (fun _ => ?_) fun hempty => ?_
  · refine (buildRetxPdu_spec s grantLen).mono fun r hr => ⟨?_, a, h.frame hr.frame, .retx hr⟩
    rw [hr.frame.queue]
    exact hq
  · have hretx : s.retxQueue = [] := by simpa using hempty
    cases hseg : a.segmenting with
    | true =>
      -- the SDU under segmentation is in the window
      have hle := hinv.ack_le
      have htop := Sender.top_of_segmenting hseg
      have htople := hinv.top_le
      have hin := (h.contains hle (by omega)).2 ((hinv.mem a.next).2 ⟨hle, by omega⟩)
      obtain ⟨info, hinfo⟩ := CircularMap.contains_iff.1 hin
      rw [← h.next] at hinfo
      rw [(h.segmenting_iff).2 hseg, if_neg h.txNext_ne_invalid, hinfo]
      obtain ⟨a', hrep, hqueue, hpulled⟩ :=
        buildContinuedSduSegment_spec P h hinv hretx hseg hinfo grantLen
      refine ⟨?_, a', hrep, hpulled⟩
      rw [hqueue]
      exact hq
    | false =>
      have hsegn : s.snUnderSegmentation = invalidRlcSn := by rw [h.seg, hseg]; rfl
      have hs : { s with snUnderSegmentation := invalidRlcSn } = s := by rw [← hsegn]
      rw [if_pos hsegn]
      simp only [hs]
      refine .ite (fun _ => ⟨hq, a, h, .idle rfl⟩) fun _ => ?_
      cases hnew : s.buildNewPdu grantLen with
      | ok r => exact (buildNewPdu_spec h hinv hretx hseg hq hP grantLen).of_ok hnew
      | error f => exact ((buildNewPdu_spec h hinv hretx hseg hq hP grantLen).of_error hnew).elim

end TxAm

end RadioStack.Rlc
