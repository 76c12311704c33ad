import RadioStack.Ofh.DownlinkData

/-!
# The symbols of a downlink burst

`enqueue_section_type_1_message_symbol_burst` sends the symbols of a slot one after the other. For
each symbol it reserves the frames of the symbol in the pool, reads the grid, builds the messages
(`symbolLoop`) and pushes the frames; it returns at the first symbol for which the pool has no
frames.

The loop starts at the first symbol of the range and ends at the *length* of the range.

**Theorem (`burst_exact_iff`).** The burst reads and pushes exactly the symbols of the range, each
once, if and only if the frames can carry the messages, the pool has room for every symbol of the
range, every block of these symbols can be compressed, and the range starts at symbol 0. The one
exception: the range starts behind its length, so that the loop misses its end, but the pool happens
to be exhausted at the first symbol after it.
-/

namespace RadioStack.Ofh

namespace FrameBufferArray

variable {β τ : Type} {a : FrameBufferArray β τ}

/-- The block to reserve is inside the array. -/
def BlockInside (a : FrameBufferArray β τ) : Prop :=
  a.writePosition + a.incrementQuant ≤ a.buffersArray.length

/-- The buffers of the block to reserve are free. -/
def BlockFree (a : FrameBufferArray β τ) : Prop :=
  ((a.buffersArray.drop a.writePosition).take a.incrementQuant).all (·.status = .free)

instance (a : FrameBufferArray β τ) : Decidable a.BlockInside := inferInstanceAs (Decidable (_ ≤ _))

instance (a : FrameBufferArray β τ) : Decidable a.BlockFree :=
  inferInstanceAs (Decidable (_ = true))

/-- The next block can be reserved, filled and pushed. -/
structure HasRoom (a : FrameBufferArray β τ) : Prop where
  inside : a.BlockInside
  free : a.BlockFree
  used : a.usedBuffers.length + a.incrementQuant ≤ maxUsedBuffers

structure Exhausted (a : FrameBufferArray β τ) : Prop where
  inside : a.BlockInside
  taken : ¬ a.BlockFree

/-- A block of frames is pushed if it can be listed. -/
theorem pushBuffers_spec (timestamp : τ) (pos : Nat) (frames : List β) (a : FrameBufferArray β τ) :
    Yields (frames ≠ [] ∧ maxUsedBuffers < a.usedBuffers.length + frames.length)
      (fun a' => (frames ≠ [] → a.usedBuffers.length + frames.length ≤ maxUsedBuffers) ∧
        a'.incrementQuant = a.incrementQuant)
      (pushBuffers timestamp pos (frames.map some) a) := by
  induction frames generalizing pos a with
  | nil => exact ⟨nofun, rfl⟩
  | cons frame frames ih =>
    rw [List.map_cons, pushBuffers, List.length_cons]
    split
    · next hlt =>
      have hrest := ih (pos + 1) { a with
        buffersArray := a.buffersArray.set pos ⟨.used, some frame⟩
        usedBuffers := a.usedBuffers ++ [(pos, timestamp)] }
      simp only [List.length_append, List.length_singleton] at hrest
      cases hpush : pushBuffers timestamp (pos + 1) (frames.map some) _ with
      | none =>
        rw [hpush] at hrest
        exact ⟨List.cons_ne_nil _ _, by have := hrest.2; omega⟩
      | some a' =>
        rw [hpush] at hrest
        refine ⟨fun _ => ?_, hrest.2⟩
        cases frames with
        | nil => exact hlt
        | cons f fs =>
          have := hrest.1 (List.cons_ne_nil _ _)
          omega
    · exact ⟨List.cons_ne_nil _ _, by omega⟩

end FrameBufferArray

/-- The symbol point of a symbol of a slot. -/
def SlotPoint.symbol {μ n : Nat} (slot : SlotPoint μ) (l : Fin n) : SlotSymbolPoint μ n where
  count := slot.count * n + l
  count_lt := by
    have hslot : slot.count + 1 ≤ nofSlotsPerSystemFrame μ := slot.count_lt
    calc slot.count * n + l < slot.count * n + n := Nat.add_lt_add_left l.isLt _
      _ = (slot.count + 1) * n := (Nat.succ_mul _ _).symm
      _ ≤ nofSlotsPerSystemFrame μ * n := Nat.mul_le_mul_right _ hslot

/-- Symbols of a slot have pool entries of their own. -/
theorem getPoolEntry_inj {μ : Nat} (slot : SlotPoint μ) {l k : Nat} (hl : l < 14) (hk : k < 14)
    (h : getPoolEntry slot l = getPoolEntry slot k) : l = k := by
  rw [getPoolEntry, getPoolEntry, nofOfdmSymPerSlotNormalCp] at h
  omega

/-- `data_flow_uplane_resource_grid_context`, with a valid range of symbols. -/
structure GridContext (μ : Nat) (cp : CyclicPrefix) where
  slot : SlotPoint μ
  eaxc : Fin 32
  /-- `symbol_range`. -/
  start : Nat
  stop : Nat
  start_le : start ≤ stop
  stop_le : stop ≤ cp.nsymb

/-- The pool of the User-Plane frames, by entry, the next sequence identifier, and the symbols that
were read from the grid and pushed to the pool. -/
structure BurstState (μ : Nat) (cp : CyclicPrefix) where
  pool : Nat → FrameBufferArray (List UInt8) (SlotSymbolPoint μ cp.nsymb)
  seqId : UInt8
  read : List Nat := []
  pushed : List Nat := []

namespace DownlinkDataFlow

variable {α : Type} {μ : Nat} {cp : CyclicPrefix} (flow : DownlinkDataFlow α)
  (ctx : GridContext μ cp) (frameSize : Nat)
  (grid : Fin cp.nsymb → Vector α (flow.ruNofPrbs * nofSubcarriersPerRb))

/-- The body of the loop, for a number of passes of the fragment loop; `false` to return early. A
symbol behind the slot is refused by the constructor of `slot_symbol_point`. -/
def burstSymbol (passes l : Nat) (s : BurstState μ cp) :
    Option (Except TxFault (Bool × BurstState μ cp)) :=
  if hl : l < cp.nsymb then
    let entry := getPoolEntry ctx.slot l
    match (s.pool entry).reserveBuffers with
    | none => some (.error .overrun)
    | some (none, _) => some (.ok (false, s))
    | some (some pos, array) =>
      match flow.symbolLoop ⟨ctx.slot, l, ctx.eaxc⟩ frameSize (grid ⟨l, hl⟩).toList passes
          ⟨.create 0 flow.ruNofPrbs flow.comprParams, s.seqId,
            reservedFrames array.incrementQuant⟩ with
      | none => none
      | some (.error e) => some (.error e)
      | some (.ok frames) =>
        match array.pushBuffers (ctx.slot.symbol ⟨l, hl⟩) pos (frames.map (·.content)) with
        -- `used_buffers` is full
        | none => some (.error .assertion)
        | some array =>
          some (.ok (true,
            { pool := Function.update s.pool entry array
              seqId := s.seqId + .ofNat (frames.countP (·.content.isSome))
              read := s.read ++ [l]
              pushed := s.pushed ++ [l] }))
  else some (.error .assertion)

/-- The loop over the symbols, from symbol `l` on; `none` if it takes more rounds. -/
def burstLoop (passes symbolEnd : Nat) : Nat → Nat → BurstState μ cp →
    Option (Except TxFault (BurstState μ cp))
  | 0, _, _ => none
  | rounds + 1, l, s =>
    if l = symbolEnd then some (.ok s)
    else
      match flow.burstSymbol ctx frameSize grid passes l s with
      | none => none
      | some (.error e) => some (.error e)
      | some (.ok (false, s)) => some (.ok s)
      | some (.ok (true, s)) => burstLoop passes symbolEnd rounds ((l + 1) % 2 ^ 32) s

/-- `enqueue_section_type_1_message_symbol_burst`. -/
def enqueueSymbolBurst (passes rounds : Nat) (s : BurstState μ cp) :
    Option (Except TxFault (BurstState μ cp)) :=
  flow.burstLoop ctx frameSize grid passes (ctx.stop - ctx.start) rounds ctx.start s

/-! ## One symbol -/

/-- A symbol that is read and pushed. -/
structure Pushes (pool : Nat → FrameBufferArray (List UInt8) (SlotSymbolPoint μ cp.nsymb))
    (l : Nat) : Prop where
  lt : l < cp.nsymb
  sendable : flow.Sendable frameSize
  compressible : flow.Compressible (grid ⟨l, lt⟩).toList
  room : (pool (getPoolEntry ctx.slot l)).HasRoom

/-- From `s` to `t` symbol `l` was read and pushed. -/
structure Advanced (l : Nat) (s t : BurstState μ cp) : Prop where
  read : t.read = s.read ++ [l]
  pushed : t.pushed = s.pushed ++ [l]
  pool : ∀ k, k < cp.nsymb → k ≠ l →
    t.pool (getPoolEntry ctx.slot k) = s.pool (getPoolEntry ctx.slot k)
  quant : ∀ e, (t.pool e).incrementQuant = (s.pool e).incrementQuant

theorem content_filled (frames : List (List UInt8)) :
    (filled frames).map (·.content) = frames.map some := by
  rw [filled, List.map_map]
  rfl

omit flow frameSize grid in
variable {ctx} in
theorem advanced_update {l : Nat} {s t : BurstState μ cp} (hl : l < cp.nsymb)
    {array : FrameBufferArray (List UInt8) (SlotSymbolPoint μ cp.nsymb)}
    (hread : t.read = s.read ++ [l]) (hpushed : t.pushed = s.pushed ++ [l])
    (hpool : t.pool = Function.update s.pool (getPoolEntry ctx.slot l) array)
    (hquant : array.incrementQuant = (s.pool (getPoolEntry ctx.slot l)).incrementQuant) :
    Advanced ctx l s t := by
  have hle := cp.nsymb_bounds.2
  refine ⟨hread, hpushed, fun k hk hne => ?_, fun e => ?_⟩
  · rw [hpool, Function.update_of_ne fun heq =>
      hne (getPoolEntry_inj ctx.slot (by omega) (by omega) heq)]
  · rw [hpool]
    by_cases he : e = getPoolEntry ctx.slot l
    · rw [he, Function.update_self, hquant]
    · rw [Function.update_of_ne he]

theorem length_fragments {fit : Nat} (hfit : 0 < fit) {n s r : Nat} (hr : 0 < r)
    (hn : segments fit r = n) : (fragments fit n s r).length = n := by
  induction n generalizing s r with
  | zero => exact absurd hn (segments_pos hfit hr).ne'
  | succ n ih =>
    rw [fragments]
    split
    · next hle => rw [← hn, segments_of_le hr hle, List.length_singleton]
    · next hlt =>
      rw [segments_of_lt hfit (Nat.lt_of_not_le hlt)] at hn
      rw [List.length_cons, ih (by omega) (Nat.succ.inj hn)]

theorem length_builtFrames (sctx : SymbolContext μ) (iq : List α) (seqId : UInt8)
    (fs : List (Nat × Nat)) : (flow.builtFrames sctx iq seqId fs).length = fs.length := by
  induction fs generalizing seqId with
  | nil => rfl
  | cons f fs ih => rw [builtFrames, List.length_cons, List.length_cons, ih]

section

variable {passes l : Nat} {s t : BurstState μ cp} {nofFrames : Nat}
  (hframes : calculateNofSegments frameSize flow.ruNofPrbs flow.comprParams flow.headersSize =
    some nofFrames)

include hframes

theorem fit_pos_of_nofSegments :
    0 < flow.fit frameSize ∧ nofFrames = segments (flow.fit frameSize) flow.ruNofPrbs := by
  rw [calculateNofSegments, getPrbDataSize_eq] at hframes
  by_cases hfit : flow.fit frameSize = 0
  · rw [fit] at hfit
    simp only [hfit, if_true] at hframes
    cases hframes
  · rw [fit] at hfit ⊢
    simp only [if_neg hfit] at hframes
    exact ⟨Nat.pos_of_ne_zero hfit, (Option.some.inj hframes).symm⟩

/-- The messages of a symbol fill the reserved frames, if they can be built. -/
theorem symbolLoop_fills (sctx : SymbolContext μ) {iq : List α} (seqId : UInt8)
    (hiq : iq.length = flow.ruNofPrbs * nofSubcarriersPerRb) (passes : Nat) :
    Yields (passes < nofFrames)
      (ReturnsIff (flow.Sendable frameSize ∧ flow.Compressible iq)
        fun frames => ∃ built : List (List UInt8), built.length = nofFrames ∧ frames = filled built)
      (flow.symbolLoop sctx frameSize iq passes
        ⟨.create 0 flow.ruNofPrbs flow.comprParams, seqId, reservedFrames nofFrames⟩) := by
  obtain ⟨hfit, rfl⟩ := flow.fit_pos_of_nofSegments frameSize hframes
  rw [create_eq]
  refine (flow.symbolLoop_spec sctx hiq hfit seqId passes).mono fun res hres => hres.mono ?_
  rintro frames ⟨hsend, rfl⟩
  refine ⟨hsend, _, ?_, rfl⟩
  rw [sentFrames, length_builtFrames, length_fragments hfit flow.nofPrbs_pos rfl]

theorem nofFrames_pos : 0 < nofFrames := by
  obtain ⟨hfit, rfl⟩ := flow.fit_pos_of_nofSegments frameSize hframes
  have hpos := flow.nofPrbs_pos
  exact Nat.div_pos (by omega) hfit

section

variable (hquant : ∀ e, (s.pool e).incrementQuant = nofFrames)

include hquant

/-- A symbol passes without a fault if it is pushed or finds no frames. -/
theorem burstSymbol_spec (passes l : Nat) :
    Yields (passes < nofFrames)
      (ReturnsIff (flow.Pushes ctx frameSize grid s.pool l ∨
          l < cp.nsymb ∧ (s.pool (getPoolEntry ctx.slot l)).Exhausted)
        fun r => (r.1 = true ∧ flow.Pushes ctx frameSize grid s.pool l ∧ Advanced ctx l s r.2) ∨
          (r.1 = false ∧ r.2 = s ∧ l < cp.nsymb ∧ (s.pool (getPoolEntry ctx.slot l)).Exhausted))
      (flow.burstSymbol ctx frameSize grid passes l s) := by
  rw [burstSymbol]
  split
  swap
  · next hl => exact fun h => hl (h.elim (·.lt) And.left)
  next hl =>
  by_cases hin : (s.pool (getPoolEntry ctx.slot l)).BlockInside
  swap
  · have hreserve : (s.pool (getPoolEntry ctx.slot l)).reserveBuffers = none := if_neg hin
    simp only [hreserve]
    exact fun h => hin (h.elim (·.room.inside) (·.2.inside))
  by_cases hfree : (s.pool (getPoolEntry ctx.slot l)).BlockFree
  swap
  · have hreserve : (s.pool (getPoolEntry ctx.slot l)).reserveBuffers = some (none, _) :=
      (if_pos hin).trans (if_neg hfree)
    simp only [hreserve]
    exact ⟨.inr ⟨hl, hin, hfree⟩, .inr ⟨rfl, rfl, hl, hin, hfree⟩⟩
  obtain ⟨array, hreserve, hquant', hused⟩ : ∃ array,
      (s.pool (getPoolEntry ctx.slot l)).reserveBuffers =
        some (some (s.pool (getPoolEntry ctx.slot l)).writePosition, array) ∧
      array.incrementQuant = nofFrames ∧
      array.usedBuffers = (s.pool (getPoolEntry ctx.slot l)).usedBuffers :=
    ⟨_, (if_pos hin).trans (if_pos hfree), hquant _, rfl⟩
  have hspec := flow.symbolLoop_fills frameSize hframes ⟨ctx.slot, l, ctx.eaxc⟩ s.seqId
    (show (grid ⟨l, hl⟩).toList.length = _ from Vector.length_toList) passes
  simp only [hreserve, hquant']
  split
  · next hloop =>
    rw [hloop] at hspec
    exact hspec
  · next hloop =>
    rw [hloop] at hspec
    intro h
    have hpushes := h.resolve_right fun hex => hex.2.taken hfree
    exact hspec ⟨hpushes.sendable, hpushes.compressible⟩
  next hloop =>
  rw [hloop] at hspec
  obtain ⟨⟨hsend, hcompressible⟩, built, hlen, rfl⟩ := hspec
  have hne : built ≠ [] := List.ne_nil_of_length_pos (hlen ▸ flow.nofFrames_pos frameSize hframes)
  have hpush := FrameBufferArray.pushBuffers_spec (ctx.slot.symbol ⟨l, hl⟩)
    (s.pool (getPoolEntry ctx.slot l)).writePosition built array
  rw [hused, hlen, ← hquant (getPoolEntry ctx.slot l)] at hpush
  rw [content_filled]
  split
  · next hnone =>
    rw [hnone] at hpush
    exact fun h => Nat.not_le_of_lt hpush.2 (h.resolve_right fun hex => hex.2.taken hfree).room.used
  · next hsome =>
    rw [hsome] at hpush
    have hpushes : flow.Pushes ctx frameSize grid s.pool l :=
      ⟨hl, hsend, hcompressible, hin, hfree, hpush.1 hne⟩
    exact ⟨.inl hpushes, .inl ⟨rfl, hpushes,
      advanced_update hl rfl rfl rfl (hpush.2.trans (hquant'.trans (hquant _).symm))⟩⟩

theorem burstSymbol_of_pushes (hpasses : nofFrames ≤ passes)
    (h : flow.Pushes ctx frameSize grid s.pool l) :
    ∃ t, flow.burstSymbol ctx frameSize grid passes l s = some (.ok (true, t)) ∧
      Advanced ctx l s t := by
  obtain ⟨res, hres, hspec⟩ := (flow.burstSymbol_spec ctx frameSize grid hframes hquant passes
    l).exists_some (Nat.not_lt.2 hpasses)
  obtain ⟨⟨_, t⟩, rfl, ⟨rfl, -, hadv⟩ | ⟨-, -, -, hex⟩⟩ := hspec.exists_ok (.inl h)
  · exact ⟨t, hres, hadv⟩
  · exact absurd h.room.free hex.taken

/-! ## The loop -/

/-- Symbols that are pushed one after the other, none of them the end of the loop. -/
theorem burstLoop_of_pushes (hpasses : nofFrames ≤ passes) (symbolEnd n : Nat)
    (hpushes : ∀ k, l ≤ k → k < l + n → flow.Pushes ctx frameSize grid s.pool k ∧ k ≠ symbolEnd)
    (rounds : Nat) :
    ∃ t, flow.burstLoop ctx frameSize grid passes symbolEnd (rounds + n) l s =
        flow.burstLoop ctx frameSize grid passes symbolEnd rounds (l + n) t ∧
      t.read = s.read ++ List.range' l n ∧ t.pushed = s.pushed ++ List.range' l n ∧
      ∀ k, l + n ≤ k → k < cp.nsymb →
        t.pool (getPoolEntry ctx.slot k) = s.pool (getPoolEntry ctx.slot k) := by
  induction n generalizing l s with
  | zero =>
    refine ⟨s, rfl, ?_, ?_, fun _ _ _ => rfl⟩
    · exact (List.append_nil _).symm
    · exact (List.append_nil _).symm
  | succ n ih =>
    obtain ⟨hfirst, hne⟩ := hpushes l (le_refl _) (by omega)
    have hle := cp.nsymb_bounds.2
    have hlt := hfirst.lt
    obtain ⟨u, hu, hadv⟩ :=
      flow.burstSymbol_of_pushes ctx frameSize grid hframes hquant hpasses hfirst
    have hrest : ∀ k, l + 1 ≤ k → k < l + 1 + n →
        flow.Pushes ctx frameSize grid u.pool k ∧ k ≠ symbolEnd := by
      intro k hk hk'
      obtain ⟨hpush, hend⟩ := hpushes k (by omega) (by omega)
      exact ⟨{ hpush with room := hadv.pool k hpush.lt (by omega) ▸ hpush.room }, hend⟩
    obtain ⟨t, ht, hread, hpushed, hpool⟩ := ih (fun e => (hadv.quant e).trans (hquant e)) hrest
    refine ⟨t, ?_, ?_, ?_, fun k hk hk' => ?_⟩
    · rw [← Nat.add_assoc, burstLoop, if_neg hne, hu]
      simp only
      rw [Nat.mod_eq_of_lt (by omega), ht, Nat.add_right_comm l 1 n, Nat.add_assoc]
    · rw [hread, hadv.read, List.append_assoc]
      rfl
    · rw [hpushed, hadv.pushed, List.append_assoc]
      rfl
    · rw [hpool k (by omega) hk', hadv.pool k hk' (by omega)]

/-- A loop that returns has pushed the symbols up to its end, or up to one that finds no frames. -/
theorem burstLoop_cases {symbolEnd rounds : Nat}
    (hl : l ≤ cp.nsymb)
    (h : flow.burstLoop ctx frameSize grid passes symbolEnd rounds l s = some (.ok t)) :
    ∃ n, t.read = s.read ++ List.range' l n ∧ t.pushed = s.pushed ++ List.range' l n ∧
      (∀ k, l ≤ k → k < l + n → flow.Pushes ctx frameSize grid s.pool k ∧ k ≠ symbolEnd) ∧
      (l + n = symbolEnd ∨
        l + n < cp.nsymb ∧ (s.pool (getPoolEntry ctx.slot (l + n))).Exhausted) := by
  induction rounds generalizing l s with
  | zero => cases h
  | succ rounds ih =>
    have hnone : ∀ v : List Nat, v = v ++ List.range' l 0 := fun v => (List.append_nil v).symm
    rw [burstLoop] at h
    by_cases hend : l = symbolEnd
    · rw [if_pos hend] at h
      obtain rfl := Except.ok.inj (Option.some.inj h)
      exact ⟨0, hnone _, hnone _, fun k hk hk' => absurd hk' (by omega), .inl hend⟩
    rw [if_neg hend] at h
    cases hsym : flow.burstSymbol ctx frameSize grid passes l s with
    | none =>
      rw [hsym] at h
      cases h
    | some r =>
      rw [hsym] at h
      obtain _ | ⟨more, u⟩ := r
      · cases h
      obtain ⟨-, ⟨rfl, hpush, hadv⟩ | ⟨rfl, rfl, hlt, hex⟩⟩ :=
        (flow.burstSymbol_spec ctx frameSize grid hframes hquant passes l).of_some hsym
      · have hlt := hpush.lt
        have hle := cp.nsymb_bounds.2
        rw [Nat.mod_eq_of_lt (by omega)] at h
        obtain ⟨n, hread, hpushed, hall, hstop⟩ :=
          ih (fun e => (hadv.quant e).trans (hquant e)) hlt h
        refine ⟨n + 1, ?_, ?_, fun k hk hk' => ?_, ?_⟩
        · rw [hread, hadv.read, List.append_assoc]
          rfl
        · rw [hpushed, hadv.pushed, List.append_assoc]
          rfl
        · by_cases hkl : k = l
          · subst hkl
            exact ⟨hpush, hend⟩
          · obtain ⟨hp, hne⟩ := hall k (by omega) (by omega)
            exact ⟨{ hp with room := hadv.pool k hp.lt hkl ▸ hp.room }, hne⟩
        · rw [← Nat.add_assoc, Nat.add_right_comm]
          refine hstop.imp_right fun ⟨hlt', hex⟩ => ⟨hlt', ?_⟩
          rwa [hadv.pool _ hlt' (by omega)] at hex
      · obtain rfl := Except.ok.inj (Option.some.inj h)
        exact ⟨0, hnone _, hnone _, fun k hk hk' => absurd hk' (by omega), .inr ⟨hlt, hex⟩⟩

end

end

/-- **The symbols of a burst.** -/
theorem burst_exact_iff {s : BurstState μ cp} {nofFrames : Nat}
    (hframes : calculateNofSegments frameSize flow.ruNofPrbs flow.comprParams flow.headersSize =
      some nofFrames) (hquant : ∀ e, (s.pool e).incrementQuant = nofFrames) :
    (∃ passes rounds t, flow.enqueueSymbolBurst ctx frameSize grid passes rounds s = some (.ok t) ∧
        t.read = s.read ++ List.range' ctx.start (ctx.stop - ctx.start) ∧
        t.pushed = s.pushed ++ List.range' ctx.start (ctx.stop - ctx.start)) ↔
      (ctx.start < ctx.stop → flow.Sendable frameSize) ∧
      (∀ l (_ : ctx.start ≤ l) (hl : l < ctx.stop), (s.pool (getPoolEntry ctx.slot l)).HasRoom ∧
        flow.Compressible (grid ⟨l, hl.trans_le ctx.stop_le⟩).toList) ∧
      (ctx.start = 0 ∨ ctx.stop - ctx.start < ctx.start ∧ ctx.stop < cp.nsymb ∧
        (s.pool (getPoolEntry ctx.slot ctx.stop)).Exhausted) := by
  have hstart := ctx.start_le
  have hstop := ctx.stop_le
  constructor
  · rintro ⟨passes, rounds, t, hrun, -, hpushed⟩
    obtain ⟨n, -, hpushed', hall, hend⟩ := flow.burstLoop_cases ctx frameSize grid hframes hquant
      (Nat.le_trans hstart hstop) hrun
    have hn : n = ctx.stop - ctx.start := by
      have hlen := congrArg List.length (List.append_cancel_left (hpushed'.symm.trans hpushed))
      simpa using hlen
    subst hn
    rw [Nat.add_sub_cancel' hstart] at hall hend
    refine ⟨fun hlt => (hall _ (le_refl _) hlt).1.sendable,
      fun l hl hl' => ⟨(hall l hl hl').1.room, (hall l hl hl').1.compressible⟩, ?_⟩
    rcases hend with heq | hex
    · exact .inl (by omega)
    · by_cases hzero : ctx.start = 0
      · exact .inl hzero
      · refine .inr ⟨?_, hex⟩
        by_contra hle
        exact (hall (ctx.stop - ctx.start) (by omega) (by omega)).2 rfl
  · rintro ⟨hsend, hsymbols, hend⟩
    have hpushes : ∀ k, ctx.start ≤ k → k < ctx.start + (ctx.stop - ctx.start) →
        flow.Pushes ctx frameSize grid s.pool k ∧ k ≠ ctx.stop - ctx.start := by
      intro k hk hk'
      obtain ⟨hroom, hcompressible⟩ := hsymbols k hk (by omega)
      refine ⟨⟨by omega, hsend (by omega), hcompressible, hroom⟩, ?_⟩
      rcases hend with hzero | ⟨hlt, -, -⟩
      · omega
      · omega
    obtain ⟨t, ht, hread, hpushed, hpool⟩ := flow.burstLoop_of_pushes ctx frameSize grid hframes
      hquant (le_refl _) _ _ hpushes 1
    rw [Nat.add_sub_cancel' hstart] at ht hpool
    refine ⟨nofFrames, 1 + (ctx.stop - ctx.start), t, ?_, hread, hpushed⟩
    rw [enqueueSymbolBurst, ht, burstLoop]
    rcases hend with hzero | ⟨hlt, hlt', hex⟩
    · rw [if_pos (by omega)]
    · rw [← hpool _ (le_refl _) hlt'] at hex
      have hreserve : (t.pool (getPoolEntry ctx.slot ctx.stop)).reserveBuffers = some (none, _) :=
        (if_pos hex.inside).trans (if_neg hex.taken)
      rw [if_neg (by omega), burstSymbol, dif_pos hlt']
      simp only [hreserve]

/-! ## Ranges of a slot -/

section

local instance neZeroEaxc : NeZero 32 := ⟨by decide⟩

/-- A range of symbols of the first slot, with 30 kHz subcarriers. -/
def firstSlot (start stop : Nat) (h : start ≤ stop) (h' : stop ≤ 14) : GridContext 1 .normal :=
  ⟨⟨0, by decide⟩, 0, start, stop, h, h'⟩

end

def emptyGrid : Fin CyclicPrefix.normal.nsymb →
    Vector (BitVec 16 × BitVec 16) (bfpFlow.ruNofPrbs * nofSubcarriersPerRb) :=
  fun _ => .replicate _ (0, 0)

/-- A pool for four antennas, one frame for each symbol. -/
def emptyPool : BurstState 1 .normal where
  pool _ := .create 1 4
  seqId := 0

theorem nofSegments_bfpFlow : calculateNofSegments 9000 bfpFlow.ruNofPrbs bfpFlow.comprParams
    bfpFlow.headersSize = some 1 := by decide

theorem sendable_bfpFlow : bfpFlow.Sendable 9000 := ⟨by decide, by decide, by decide⟩

theorem compressible_bfpFlow
    (iq : Vector (BitVec 16 × BitVec 16) (bfpFlow.ruNofPrbs * nofSubcarriersPerRb)) :
    bfpFlow.Compressible iq.toList :=
  (compressible_iff_packs rfl iq).2 fun _ _ _ _ => .inl (by decide)

theorem hasRoom_emptyPool (e : Nat) : (emptyPool.pool e).HasRoom := by
  show (FrameBufferArray.create 1 4).HasRoom
  exact ⟨by decide, by decide, by decide⟩

theorem burst_exact_iff_threeSymbols : ∃ passes rounds t,
    bfpFlow.enqueueSymbolBurst (firstSlot 0 3 (by decide) (by decide)) 9000 emptyGrid passes rounds
      emptyPool = some (.ok t) ∧ t.read = [0, 1, 2] ∧ t.pushed = [0, 1, 2] :=
  (bfpFlow.burst_exact_iff (firstSlot 0 3 (by decide) (by decide)) 9000 emptyGrid (s := emptyPool)
    nofSegments_bfpFlow fun _ => rfl).2
      ⟨fun _ => sendable_bfpFlow, fun _ _ _ => ⟨hasRoom_emptyPool _, compressible_bfpFlow _⟩,
        .inl rfl⟩

/-- Of the symbols 2, 3, 4 only the first is sent. The symbols 8, 9 are sent, and so are all after
them, until the slot is over. -/
theorem burst_not_exact :
    (∃ t, bfpFlow.enqueueSymbolBurst (firstSlot 2 5 (by decide) (by decide)) 9000 emptyGrid 273 2
      emptyPool = some (.ok t) ∧ t.pushed = [2]) ∧
    bfpFlow.enqueueSymbolBurst (firstSlot 8 10 (by decide) (by decide)) 9000 emptyGrid 273 7
      emptyPool = some (.error .assertion) := by
  have hpushes : ∀ {start stop : Nat} {h h'} k, k < 14 →
      bfpFlow.Pushes (firstSlot start stop h h') 9000 emptyGrid emptyPool.pool k :=
    fun k hk => ⟨hk, sendable_bfpFlow, compressible_bfpFlow _, hasRoom_emptyPool _⟩
  constructor
  · obtain ⟨t, ht, -, hpushed, -⟩ := bfpFlow.burstLoop_of_pushes
      (firstSlot 2 5 (by decide) (by decide)) 9000 emptyGrid nofSegments_bfpFlow (s := emptyPool)
      (l := 2) (fun _ => rfl) (by decide : 1 ≤ 273) 3 1
      (fun k hk hk' => ⟨hpushes k (by omega), by omega⟩) 1
    exact ⟨t, ht, hpushed⟩
  · obtain ⟨t, ht, -⟩ := bfpFlow.burstLoop_of_pushes
      (firstSlot 8 10 (by decide) (by decide)) 9000 emptyGrid nofSegments_bfpFlow (s := emptyPool)
      (l := 8) (fun _ => rfl) (by decide : 1 ≤ 273) 2 6
      (fun k hk hk' => ⟨hpushes k (by omega), by omega⟩) 1
    exact ht

end DownlinkDataFlow

end RadioStack.Ofh
