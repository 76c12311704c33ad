import RadioStack.CuCp.UpAllocation
import RadioStack.Lib.Run

/-!
# Bookkeeping of the user plane resources

**Theorem (`bookkeeping_iff`).** In every run of accepted requests that all fit, the three tables of
the context describe the same sessions, DRBs and flows, and the next request is handled iff it fits.

A request fits if a setup finds a DRB for every flow, no flow identity that is added is in use in
another session, and every flow that is released belongs to the session that releases it. The table
of the flows has the flow identity alone as its key, and identities are only unique in a session; a
setup with more flows than free DRBs reads the entry of an invalid DRB.
-/

namespace RadioStack.CuCp

open Std (TreeMap)

/-! ## What is claimed -/

/-- A flow of a DRB of a session, in the tables of the sessions. -/
def UpContext.Bound (c : UpContext) (x : Binding) : Prop :=
  ∃ session : UpPduSessionContext, c.pduSessions[x.session]? = some session ∧
    ∃ drb : UpDrbContext, session.drbs[x.drb]? = some drb ∧ x.flow ∈ drb.qosFlows

/-- The three tables describe the same sessions, DRBs and flows. -/
structure UpContext.Consistent (c : UpContext) : Prop where
  drbMap : ∀ {d : DrbId} {s : PduSessionId}, c.drbMap[d]? = some s ↔ ∃ f, c.Bound ⟨d, s, f⟩
  qosFlowMap : ∀ {f : QosFlowId} {d : DrbId}, c.qosFlowMap[f]? = some d ↔ ∃ s, c.Bound ⟨d, s, f⟩

/-- The bindings that an update makes. -/
def UpConfigUpdate.Binds (update : UpConfigUpdate) (x : Binding) : Prop :=
  ∃ u : UpPduSessionContextUpdate,
    (update.pduSessionsToSetupList[x.session]? = some u ∨
      update.pduSessionsToModifyList[x.session]? = some u) ∧
    ∃ drb : UpDrbContext, u.drbToAdd[x.drb]? = some drb ∧ drb.OnlyFlow x.flow

/-- Every flow of the request gets a DRB, or the modification of its session is reported as failed.
-/
def UpConfigUpdate.Serves (update : UpConfigUpdate) : Request → Prop
  | .setup items => ∀ x ∈ setupReq items.items, ∃ d, update.Binds ⟨d, x.1, x.2⟩
  | .modify items => ∀ x ∈ modifyReq items.items,
      (∃ d, update.Binds ⟨d, x.1, x.2⟩) ∨ x.1 ∈ update.pduSessionsFailedToModifyList
  | .release _ => True

/-- A request is handled: nothing is thrown, every flow has a new DRB of its own, and the tables
describe the same bindings afterwards. -/
def Handled (cfg : UpResourceManagerCfg) (c : UpContext) (r : Request) : Prop :=
  ∃ update c', calculateUpdate cfg c r = .ok update ∧ applyConfigUpdate c update = .ok c' ∧
    update.Serves r ∧
    (∀ x, update.Binds x → (1 ≤ x.drb ∧ x.drb ≤ cfg.maxNofDrbsPerUe) ∧ x.drb ∉ c.drbMap) ∧
    (∀ x y, update.Binds x → update.Binds y → x.drb = y.drb → x = y) ∧ c'.Consistent

/-- The condition on a request. -/
def Fits (cfg : UpResourceManagerCfg) (c : UpContext) : Request → Prop
  | .setup items =>
    c.drbMap.size + (setupReq items.items).length ≤ cfg.maxNofDrbsPerUe ∧
      ((setupReq items.items).map Prod.snd).Nodup ∧
      ∀ x ∈ setupReq items.items, x.2 ∉ c.qosFlowMap
  | .modify items =>
    -- of the flows to add, as many as there are DRBs for
    (((modifyReq items.items).take (cfg.maxNofDrbsPerUe - c.drbMap.size)).map Prod.snd).Nodup ∧
      ∀ item ∈ items.items, ∀ f ∈ item.flowsToRelease.items,
        (c.qosFlowMap[f]?).bind (c.drbMap[·]?) = some item.pduSessionId
  | .release _ => True

/-! ## Tables and bindings -/

section

variable {cfg : UpResourceManagerCfg} {c : UpContext} {R : Set Binding}

theorem Describes.bound_iff (h : Describes c R) {x : Binding} : c.Bound x ↔ x ∈ R := by
  constructor
  · rintro ⟨session, hsession, drb, hdrb, hflow⟩
    obtain ⟨f, hf, honly⟩ := (h.table hsession).sound hdrb
    rwa [← honly.mem_iff.1 hflow] at hf
  · intro hx
    obtain ⟨session, hsession⟩ := exists_of_mem (h.session_mem hx)
    obtain ⟨drb, hdrb, honly⟩ := (h.table hsession).complete (d := x.drb) (f := x.flow) hx
    exact ⟨session, hsession, drb, hdrb, honly.mem_iff.2 rfl⟩

theorem Describes.consistent_iff (h : Describes c R) : c.Consistent ↔ Flows c R := by
  constructor
  · intro hc f d
    simp [hc.qosFlowMap, h.bound_iff]
  · intro hflows
    refine ⟨?_, ?_⟩
    · intro d s
      simp [h.drbMap, h.bound_iff]
    · intro f d
      simp only [h.bound_iff]
      exact hflows

theorem Describes.flowsDistinct (h : Describes c R) (hflows : Flows c R) : FlowsDistinct R := by
  intro x y hx hy hxy
  have hx' : c.qosFlowMap[x.flow]? = some x.drb := hflows.2 ⟨x.session, hx⟩
  have hy' : c.qosFlowMap[y.flow]? = some y.drb := hflows.2 ⟨y.session, hy⟩
  rw [hxy, hy'] at hx'
  exact h.drb_inj hx hy (Option.some.inj hx').symm

/-- The state between two requests. -/
structure Inv (cfg : UpResourceManagerCfg) (c : UpContext) (R : Set Binding) : Prop where
  describes : Describes c R
  flows : Flows c R
  range : ∀ x ∈ R, 1 ≤ x.drb ∧ x.drb ≤ cfg.maxNofDrbsPerUe

theorem Inv.drbMap_range (h : Inv cfg c R) : ∀ d ∈ c.drbMap, 1 ≤ d ∧ d ≤ cfg.maxNofDrbsPerUe := by
  intro d hd
  obtain ⟨s, hs⟩ := exists_of_mem hd
  obtain ⟨f, hf⟩ := h.describes.drbMap.1 hs
  exact h.range _ hf

theorem Inv.size_le (h : Inv cfg c R) : c.drbMap.size ≤ cfg.maxNofDrbsPerUe := by
  have hsub : c.drbMap.keys ⊆ List.range' 1 cfg.maxNofDrbsPerUe := by
    intro d hd
    have hrange := h.drbMap_range d (TreeMap.mem_keys.1 hd)
    rw [List.mem_range'_1]
    exact ⟨hrange.1, Nat.lt_one_add_iff.2 hrange.2⟩
  have hle := (List.subperm_of_subset TreeMap.nodup_keys hsub).length_le
  rwa [TreeMap.length_keys, List.length_range'] at hle

theorem Inv.not_mem_of_new (h : Inv cfg c R) {d : DrbId} (hd : d ∉ c.drbMap) :
    ∀ y ∈ R, y.drb ≠ d := by
  rintro y hy rfl
  exact hd (mem_of_getElem? (h.describes.drbMap.2 ⟨y.flow, hy⟩))

variable {f : QosFlowId}

theorem Inv.flow_mem_iff (h : Inv cfg c R) :
    f ∈ c.qosFlowMap ↔ ∃ y ∈ R, y.flow = f := by
  constructor
  · intro hf
    obtain ⟨d, hd⟩ := exists_of_mem hf
    obtain ⟨s, hs⟩ := h.flows.1 hd
    exact ⟨_, hs, rfl⟩
  · rintro ⟨y, hy, rfl⟩
    exact mem_of_getElem? (h.flows.2 ⟨y.session, hy⟩)

theorem Inv.good (h : Inv cfg c R) {U : Set Binding} (hsub : R ⊆ U) : Good U c R :=
  ⟨h.describes, hsub, fun _ => h.flows⟩

/-! ## The update of a request -/

variable {m : TreeMap PduSessionId UpPduSessionContextUpdate}
  {req : List (PduSessionId × QosFlowId)} {log : List Binding}

section

variable (h : Stored cfg c m req log)

include h

theorem Stored.mem_iff {u : UpPduSessionContextUpdate} :
    u ∈ m.toList.map Prod.snd ↔ m[u.id]? = some u := by
  constructor
  · intro hu
    obtain ⟨⟨s, u'⟩, hmem, rfl⟩ := List.mem_map.1 hu
    have hs := TreeMap.mem_toList_iff_getElem?_eq_some.1 hmem
    rw [(h.table hs).1]
    exact hs
  · exact fun hu => List.mem_map.2 ⟨_, TreeMap.mem_toList_iff_getElem?_eq_some.2 hu, rfl⟩

theorem Stored.nodup_ids : ((m.toList.map Prod.snd).map UpPduSessionContextUpdate.id).Nodup := by
  have hids : (m.toList.map Prod.snd).map UpPduSessionContextUpdate.id = m.keys := by
    rw [← TreeMap.map_fst_toList_eq_keys, List.map_map]
    refine List.map_congr_left fun x hx => ?_
    exact (h.table (TreeMap.mem_toList_iff_getElem?_eq_some.1 hx)).1
  rw [hids]
  exact TreeMap.nodup_keys

theorem Stored.fresh (hinv : Inv cfg c R) :
    ∀ u ∈ m.toList.map Prod.snd, u.Fresh (R ∪ {x | x ∈ log}) R := by
  intro u hu d drb hdrb
  obtain ⟨f, hf, honly⟩ := (h.table (h.mem_iff.1 hu)).2.sound hdrb
  exact ⟨f, honly, .inr hf, fun hx => hinv.not_mem_of_new (h.new _ hf).2 _ hx rfl⟩

theorem Stored.injOn_drb (hinv : Inv cfg c R) :
    Set.InjOn Binding.drb (R ∪ {x | x ∈ log}) := by
  rintro x (hx | hx) y (hy | hy) hxy
  · exact hinv.describes.drb_inj hx hy hxy
  · exact absurd hxy (hinv.not_mem_of_new (h.new y hy).2 x hx)
  · exact absurd hxy.symm (hinv.not_mem_of_new (h.new x hx).2 y hy)
  · exact List.inj_on_of_nodup_map h.nodup hx hy hxy

theorem Stored.binds_iff {x : Binding} :
    (∃ u : UpPduSessionContextUpdate, m[x.session]? = some u ∧
      ∃ drb : UpDrbContext, u.drbToAdd[x.drb]? = some drb ∧ drb.OnlyFlow x.flow) ↔ x ∈ log := by
  constructor
  · rintro ⟨u, hu, drb, hdrb, honly⟩
    obtain ⟨f, hf, honly'⟩ := (h.table hu).2.sound hdrb
    have heq : x = ⟨x.drb, x.session, f⟩ := Binding.ext rfl rfl (honly.eq honly')
    rw [heq]
    exact hf
  · intro hx
    obtain ⟨u, hu⟩ := exists_of_mem (h.complete x hx)
    exact ⟨u, hu, (h.table hu).2.complete (d := x.drb) (f := x.flow) hx⟩

theorem Stored.binds {update : UpConfigUpdate} (hupdate : update.Only m) (x : Binding) :
    update.Binds x ↔ x ∈ log := by
  rw [← h.binds_iff]
  refine exists_congr fun u => and_congr_left fun _ => ?_
  rcases hupdate with ⟨hsetup, hmodify⟩ | ⟨hsetup, hmodify⟩
  · rw [hsetup, hmodify]
    exact or_iff_left not_emptyc_eq_some
  · rw [hsetup, hmodify]
    exact or_iff_right not_emptyc_eq_some

theorem Stored.log_subset {R' : Set Binding}
    (hall : ∀ u ∈ m.toList.map Prod.snd, u.bindings ⊆ R') : ∀ x ∈ log, x ∈ R' := by
  intro x hx
  obtain ⟨u, hu, hdrb⟩ := h.binds_iff.2 hx
  obtain ⟨hid, -⟩ := h.table hu
  exact hall u (h.mem_iff.2 (hid ▸ hu)) ⟨hid.symm, hdrb⟩

theorem Stored.map_flow :
    (req.take (cfg.maxNofDrbsPerUe - c.drbMap.size)).map Prod.snd = log.map Binding.flow := by
  rw [← h.served, List.map_map]
  rfl

theorem Stored.nodup_flow {R' : Set Binding}
    (hdistinct : FlowsDistinct R') (hlog : ∀ x ∈ log, x ∈ R') :
    (log.map Binding.flow).Nodup :=
  (List.Nodup.of_map _ h.nodup).map_on fun x hx y hy hxy => hdistinct (hlog x hx) (hlog y hy) hxy

/-- The flows that are added are distinct and new iff no identity is bound twice afterwards. -/
theorem Stored.flowsDistinct_iff (hinv : Inv cfg c R) :
    FlowsDistinct (R ∪ {x | x ∈ log}) ↔
      ((req.take (cfg.maxNofDrbsPerUe - c.drbMap.size)).map Prod.snd).Nodup ∧
        ∀ x ∈ req.take (cfg.maxNofDrbsPerUe - c.drbMap.size), x.2 ∉ c.qosFlowMap := by
  have hnew : (∀ x ∈ req.take (cfg.maxNofDrbsPerUe - c.drbMap.size), x.2 ∉ c.qosFlowMap) ↔
      ∀ x ∈ log, x.flow ∉ c.qosFlowMap := by
    rw [← h.served, List.forall_mem_map]
  rw [h.map_flow, hnew]
  constructor
  · intro hdistinct
    refine ⟨h.nodup_flow hdistinct fun x hx => .inr hx, fun x hx hmem => ?_⟩
    · obtain ⟨y, hy, hxy⟩ := hinv.flow_mem_iff.1 hmem
      have heq := hdistinct (.inl hy) (.inr hx) hxy
      exact hinv.not_mem_of_new (h.new x hx).2 y hy (by rw [heq])
  · rintro ⟨hnodup, hnew⟩ x y (hx | hx) (hy | hy) hxy
    · exact hinv.describes.flowsDistinct hinv.flows hx hy hxy
    · exact absurd (hinv.flow_mem_iff.2 ⟨x, hx, hxy⟩) (hnew y hy)
    · exact absurd (hinv.flow_mem_iff.2 ⟨y, hy, hxy.symm⟩) (hnew x hx)
    · exact List.inj_on_of_nodup_map hnodup hx hy hxy

theorem Stored.served_iff {s : PduSessionId} :
    (s, f) ∈ req.take (cfg.maxNofDrbsPerUe - c.drbMap.size) ↔ ∃ d, ⟨d, s, f⟩ ∈ log := by
  rw [← h.served, List.mem_map]
  constructor
  · rintro ⟨x, hx, heq⟩
    cases heq
    exact ⟨x.drb, hx⟩
  · rintro ⟨d, hd⟩
    exact ⟨_, hd, rfl⟩

end

/-! ## One request -/

/-- `calculate_update` and `apply_config_update` in a row. -/
def handleRequest (cfg : UpResourceManagerCfg) (c : UpContext) (r : Request) :
    Except UpFault UpContext := do
  let update ← calculateUpdate cfg c r
  applyConfigUpdate c update

variable {r : Request}

/-- A request is handled iff it fits, and the invariant holds afterwards. -/
def Decided (cfg : UpResourceManagerCfg) (c : UpContext) (r : Request) : Prop :=
  (Handled cfg c r ↔ Fits cfg c r) ∧
    (Fits cfg c r → ∃ c' R', handleRequest cfg c r = .ok c' ∧ Inv cfg c' R')

theorem decided_of {P : Prop} {post : UpConfigUpdate → Prop} {x : Except UpFault UpConfigUpdate}
    (hcalc : calculateUpdate cfg c r = x) (h : ReturnsIff P post x) (hP : Fits cfg c r → P)
    (hok : ∀ update, calculateUpdate cfg c r = .ok update → P → post update → Decided cfg c r) :
    Decided cfg c r := by
  cases x with
  | ok update => exact hok update hcalc h.1 h.2
  | error fault =>
    have hnot := mt hP h
    refine ⟨iff_of_false ?_ hnot, fun hfits => absurd hfits hnot⟩
    rintro ⟨update, c', hcalc', -⟩
    cases hcalc.symm.trans hcalc'

/-- A request whose update is applied: the table of the flows decides. -/
theorem Stored.decided (h : Stored cfg c m req log) (hinv : Inv cfg c R)
    {update : UpConfigUpdate} {c' : UpContext} {R' : Set Binding} (hupdate : update.Only m)
    (hok : calculateUpdate cfg c r = .ok update) (happly : applyConfigUpdate c update = .ok c')
    (hserves : update.Serves r) (hgood : Good (R ∪ {x | x ∈ log}) c' R')
    (hiff : Flows c' R' ↔ Fits cfg c r) : Decided cfg c r := by
  have hbinds := h.binds hupdate
  refine ⟨⟨?_, fun hfits => ?_⟩, fun hfits => ?_⟩
  · rintro ⟨update', c'', hok', happly', -, -, -, hcons⟩
    cases hok.symm.trans hok'
    cases happly.symm.trans happly'
    exact hiff.1 (hgood.consistent_iff.1 hcons)
  · refine ⟨update, c', hok, happly, hserves, fun x hx => h.new x ((hbinds x).1 hx), ?_,
      hgood.consistent_iff.2 (hiff.2 hfits)⟩
    intro x y hx hy hxy
    exact List.inj_on_of_nodup_map h.nodup ((hbinds x).1 hx) ((hbinds y).1 hy) hxy
  · refine ⟨c', R', ?_, hgood.toDescribes, hiff.2 hfits, fun x hx => ?_⟩
    · rw [handleRequest, hok]
      exact happly
    · rcases hgood.sub hx with hx | hx
      · exact hinv.range x hx
      · exact (h.new x hx).1

theorem setup_decided (hinv : Inv cfg c R)
    {items : SlottedIdVector SetupItem SetupItem.pduSessionId}
    (hvalid : isValid cfg c (.setup items) = true) : Decided cfg c (.setup items) := by
  have hitems : ∀ item ∈ items.items, item.pduSessionId ∉ c.pduSessions ∧
      ∀ flow ∈ item.flows.items, (getFiveQi cfg flow).isSome := by
    simp only [isValid, Bool.and_eq_true, List.all_eq_true, decide_eq_true_eq] at hvalid
    exact hvalid.2
  have hspec := calculateSetup_spec hinv.drbMap_range items.items
    (.empty c.pduSessions.isEmpty) [] [] rfl hitems items.nodup
    (fun _ _ => TreeMap.not_mem_emptyc) (fun _ hs => absurd hs TreeMap.not_mem_emptyc) hinv.size_le
    Stored.start
  refine decided_of (if_pos hvalid) hspec And.left ?_
  rintro update hok hle ⟨⟨log, hstored⟩, hmodify, hremove, hkeys⟩
  have hupdate : update.Only update.pduSessionsToSetupList := .inl ⟨rfl, hmodify⟩
  obtain ⟨R', hgood, hsub, hall⟩ := foldl_applyAddedSession (hstored.injOn_drb hinv)
    (hinv.good Set.subset_union_left) hstored.nodup_ids (hstored.fresh hinv)
    fun u hu => hkeys _ (mem_of_getElem? (hstored.mem_iff.1 hu))
  have hR' : R' = R ∪ {x | x ∈ log} :=
    hgood.sub.antisymm (Set.union_subset hsub (hstored.log_subset hall))
  have happly : applyConfigUpdate c update = .ok
      ((update.pduSessionsToSetupList.toList.map Prod.snd).foldl applyAddedSession c) := by
    rw [applyConfigUpdate, hmodify, hremove]
    rfl
  have htake : (setupReq items.items).take (cfg.maxNofDrbsPerUe - c.drbMap.size) =
      setupReq items.items := List.take_of_length_le (by omega)
  have hiff := hstored.flowsDistinct_iff hinv
  rw [List.nil_append, htake] at hiff
  refine hstored.decided hinv hupdate hok happly (fun x hx => ?_) hgood
    ⟨fun hfl => ⟨hle, hiff.1 (hR' ▸ hgood.flowsDistinct hfl)⟩,
      fun hfits => hgood.flows (hiff.2 hfits.2)⟩
  obtain ⟨d, hd⟩ := hstored.served_iff.1 (htake.symm ▸ hx)
  exact ⟨d, (hstored.binds hupdate _).2 hd⟩

/-- A flow is released from its own session iff the tables lead to this session. -/
theorem Inv.releases_iff (hinv : Inv cfg c R) {s : PduSessionId} :
    (c.qosFlowMap[f]?).bind (c.drbMap[·]?) = some s ↔ ∃ d, ⟨d, s, f⟩ ∈ R := by
  rw [Option.bind_eq_some_iff]
  constructor
  · rintro ⟨d, hd, hs⟩
    obtain ⟨s', hx⟩ := hinv.flows.1 hd
    obtain ⟨f', hy⟩ := hinv.describes.drbMap.1 hs
    have heq := congrArg Binding.session (hinv.describes.drb_inj hx hy rfl)
    exact ⟨d, by rwa [← show s' = s from heq]⟩
  · rintro ⟨d, hd⟩
    exact ⟨d, hinv.flows.2 ⟨s, hd⟩, hinv.describes.drbMap.2 ⟨f, hd⟩⟩

theorem modify_decided (hinv : Inv cfg c R)
    {items : SlottedIdVector ModifyItem ModifyItem.pduSessionId}
    (hvalid : isValid cfg c (.modify items) = true) : Decided cfg c (.modify items) := by
  have hcalc : calculateUpdate cfg c (.modify items) = _ := if_pos hvalid
  simp only [isValid, Bool.and_eq_true, List.all_eq_true, decide_eq_true_eq] at hvalid
  have hitems : ∀ item ∈ items.items, item.pduSessionId ∈ c.pduSessions ∧
      ∀ flow ∈ item.flowsToAdd.items, (getFiveQi cfg flow).isSome :=
    fun item hitem => ⟨(hvalid.2 item hitem).1.1.1,
      fun flow hflow => ((hvalid.2 item hitem).1.1.2 flow hflow).1⟩
  have hspec := calculateModify_spec hinv.drbMap_range hinv.describes hinv.flows items.items
    (.empty false) [] [] rfl hitems items.nodup (fun _ _ => TreeMap.not_mem_emptyc)
    (fun _ hs => absurd hs TreeMap.not_mem_emptyc) (fun hs => absurd hs not_emptyc_eq_some)
    Stored.start
  refine decided_of hcalc hspec
    (fun hfits item hitem f hf => hinv.releases_iff.1 (hfits.2 item hitem f hf)) ?_
  rintro update hok hrelease ⟨⟨log, hstored⟩, hremovals, hsetup, hremove, hkeys, -, hserved⟩
  have hupdate : update.Only update.pduSessionsToModifyList := .inr ⟨hsetup, rfl⟩
  obtain ⟨c', R', hfold, hgood, hall⟩ := foldlM_applyModifiedSession (hstored.injOn_drb hinv)
    (hinv.good Set.subset_union_left) hstored.nodup_ids (hstored.fresh hinv)
    (fun u hu => hkeys _ (mem_of_getElem? (hstored.mem_iff.1 hu)))
    (fun u hu => (hremovals (hstored.mem_iff.1 hu)).1)
    fun u hu => (hremovals (hstored.mem_iff.1 hu)).2
  have happly : applyConfigUpdate c update = .ok c' := by
    rw [applyConfigUpdate, hsetup, hremove]
    show (List.foldlM applyModifiedSession c _ >>= _) = _
    rw [hfold]
    rfl
  refine hstored.decided hinv hupdate hok happly ?_ hgood
    ⟨fun hfl => ⟨?_, fun item hitem f hf => hinv.releases_iff.2 (hrelease item hitem f hf)⟩,
      fun hfits => hgood.flows ((hstored.flowsDistinct_iff hinv).2 ⟨hfits.1, fun x hx => ?_⟩)⟩
  · intro x hx
    obtain ⟨item, hitem, hx⟩ := List.mem_flatMap.1 hx
    obtain ⟨flow, hflow, rfl⟩ := List.mem_map.1 hx
    refine (hserved item hitem flow hflow).imp_left fun hmem => ?_
    exact (hstored.served_iff.1 hmem).imp fun d hd => (hstored.binds hupdate _).2 hd
  · rw [← List.nil_append (modifyReq items.items), hstored.map_flow]
    exact hstored.nodup_flow (hgood.flowsDistinct hfl) (hstored.log_subset hall)
  · obtain ⟨item, hitem, hx⟩ := List.mem_flatMap.1 (List.mem_of_mem_take hx)
    obtain ⟨flow, hflow, rfl⟩ := List.mem_map.1 hx
    exact ((hvalid.2 item hitem).1.1.2 flow hflow).2

theorem calculateRelease_spec (sessions : List PduSessionId) (update : UpConfigUpdate)
    (hmem : ∀ s ∈ sessions, s ∈ c.pduSessions) :
    ∃ update', calculateRelease c sessions update = .ok update' ∧
      update'.pduSessionsToSetupList = update.pduSessionsToSetupList ∧
      update'.pduSessionsToModifyList = update.pduSessionsToModifyList ∧
      update'.pduSessionsToRemoveList = update.pduSessionsToRemoveList ++ sessions := by
  induction sessions generalizing update with
  | nil => exact ⟨update, rfl, rfl, rfl, by rw [List.append_nil]⟩
  | cons s sessions ih =>
    rw [List.forall_mem_cons] at hmem
    obtain ⟨session, hsession⟩ := exists_of_mem hmem.1
    rw [calculateRelease, show c.pduSessions[s]? = some session from hsession]
    obtain ⟨update', hok, hsetup, hmodify, hremove⟩ := ih { update with
      drbToRemoveList := update.drbToRemoveList ++ session.drbs.keys
      pduSessionsToRemoveList := update.pduSessionsToRemoveList ++ [s] } hmem.2
    exact ⟨update', hok, hsetup, hmodify, by rw [hremove, List.append_assoc]; rfl⟩

theorem release_decided (hinv : Inv cfg c R) {sessions : SlottedIdVector PduSessionId id}
    (hvalid : isValid cfg c (.release sessions) = true) : Decided cfg c (.release sessions) := by
  have hcalc : calculateUpdate cfg c (.release sessions) = _ := if_pos hvalid
  simp only [isValid, Bool.and_eq_true, List.all_eq_true, decide_eq_true_eq] at hvalid
  obtain ⟨update, hok, hsetup, hmodify, hremove⟩ := calculateRelease_spec sessions.items
    (.empty true) hvalid.2
  have hstored : Stored cfg c ∅ [] [] := .start
  obtain ⟨c', R', hfold, hgood⟩ := foldlM_applyRemovedSession (hstored.injOn_drb hinv)
    (hinv.good Set.subset_union_left) (by simpa using sessions.nodup) hvalid.2
  have happly : applyConfigUpdate c update = .ok c' := by
    rw [applyConfigUpdate, hsetup, hmodify, hremove]
    exact hfold
  refine hstored.decided hinv (.inl ⟨hsetup, hmodify⟩) (hcalc.trans hok) happly trivial hgood
    (iff_of_true (hgood.flows ?_) trivial)
  rintro x y (hx | hx) (hy | hy) hxy
  · exact hinv.describes.flowsDistinct hinv.flows hx hy hxy
  all_goals contradiction

theorem request_decided (hinv : Inv cfg c R) (hvalid : isValid cfg c r = true) :
    Decided cfg c r := by
  match r with
  | .setup items => exact setup_decided hinv hvalid
  | .modify items => exact modify_decided hinv hvalid
  | .release sessions => exact release_decided hinv hvalid

theorem Inv.empty : Inv cfg .empty ∅ := by
  refine ⟨⟨nofun, ?_, ?_, ?_, nofun⟩, ?_,
    nofun⟩
  · exact iff_of_false not_emptyc_eq_some fun ⟨_, hf⟩ => nomatch hf
  · exact fun hs => absurd hs not_emptyc_eq_some
  · exact fun hs => absurd hs not_emptyc_eq_some
  · exact iff_of_false not_emptyc_eq_some fun ⟨_, hs⟩ => nomatch hs

/-! ## Runs -/

/-- A request that is accepted, fits and is handled. -/
def FittingStep (cfg : UpResourceManagerCfg) (c : UpContext) (r : Request)
    (c' : UpContext) : Prop :=
  isValid cfg c r = true ∧ Fits cfg c r ∧ handleRequest cfg c r = .ok c'

theorem inv_of_run {rs : List Request} (hrun : Run (FittingStep cfg) .empty rs c) :
    ∃ R, Inv cfg c R := by
  refine hrun.invariant (P := fun c => ∃ R, Inv cfg c R) ?_ ⟨∅, Inv.empty⟩
  rintro c r c' ⟨R, hinv⟩ ⟨hvalid, hfits, hok⟩
  obtain ⟨c'', R', hok', hinv'⟩ := (request_decided hinv hvalid).2 hfits
  cases hok.symm.trans hok'
  exact ⟨R', hinv'⟩

/-- **Bookkeeping.** -/
theorem bookkeeping_iff (cfg : UpResourceManagerCfg) {rs : List Request} {c : UpContext}
    (hrun : Run (FittingStep cfg) .empty rs c) :
    c.Consistent ∧ ∀ r, isValid cfg c r = true → (Handled cfg c r ↔ Fits cfg c r) := by
  obtain ⟨R, hinv⟩ := inv_of_run hrun
  exact ⟨hinv.describes.consistent_iff.2 hinv.flows,
    fun r hvalid => (request_decided hinv hvalid).1⟩

end

/-! ## Flow identities of two sessions -/

/-- A configuration for the 5QI 9. -/
def cfgWithDrbs (maxNofDrbsPerUe : Nat) (h : maxNofDrbsPerUe ≤ maxNofDrbs) : UpResourceManagerCfg :=
  ⟨(∅ : TreeMap FiveQi PdcpConfig).insert 9 ⟨.am⟩, maxNofDrbsPerUe, h⟩

/-- A session to set up with flows of the 5QI 9. -/
def setupItem (session : PduSessionId) (flows : List QosFlowId) (h : flows.Nodup) : SetupItem :=
  ⟨session, 0, flows.map (⟨·, some 9⟩), by simpa [Function.comp_def] using h⟩

/-- Setup of the session 1 with the flow 1. -/
def setupFirst : Request := .setup ⟨[setupItem 1 [1] (by decide)], by decide⟩

/-- Setup of the session 2 with the flow 2. -/
def setupSecond : Request := .setup ⟨[setupItem 2 [2] (by decide)], by decide⟩

/-- Setup of two sessions, each with a flow 1. -/
def setupSameFlow : Request :=
  .setup ⟨[setupItem 1 [1] (by decide), setupItem 2 [1] (by decide)], by decide⟩

/-- Setup of one session with two flows. -/
def setupTwoFlows : Request := .setup ⟨[setupItem 1 [1, 2] (by decide)], by decide⟩

/-- The context after the first request of a UE. -/
def afterFirst (cfg : UpResourceManagerCfg) (r : Request) : UpContext :=
  (handleRequest cfg .empty r).toOption.getD .empty

theorem bookkeeping_twoSetups :
    Run (FittingStep (cfgWithDrbs 8 (by decide))) .empty [setupFirst]
        (afterFirst (cfgWithDrbs 8 (by decide)) setupFirst) ∧
      (afterFirst (cfgWithDrbs 8 (by decide)) setupFirst).Consistent ∧
      Handled (cfgWithDrbs 8 (by decide)) (afterFirst (cfgWithDrbs 8 (by decide)) setupFirst)
        setupSecond := by
  have hrun : Run (FittingStep (cfgWithDrbs 8 (by decide))) .empty [setupFirst]
      (afterFirst (cfgWithDrbs 8 (by decide)) setupFirst) :=
    .single ⟨by decide, ⟨by decide, by decide, by decide⟩, rfl⟩
  obtain ⟨hconsistent, hnext⟩ := bookkeeping_iff (cfgWithDrbs 8 (by decide)) hrun
  exact ⟨hrun, hconsistent,
    (hnext setupSecond (by decide)).2 ⟨by decide, by decide, by decide⟩⟩

/-- A setup that needs one DRB too many throws. Two sessions with one flow identity leave a flow
that the table of the flows does not lead to. -/
theorem setup_not_handled :
    isValid (cfgWithDrbs 1 (by decide)) .empty setupTwoFlows = true ∧
      calculateUpdate (cfgWithDrbs 1 (by decide)) .empty setupTwoFlows = .error .outOfRange ∧
      isValid (cfgWithDrbs 8 (by decide)) .empty setupSameFlow = true ∧
      handleRequest (cfgWithDrbs 8 (by decide)) .empty setupSameFlow =
        .ok (afterFirst (cfgWithDrbs 8 (by decide)) setupSameFlow) ∧
      (afterFirst (cfgWithDrbs 8 (by decide)) setupSameFlow).qosFlowMap.toList = [(1, 1)] ∧
      (afterFirst (cfgWithDrbs 8 (by decide)) setupSameFlow).Bound ⟨2, 2, 1⟩ ∧
      ¬ (afterFirst (cfgWithDrbs 8 (by decide)) setupSameFlow).Consistent := by
  have hbound : (afterFirst (cfgWithDrbs 8 (by decide)) setupSameFlow).Bound ⟨2, 2, 1⟩ :=
    ⟨_, rfl, _, rfl, by decide⟩
  refine ⟨by decide, rfl, by decide, rfl, by decide, hbound, fun hconsistent => ?_⟩
  exact absurd (hconsistent.qosFlowMap.2 ⟨2, hbound⟩) (by decide)

/-! ## Released sessions -/

section

variable {cfg : UpResourceManagerCfg} {c c' : UpContext}

theorem getElem?_released {ss : List PduSessionId}
    (h : ss.foldlM applyRemovedSession c = .ok c') (s : PduSessionId) :
    c'.pduSessions[s]? = if s ∈ ss then none else c.pduSessions[s]? := by
  induction ss generalizing c with
  | nil =>
    cases h
    simp
  | cons a ss ih =>
    rw [List.foldlM_cons] at h
    obtain ⟨c₁, h₁, h⟩ := exists_of_bind_ok h
    rw [ih h]
    unfold applyRemovedSession at h₁
    split at h₁
    · cases h₁
    · next session _ =>
      cases h₁
      have hkeep : (session.drbs.toList.foldl UpContext.forgetDrb c).pduSessions = c.pduSessions :=
        List.foldlRecOn (motive := fun c' : UpContext => c'.pduSessions = c.pduSessions) _ _ rfl
          fun _ h _ _ => h
      by_cases hs : s ∈ ss <;> simp [hs, hkeep, TreeMap.getElem?_erase, eq_comm (a := s)]

/-- **A release is exact**: in every reachable state it removes the released sessions, leaves the
others as they are, and the tables of DRBs and flows describe what is left. -/
theorem release_exact {rs : List Request} (hrun : Run (FittingStep cfg) .empty rs c)
    (sessions : SlottedIdVector PduSessionId id)
    (hvalid : isValid cfg c (.release sessions) = true) :
    ∃ c', handleRequest cfg c (.release sessions) = .ok c' ∧
      (∀ s : PduSessionId,
        c'.pduSessions[s]? = if s ∈ sessions.items then none else c.pduSessions[s]?) ∧
      c'.Consistent := by
  obtain ⟨R, hinv⟩ := inv_of_run hrun
  obtain ⟨c', R', hok, hinv'⟩ := (request_decided hinv hvalid).2 trivial
  have hmem : ∀ s ∈ sessions.items, s ∈ c.pduSessions := by
    simp only [isValid, Bool.and_eq_true, List.all_eq_true, decide_eq_true_eq] at hvalid
    exact hvalid.2
  obtain ⟨update, hupdate, hsetup, hmodify, hremove⟩ :=
    calculateRelease_spec sessions.items (.empty true) hmem
  have hfold : sessions.items.foldlM applyRemovedSession c = .ok c' := by
    rw [← hok, handleRequest, calculateUpdate, if_pos hvalid, hupdate]
    show _ = applyConfigUpdate c update
    rw [applyConfigUpdate, hsetup, hmodify, hremove]
    rfl
  exact ⟨c', hok, getElem?_released hfold, hinv'.describes.consistent_iff.2 hinv'.flows⟩

end

/-- Setup of two sessions, each with a flow of its own. -/
def setupBoth : Request :=
  .setup ⟨[setupItem 1 [1] (by decide), setupItem 2 [2] (by decide)], by decide⟩

/-- Of two sessions the first is released. -/
theorem release_exact_oneOfTwo :
    ∃ c', handleRequest (cfgWithDrbs 8 (by decide))
        (afterFirst (cfgWithDrbs 8 (by decide)) setupBoth) (.release ⟨[1], by decide⟩) = .ok c' ∧
      c'.pduSessions[1]? = none ∧ 2 ∈ c'.pduSessions ∧ c'.Consistent := by
  have hrun : Run (FittingStep (cfgWithDrbs 8 (by decide))) .empty [setupBoth]
      (afterFirst (cfgWithDrbs 8 (by decide)) setupBoth) :=
    .single ⟨by decide, ⟨by decide, by decide, by decide⟩, rfl⟩
  obtain ⟨c', hok, hsessions, hcons⟩ := release_exact hrun ⟨[1], by decide⟩ (by decide)
  refine ⟨c', hok, (hsessions 1).trans (by decide), ?_, hcons⟩
  rw [TreeMap.mem_iff_isSome_getElem?, hsessions 2]
  decide

end RadioStack.CuCp
