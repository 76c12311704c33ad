import RadioStack.CuCp.UpTables
import Mathlib.Data.List.Nodup
import Mathlib.Data.List.Perm.Subperm

/-!
# Allocation of DRBs

`calculate_update` gives the flows of a request a DRB each, in the order of the request, until no
identity is left. `Allocating` describes an update under construction: the flows so far, the
bindings made for them and the tables that record these.

**Theorems (`calculateSetup_spec`, `calculateModify_spec`).** As many flows are served as there are
free identities. A setup with more flows than that throws, a modification reports its sessions.
-/

namespace RadioStack.CuCp

open Std (TreeMap)

/-- The first of `1..max` that is not used exists iff fewer than `max` are used. -/
theorem find?_range'_isSome_iff {used : List Nat} {max : Nat} (hnodup : used.Nodup)
    (hrange : ∀ d ∈ used, 1 ≤ d ∧ d ≤ max) {p : Nat → Bool} (hp : ∀ d, p d = true ↔ d ∉ used) :
    ((List.range' 1 max).find? p).isSome ↔ used.length < max := by
  have hsub : used ⊆ List.range' 1 max := by
    intro d hd
    have := hrange d hd
    rw [List.mem_range'_1]
    omega
  have hsubperm := List.subperm_of_subset hnodup hsub
  rw [List.find?_isSome]
  constructor
  · rintro ⟨d, hmem, hd⟩
    have hle := hsubperm.length_le
    rw [List.length_range'] at hle
    refine Nat.lt_of_le_of_ne hle fun heq => (hp d).1 hd ?_
    have hperm := hsubperm.perm_of_length_le (by rw [List.length_range', heq])
    exact hperm.mem_iff.2 hmem
  · intro hlt
    by_contra hnone
    have hall : List.range' 1 max ⊆ used := by
      intro d hd
      by_contra hd'
      exact hnone ⟨d, hd, (hp d).2 hd'⟩
    have hle := (List.subperm_of_subset List.nodup_range' hall).length_le
    rw [List.length_range'] at hle
    omega

/-- An update has only the sessions of `m`, to set up or to modify. -/
def UpConfigUpdate.Only (update : UpConfigUpdate)
    (m : TreeMap PduSessionId UpPduSessionContextUpdate) : Prop :=
  (update.pduSessionsToSetupList = m ∧ update.pduSessionsToModifyList = ∅) ∨
    (update.pduSessionsToSetupList = ∅ ∧ update.pduSessionsToModifyList = m)

theorem containsDrb_iff {update : UpConfigUpdate}
    {m : TreeMap PduSessionId UpPduSessionContextUpdate} (h : update.Only m) (d : DrbId) :
    update.containsDrb d = true ↔
      ∃ (s : PduSessionId) (u : UpPduSessionContextUpdate), m[s]? = some u ∧ d ∈ u.drbToAdd := by
  have hany : (m.toList.any fun item => d ∈ item.2.drbToAdd) = true ↔
      ∃ (s : PduSessionId) (u : UpPduSessionContextUpdate), m[s]? = some u ∧ d ∈ u.drbToAdd := by
    rw [List.any_eq_true]
    constructor
    · rintro ⟨⟨s, u⟩, hmem, hd⟩
      exact ⟨s, u, TreeMap.mem_toList_iff_getElem?_eq_some.1 hmem, of_decide_eq_true hd⟩
    · rintro ⟨s, u, hs, hd⟩
      exact ⟨(s, u), TreeMap.mem_toList_iff_getElem?_eq_some.2 hs, decide_eq_true hd⟩
  rw [← hany, UpConfigUpdate.containsDrb]
  have hempty : (∅ : TreeMap PduSessionId UpPduSessionContextUpdate).toList = [] := rfl
  rcases h with ⟨hsetup, hmodify⟩ | ⟨hsetup, hmodify⟩
  · rw [hsetup, hmodify, hempty, List.any_nil, Bool.or_false]
  · rw [hsetup, hmodify, hempty, List.any_nil, Bool.false_or]

/-! ## An update under construction -/

/-- The flows `req` were requested and `log` was bound for them. -/
structure Logged (cfg : UpResourceManagerCfg) (c : UpContext)
    (req : List (PduSessionId × QosFlowId)) (log : List Binding) : Prop where
  nodup : (log.map Binding.drb).Nodup
  new : ∀ x ∈ log, (1 ≤ x.drb ∧ x.drb ≤ cfg.maxNofDrbsPerUe) ∧ x.drb ∉ c.drbMap
  served : log.map (fun x => (x.session, x.flow)) = req.take (cfg.maxNofDrbsPerUe - c.drbMap.size)

/-- There is room for another flow, and `d` is free for it. -/
structure Free (cfg : UpResourceManagerCfg) (c : UpContext) (req : List (PduSessionId × QosFlowId))
    (log : List Binding) (d : DrbId) : Prop where
  room : c.drbMap.size + req.length < cfg.maxNofDrbsPerUe
  range : 1 ≤ d ∧ d ≤ cfg.maxNofDrbsPerUe
  drbMap : d ∉ c.drbMap
  log : d ∉ log.map Binding.drb

/-- The log is recorded in the sessions of `m`. -/
structure Stored (cfg : UpResourceManagerCfg) (c : UpContext)
    (m : TreeMap PduSessionId UpPduSessionContextUpdate) (req : List (PduSessionId × QosFlowId))
    (log : List Binding) : Prop extends Logged cfg c req log where
  table : ∀ {s : PduSessionId} {u : UpPduSessionContextUpdate}, m[s]? = some u →
    u.id = s ∧ TableOf u.drbToAdd s {x | x ∈ log}
  complete : ∀ x ∈ log, x.session ∈ m

/-- The same, while the bindings of a session are made. -/
structure Allocating (cfg : UpResourceManagerCfg) (c : UpContext)
    (m : TreeMap PduSessionId UpPduSessionContextUpdate) (session : UpPduSessionContextUpdate)
    (req : List (PduSessionId × QosFlowId)) (log : List Binding) : Prop extends
    Logged cfg c req log where
  table : ∀ {s : PduSessionId} {u : UpPduSessionContextUpdate}, m[s]? = some u →
    u.id = s ∧ TableOf u.drbToAdd s {x | x ∈ log}
  openTable : TableOf session.drbToAdd session.id {x | x ∈ log}
  not_mem : session.id ∉ m
  complete : ∀ x ∈ log, x.session = session.id ∨ x.session ∈ m

section

variable {cfg : UpResourceManagerCfg} {c : UpContext}
  {m : TreeMap PduSessionId UpPduSessionContextUpdate} {session : UpPduSessionContextUpdate}
  {req : List (PduSessionId × QosFlowId)} {log : List Binding} {d : DrbId} {f : QosFlowId}

theorem Stored.start : Stored cfg c ∅ [] [] where
  nodup := List.nodup_nil
  new := nofun
  served := by rw [List.take_nil, List.map_nil]
  table := fun hs => absurd hs not_emptyc_eq_some
  complete := nofun

variable {s : PduSessionId} (hc : ∀ d ∈ c.drbMap, 1 ≤ d ∧ d ≤ cfg.maxNofDrbsPerUe)

theorem Stored.open (h : Stored cfg c m req log) (hs : s ∉ m) :
    Allocating cfg c m ⟨s, ∅, []⟩ req log := by
  refine ⟨h.toLogged, h.table, .empty fun hx => ?_, hs, fun x hx => .inr (h.complete x hx)⟩
  exact absurd (h.complete _ hx) hs

namespace Allocating

section

variable (h : Allocating cfg c m session req log)

include h

theorem store (drbToRemove : List DrbId) :
    Stored cfg c (m.insertIfNew session.id { session with drbToRemove }) req log := by
  refine ⟨h.toLogged, ?_, ?_⟩
  · intro s u hs
    rcases (insertIfNew_eq_some h.not_mem).1 hs with ⟨rfl, rfl⟩ | hs
    · exact ⟨rfl, h.openTable⟩
    · exact h.table hs
  · intro x hx
    rw [TreeMap.mem_insertIfNew, compare_eq_iff_eq]
    exact (h.complete x hx).imp_left Eq.symm

theorem length_log :
    log.length = min (cfg.maxNofDrbsPerUe - c.drbMap.size) req.length := by
  rw [← List.length_take, ← h.served, List.length_map]

theorem skip (hfull : cfg.maxNofDrbsPerUe ≤ c.drbMap.size + req.length) :
    Allocating cfg c m session (req ++ [(session.id, f)]) log :=
  { h with
    served := by rw [h.served, List.take_append_of_le_length (by omega)] }

theorem push (hd : Free cfg c req log d) (session' : UpPduSessionContextUpdate)
    (hid : session'.id = session.id) (drb : UpDrbContext) (hf : drb.OnlyFlow f)
    (hget : ∀ a : DrbId, session'.drbToAdd[a]? = if d = a then some drb else session.drbToAdd[a]?) :
    Allocating cfg c m session' (req ++ [(session.id, f)]) (log ++ [⟨d, session.id, f⟩]) := by
  have hroom := hd.room
  have hmem : ∀ {x : Binding}, x ∈ log ++ [⟨d, session.id, f⟩] ↔
      x ∈ log ∨ x = ⟨d, session.id, f⟩ := by
    intro x
    rw [List.mem_append, List.mem_singleton]
  have hapart : ∀ x ∈ log, x.drb ≠ d := fun x hx heq => hd.log (List.mem_map.2 ⟨x, hx, heq⟩)
  refine ⟨⟨?_, ?_, ?_⟩, ?_, ?_, ?_, ?_⟩
  · rw [List.map_append]
    refine List.nodup_append.2 ⟨h.nodup, List.nodup_singleton _, ?_⟩
    rintro a ha b hb rfl
    cases List.mem_singleton.1 hb
    exact hd.log ha
  · intro x hx
    rcases hmem.1 hx with hx | rfl
    · exact h.new x hx
    · exact ⟨hd.range, hd.drbMap⟩
  · rw [List.map_append, h.served, List.take_of_length_le (l := req) (by omega),
      List.take_of_length_le]
    · rfl
    · rw [List.length_append, List.length_singleton]
      omega
  · intro s u hs
    obtain ⟨hus, htab⟩ := h.table hs
    refine ⟨hus, htab.congr (hmem.trans (or_iff_left fun hx => ?_))⟩
    cases hx
    exact h.not_mem (mem_of_getElem? hs)
  · rw [hid]
    exact (h.openTable.insert hapart hf hget).congr (hmem.trans or_comm)
  · rw [hid]
    exact h.not_mem
  · intro x hx
    rw [hid]
    rcases hmem.1 hx with hx | rfl
    · exact h.complete x hx
    · exact .inl rfl

end

theorem mem_log {drbs : TreeMap DrbId UpDrbContext} (h : TableOf drbs s {x | x ∈ log})
    (hd : d ∈ drbs) : ∃ x ∈ log, x.drb = d := by
  obtain ⟨drb, hdrb⟩ := exists_of_mem hd
  obtain ⟨g, hg, -⟩ := h.sound hdrb
  exact ⟨_, hg, rfl⟩

variable {update : UpConfigUpdate}

theorem used_iff (h : Allocating cfg c m session req log) (hupdate : update.Only m) (d : DrbId) :
    (update.containsDrb d = true ∨ d ∈ session.drbToAdd) ↔ d ∈ log.map Binding.drb := by
  rw [containsDrb_iff hupdate, List.mem_map]
  constructor
  · rintro (⟨s, u, hs, hd⟩ | hd)
    · exact mem_log (h.table hs).2 hd
    · exact mem_log h.openTable hd
  · rintro ⟨x, hx, rfl⟩
    rcases h.complete x hx with hs | hs
    · obtain ⟨drb, hdrb, -⟩ := h.openTable.complete (d := x.drb) (f := x.flow) (hs ▸ hx)
      exact .inr (mem_of_getElem? hdrb)
    · obtain ⟨u, hu⟩ := exists_of_mem hs
      obtain ⟨drb, hdrb, -⟩ := (h.table hu).2.complete (d := x.drb) (f := x.flow) hx
      exact .inl ⟨_, u, hu, mem_of_getElem? hdrb⟩

include hc in
/-- `allocate_drb_id` finds a free identity if there is one. -/
theorem allocateDrbId_spec (h : Allocating cfg c m session req log) (hupdate : update.Only m) :
    (allocateDrbId session c update cfg.maxNofDrbsPerUe).elim
      (cfg.maxNofDrbsPerUe ≤ c.drbMap.size + req.length) (Free cfg c req log) := by
  have hp : ∀ d, (!(decide (d ∈ c.drbMap) || update.containsDrb d ||
      decide (d ∈ session.drbToAdd))) = true ↔ d ∉ c.drbMap.keys ++ log.map Binding.drb := by
    intro d
    rw [List.mem_append, TreeMap.mem_keys, ← h.used_iff hupdate]
    simp only [Bool.not_eq_true', Bool.or_eq_false_iff, decide_eq_false_iff_not, not_or,
      Bool.not_eq_true, and_assoc]
  have hnodup : (c.drbMap.keys ++ log.map Binding.drb).Nodup := by
    refine List.nodup_append.2 ⟨TreeMap.nodup_keys, h.nodup, ?_⟩
    rintro a ha b hb rfl
    obtain ⟨x, hx, rfl⟩ := List.mem_map.1 hb
    exact (h.new x hx).2 (TreeMap.mem_keys.1 ha)
  have hrange : ∀ d ∈ c.drbMap.keys ++ log.map Binding.drb, 1 ≤ d ∧ d ≤ cfg.maxNofDrbsPerUe := by
    intro d hd
    rcases List.mem_append.1 hd with hd | hd
    · exact hc d (TreeMap.mem_keys.1 hd)
    · obtain ⟨x, hx, rfl⟩ := List.mem_map.1 hd
      exact (h.new x hx).1
  have hiff := find?_range'_isSome_iff hnodup hrange hp
  rw [List.length_append, TreeMap.length_keys, List.length_map, h.length_log] at hiff
  rw [allocateDrbId]
  split
  · next hfull => exact Nat.le_add_right_of_le hfull
  cases hfind : (List.range' 1 cfg.maxNofDrbsPerUe).find? _ with
  | none =>
    rw [hfind] at hiff
    show cfg.maxNofDrbsPerUe ≤ c.drbMap.size + req.length
    have := hiff.2.mt nofun
    omega
  | some d =>
    have hlt := hiff.1 (by rw [hfind]; rfl)
    have hd := (hp d).1 (by simpa using List.find?_some hfind)
    have hmem := List.mem_range'_1.1 (List.mem_of_find?_eq_some hfind)
    rw [List.mem_append, not_or, TreeMap.mem_keys] at hd
    exact ⟨by omega, ⟨hmem.1, Nat.lt_one_add_iff.1 hmem.2⟩, hd.1, hd.2⟩

include hc in
theorem allocateQosFlow_spec (h : Allocating cfg c m session req log) (hupdate : update.Only m)
    {flow : QosFlowSetupRequestItem} (hflow : (getFiveQi cfg flow).isSome) :
    ReturnsIff True (fun r =>
      r = (none, session) ∧ cfg.maxNofDrbsPerUe ≤ c.drbMap.size + req.length ∨
      ∃ d drb, r = (some d, { session with drbToAdd := session.drbToAdd.insertIfNew d drb }) ∧
        drb.OnlyFlow flow.qosFlowId ∧ Free cfg c req log d)
      (allocateQosFlow cfg c update session flow) := by
  have hspec := h.allocateDrbId_spec hc hupdate
  obtain ⟨fiveQi, hfiveQi⟩ := Option.isSome_iff_exists.1 hflow
  obtain ⟨pdcpCfg, hpdcp⟩ : ∃ pdcpCfg, cfg.fiveQiConfig[fiveQi]? = some pdcpCfg := by
    refine exists_of_mem (of_decide_eq_true ?_)
    exact (Option.filter_eq_some_iff.1 hfiveQi).2
  simp only [allocateQosFlow, hfiveQi]
  refine .ite (fun hfull => ⟨trivial, .inl ⟨rfl, Nat.le_add_right_of_le hfull⟩⟩) fun _ => ?_
  cases halloc : allocateDrbId session c update cfg.maxNofDrbsPerUe with
  | none =>
    rw [halloc] at hspec
    exact ⟨trivial, .inl ⟨rfl, hspec⟩⟩
  | some d =>
    rw [halloc] at hspec
    simp only [hpdcp]
    exact ⟨trivial, .inr ⟨d, _, rfl, rfl, hspec⟩⟩

theorem not_mem_drbToAdd (h : Allocating cfg c m session req log) (hd : Free cfg c req log d) :
    d ∉ session.drbToAdd := fun hmem => hd.log (List.mem_map.2 (mem_log h.openTable hmem))

include hc in
theorem setupFlows_spec (hupdate : update.Only m) (sNssai : Nat)
    (flows : List QosFlowSetupRequestItem)
    (hflows : ∀ flow ∈ flows, (getFiveQi cfg flow).isSome)
    (hle : c.drbMap.size + req.length ≤ cfg.maxNofDrbsPerUe)
    (h : Allocating cfg c m session req log) :
    ReturnsIff (c.drbMap.size + req.length + flows.length ≤ cfg.maxNofDrbsPerUe)
      (fun session' => session'.id = session.id ∧ ∃ log', Allocating cfg c m session'
        (req ++ flows.map fun flow => (session.id, flow.qosFlowId)) log')
      (setupFlows cfg c update sNssai flows session) := by
  induction flows generalizing session req log with
  | nil =>
    refine ⟨hle, rfl, log, ?_⟩
    rwa [List.map_nil, List.append_nil]
  | cons flow flows ih =>
    rw [List.forall_mem_cons] at hflows
    rw [setupFlows, List.length_cons]
    refine (h.allocateQosFlow_spec hc hupdate hflows.1).bind (fun hnot => absurd trivial hnot) ?_
    rintro _ - (⟨rfl, hfull⟩ | ⟨d, drb, rfl, hf, hd⟩)
    · exact fun hfit => by omega
    · have hnew := h.not_mem_drbToAdd hd
      have hget : (session.drbToAdd.insertIfNew d drb)[d]? = some drb := by
        rw [getElem?_insertIfNew_of_not_mem _ hnew, if_pos rfl]
      have hroom := hd.room
      simp only [Option.bind_some, hget, Option.map_some]
      refine (ih hflows.2 ?_ (h.push hd { session with
          drbToAdd := (session.drbToAdd.insertIfNew d drb).insert d { drb with sNssai } }
        rfl { drb with sNssai } hf fun a => ?_)).imp (fun hnot _ hfit => hnot ?_) ?_
      · rw [List.length_append]
        exact hroom
      · rw [TreeMap.getElem?_insert, getElem?_insertIfNew_of_not_mem _ hnew]
        simp only [compare_eq_iff_eq]
        split <;> rfl
      · rw [List.length_append, List.length_singleton]
        omega
      · rintro session' hfit ⟨hid, log', h'⟩
        rw [List.length_append, List.length_singleton] at hfit
        rw [List.append_assoc] at h'
        exact ⟨by omega, hid, log', h'⟩

include hc in
theorem addFlows_spec (hupdate : update.Only m) (flows : List QosFlowSetupRequestItem)
    (hflows : ∀ flow ∈ flows, (getFiveQi cfg flow).isSome)
    (h : Allocating cfg c m session req log) :
    ReturnsIff True (fun r => r.1.id = session.id ∧
      (∃ log', Allocating cfg c m r.1 (req ++ flows.map fun flow => (session.id, flow.qosFlowId))
        log') ∧
      (r.2 = 0 → flows = [] ∨ c.drbMap.size + req.length + flows.length ≤ cfg.maxNofDrbsPerUe))
      (addFlows cfg c update flows session) := by
  induction flows generalizing session req log with
  | nil =>
    refine ⟨trivial, rfl, ⟨log, ?_⟩, fun _ => .inl rfl⟩
    rwa [List.map_nil, List.append_nil]
  | cons flow flows ih =>
    rw [List.forall_mem_cons] at hflows
    rw [addFlows, List.length_cons]
    refine (h.allocateQosFlow_spec hc hupdate hflows.1).bind (fun hnot => absurd trivial hnot) ?_
    rintro _ - (⟨rfl, hfull⟩ | ⟨d, drb, rfl, hf, hd⟩)
    · refine (ih hflows.2 (h.skip (f := flow.qosFlowId) hfull)).bind
        (fun hnot => absurd trivial hnot) ?_
      rintro ⟨session', failed⟩ - ⟨hid, ⟨log', h'⟩, -⟩
      rw [List.append_assoc] at h'
      exact ⟨trivial, hid, ⟨log', h'⟩, nofun⟩
    · have hget := getElem?_insertIfNew_of_not_mem drb (h.not_mem_drbToAdd hd)
      have hroom := hd.room
      refine .ite (fun _ => ?_) fun hnot =>
        absurd (.inr (mem_of_getElem? ((hget d).trans (if_pos rfl)))) hnot
      refine (ih hflows.2 (h.push hd
        { session with drbToAdd := session.drbToAdd.insertIfNew d drb } rfl drb hf hget)).imp
        (fun hnot => absurd trivial hnot) ?_
      rintro ⟨session', failed⟩ - ⟨hid, ⟨log', h'⟩, hfail⟩
      rw [List.append_assoc] at h'
      refine ⟨trivial, hid, ⟨log', h'⟩, fun hzero => .inr ?_⟩
      rcases hfail hzero with rfl | hfit
      · exact hroom
      · rw [List.length_append, List.length_singleton] at hfit
        omega

end Allocating

/-! ## Updates -/

/-- The flows of a setup, in order. -/
def setupReq (items : List SetupItem) : List (PduSessionId × QosFlowId) :=
  items.flatMap fun item => item.flows.items.map fun flow => (item.pduSessionId, flow.qosFlowId)

/-- The flows that a modification adds, in order. -/
def modifyReq (items : List ModifyItem) : List (PduSessionId × QosFlowId) :=
  items.flatMap fun item => item.flowsToAdd.items.map fun flow =>
    (item.pduSessionId, flow.qosFlowId)

theorem setupReq_cons (item : SetupItem) (items : List SetupItem) :
    setupReq (item :: items) =
      (item.flows.items.map fun flow => (item.pduSessionId, flow.qosFlowId)) ++
        setupReq items := rfl

section

variable {β : Type} {m : TreeMap Nat β} {k : Nat} {v : β}

theorem forall_mem_insertIfNew {P : Nat → Prop} (hk : P k) (hm : ∀ a ∈ m, P a) :
    ∀ a ∈ m.insertIfNew k v, P a := by
  intro a ha
  rw [TreeMap.mem_insertIfNew, compare_eq_iff_eq] at ha
  rcases ha with rfl | ha
  · exact hk
  · exact hm a ha

theorem not_mem_insertIfNew {α : Type} {key : α → Nat} {items : List α} (hk : k ∉ items.map key)
    (hnew : ∀ x ∈ items, key x ∉ m) : ∀ x ∈ items, key x ∉ m.insertIfNew k v := fun x hx hmem =>
  forall_mem_insertIfNew (P := (· ∉ items.map key)) hk
    (fun a ha hmap => by
      obtain ⟨y, hy, rfl⟩ := List.mem_map.1 hmap
      exact hnew y hy ha) _ hmem (List.mem_map_of_mem hx)

end

include hc in
theorem calculateSetup_spec (items : List SetupItem) (update : UpConfigUpdate)
    (req : List (PduSessionId × QosFlowId)) (log : List Binding)
    (hmodify : update.pduSessionsToModifyList = ∅)
    (hvalid : ∀ item ∈ items, item.pduSessionId ∉ c.pduSessions ∧
      ∀ flow ∈ item.flows.items, (getFiveQi cfg flow).isSome)
    (hnodup : (items.map SetupItem.pduSessionId).Nodup)
    (hnew : ∀ item ∈ items, item.pduSessionId ∉ update.pduSessionsToSetupList)
    (hkeys : ∀ s ∈ update.pduSessionsToSetupList, s ∉ c.pduSessions)
    (hle : c.drbMap.size + req.length ≤ cfg.maxNofDrbsPerUe)
    (h : Stored cfg c update.pduSessionsToSetupList req log) :
    ReturnsIff (c.drbMap.size + req.length + (setupReq items).length ≤ cfg.maxNofDrbsPerUe)
      (fun update' =>
        (∃ log', Stored cfg c update'.pduSessionsToSetupList (req ++ setupReq items) log') ∧
        update'.pduSessionsToModifyList = ∅ ∧
        update'.pduSessionsToRemoveList = update.pduSessionsToRemoveList ∧
        ∀ s ∈ update'.pduSessionsToSetupList, s ∉ c.pduSessions)
      (calculateSetup cfg c items update) := by
  induction items generalizing update req log with
  | nil =>
    refine ⟨hle, ⟨log, ?_⟩, hmodify, rfl, hkeys⟩
    rwa [setupReq, List.flatMap_nil, List.append_nil]
  | cons item items ih =>
    rw [List.forall_mem_cons] at hvalid hnew
    rw [List.map_cons, List.nodup_cons] at hnodup
    have hlength : (setupReq (item :: items)).length =
        item.flows.items.length + (setupReq items).length := by
      rw [setupReq_cons, List.length_append, List.length_map]
    rw [calculateSetup, if_neg hvalid.1.1, hlength, setupReq_cons, ← List.append_assoc]
    refine (Allocating.setupFlows_spec hc (.inl ⟨rfl, hmodify⟩) item.sNssai item.flows.items
      hvalid.1.2 hle (h.open hnew.1)).bind (fun hnot _ hfit => hnot (by omega)) ?_
    rintro session hfit ⟨(hid : _ = item.pduSessionId), log', halloc⟩
    refine (ih { update with
        pduSessionsToSetupList := update.pduSessionsToSetupList.insertIfNew session.id session }
      _ log' hmodify hvalid.2 hnodup.2 (not_mem_insertIfNew (hid ▸ hnodup.1) hnew.2)
      (forall_mem_insertIfNew (hid ▸ hvalid.1.1) hkeys) (by simpa [Nat.add_assoc] using hfit)
      (halloc.store session.drbToRemove)).imp (fun hnot _ hall => hnot ?_) ?_
    · rw [List.length_append, List.length_map]
      omega
    · intro update' hall hpost
      rw [List.length_append, List.length_map] at hall
      exact ⟨by omega, hpost⟩

variable {R : Set Binding}

/-- The flows to release have to be flows of the session, and their DRBs are found. -/
theorem releaseFlows_spec (h : Describes c R) (hflows : Flows c R) (flows : List QosFlowId)
    (hnodup : flows.Nodup) :
    ReturnsIff (∀ f ∈ flows, ∃ d, ⟨d, s, f⟩ ∈ R)
      (fun drbs => drbs.Nodup ∧ ∀ d ∈ drbs, ∃ f ∈ flows, ⟨d, s, f⟩ ∈ R)
      (releaseFlows c s flows) := by
  induction flows with
  | nil => exact ⟨nofun, List.nodup_nil, nofun⟩
  | cons f flows ih =>
    rw [List.nodup_cons] at hnodup
    rw [releaseFlows]
    simp only [List.forall_mem_cons]
    by_cases hmem : ∃ d, ⟨d, s, f⟩ ∈ R
    · obtain ⟨d, hx⟩ := hmem
      obtain ⟨session, hsession⟩ := exists_of_mem (h.session_mem hx)
      obtain ⟨drb, hdrb, hf⟩ := (h.table hsession).complete hx
      have hflow : c.qosFlowMap[f]? = some d := hflows.2 ⟨s, hx⟩
      have hget : (c.pduSessions[s]?).bind (fun session => session.drbs[d]?) = some drb := by
        rw [show c.pduSessions[s]? = some session from hsession, Option.bind_some, hdrb]
      simp only [hflow, hget, hf.mem_iff, not_true_eq_false, if_false, hf.size, if_true]
      refine (ih hnodup.2).bind (fun hnot _ hall => hnot hall.2) ?_
      rintro drbs hall ⟨hnd, hdrbs⟩
      refine ⟨⟨⟨d, hx⟩, hall⟩, List.nodup_cons.2 ⟨fun hd => ?_, hnd⟩, ?_⟩
      · obtain ⟨g, hg, hy⟩ := hdrbs d hd
        have heq := congrArg Binding.flow (h.drb_inj hx hy rfl)
        exact hnodup.1 (by rwa [show f = g from heq])
      · rw [List.forall_mem_cons]
        exact ⟨⟨f, List.mem_cons_self, hx⟩, fun d' hd' => (hdrbs d' hd').imp fun g hg =>
          ⟨List.mem_cons_of_mem _ hg.1, hg.2⟩⟩
    · split
      · exact fun hall => hmem hall.1
      split
      · exact fun hall => hmem hall.1
      next d _ _ drb hdrb =>
        refine .ite (fun _ hall => hmem hall.1) fun hf => absurd ?_ hmem
        obtain ⟨session, hsession, hdrb⟩ := Option.bind_eq_some_iff.1 hdrb
        obtain ⟨g, hg, honly⟩ := (h.table hsession).sound hdrb
        exact ⟨d, by rwa [honly.mem_iff.1 (not_not.1 hf)]⟩

/-- The DRBs to remove are DRBs of their sessions. -/
def Removals (R : Set Binding) (m : TreeMap PduSessionId UpPduSessionContextUpdate) : Prop :=
  ∀ {s : PduSessionId} {u : UpPduSessionContextUpdate}, m[s]? = some u →
    u.drbToRemove.Nodup ∧ ∀ d ∈ u.drbToRemove, ∃ f, ⟨d, s, f⟩ ∈ R

include hc in
theorem calculateModify_spec (hdesc : Describes c R) (hflows : Flows c R) (items : List ModifyItem)
    (update : UpConfigUpdate) (req : List (PduSessionId × QosFlowId)) (log : List Binding)
    (hsetup : update.pduSessionsToSetupList = ∅)
    (hvalid : ∀ item ∈ items, item.pduSessionId ∈ c.pduSessions ∧
      ∀ flow ∈ item.flowsToAdd.items, (getFiveQi cfg flow).isSome)
    (hnodup : (items.map ModifyItem.pduSessionId).Nodup)
    (hnew : ∀ item ∈ items, item.pduSessionId ∉ update.pduSessionsToModifyList)
    (hkeys : ∀ s ∈ update.pduSessionsToModifyList, s ∈ c.pduSessions)
    (hremovals : Removals R update.pduSessionsToModifyList)
    (h : Stored cfg c update.pduSessionsToModifyList req log) :
    ReturnsIff (∀ item ∈ items, ∀ f ∈ item.flowsToRelease.items, ∃ d, ⟨d, item.pduSessionId, f⟩ ∈ R)
      (fun update' =>
        (∃ log', Stored cfg c update'.pduSessionsToModifyList (req ++ modifyReq items) log') ∧
        Removals R update'.pduSessionsToModifyList ∧ update'.pduSessionsToSetupList = ∅ ∧
        update'.pduSessionsToRemoveList = update.pduSessionsToRemoveList ∧
        (∀ s ∈ update'.pduSessionsToModifyList, s ∈ c.pduSessions) ∧
        (∀ s ∈ update.pduSessionsFailedToModifyList, s ∈ update'.pduSessionsFailedToModifyList) ∧
        ∀ item ∈ items, ∀ flow ∈ item.flowsToAdd.items,
          (item.pduSessionId, flow.qosFlowId) ∈
              (req ++ modifyReq items).take (cfg.maxNofDrbsPerUe - c.drbMap.size) ∨
            item.pduSessionId ∈ update'.pduSessionsFailedToModifyList)
      (calculateModify cfg c items update) := by
  induction items generalizing update req log with
  | nil =>
    refine ⟨nofun, ⟨log, ?_⟩, hremovals, hsetup, rfl, hkeys, fun s hs => hs, nofun⟩
    rwa [modifyReq, List.flatMap_nil, List.append_nil]
  | cons item items ih =>
    rw [List.forall_mem_cons] at hvalid hnew
    rw [List.map_cons, List.nodup_cons] at hnodup
    rw [calculateModify, if_neg (not_not_intro hvalid.1.1), modifyReq, List.flatMap_cons,
      ← List.append_assoc]
    refine (Allocating.addFlows_spec hc (.inr ⟨hsetup, rfl⟩) item.flowsToAdd.items
      hvalid.1.2 (h.open hnew.1)).bind (fun hnot => absurd trivial hnot) ?_
    rintro ⟨session, failed⟩ - ⟨(hid : _ = item.pduSessionId), ⟨log', halloc⟩, hfail⟩
    refine (releaseFlows_spec hdesc hflows item.flowsToRelease.items
      (by simpa using item.flowsToRelease.nodup)).bind
      (fun hnot _ hall => hnot (hall item List.mem_cons_self)) ?_
    rintro drbs hrelease ⟨hnd, hmem⟩
    refine (ih { update with
        pduSessionsToModifyList :=
          update.pduSessionsToModifyList.insertIfNew session.id { session with drbToRemove := drbs }
        pduSessionsFailedToModifyList := update.pduSessionsFailedToModifyList ++
          List.replicate failed item.pduSessionId }
      _ log' hsetup hvalid.2 hnodup.2 (not_mem_insertIfNew (hid ▸ hnodup.1) hnew.2)
      (forall_mem_insertIfNew (hid ▸ hvalid.1.1) hkeys) ?_ (halloc.store drbs)).imp
      (fun hnot _ hall => hnot (List.forall_mem_cons.1 hall).2) ?_
    · intro s u hs
      rcases (insertIfNew_eq_some halloc.not_mem).1 hs with ⟨rfl, rfl⟩ | hs
      · refine ⟨hnd, fun d hd => ?_⟩
        obtain ⟨f, -, hx⟩ := hmem d hd
        exact ⟨f, by rwa [hid]⟩
      · exact hremovals hs
    · rintro update' hall ⟨hstored, hrem, hset, hremove, hkeys, hfailed, hserved⟩
      refine ⟨List.forall_mem_cons.2 ⟨hrelease, hall⟩, hstored, hrem, hset, hremove,
        hkeys, fun s hs => hfailed s (List.mem_append_left _ hs),
        List.forall_mem_cons.2 ⟨fun flow hflow => ?_, hserved⟩⟩
      rcases Nat.eq_zero_or_pos failed with hzero | hpos
      · have hfit := (hfail hzero).resolve_left (List.ne_nil_of_mem hflow)
        rw [List.take_append, List.take_of_length_le]
        · exact .inl (List.mem_append_left _ (List.mem_append_right _
            (List.mem_map.2 ⟨flow, hflow, rfl⟩)))
        · rw [List.length_append, List.length_map]
          omega
      · refine .inr (hfailed _ (List.mem_append_right _ ?_))
        exact List.mem_replicate.2 ⟨Nat.ne_of_gt hpos, rfl⟩

end

end RadioStack.CuCp
