import RadioStack.CuCp.UpResources

/-!
# The tables of the user plane resources

A *binding* is a DRB with its session and its flow. The sessions of a context describe a set of
bindings (`Describes`), and the table of the flows agrees with it (`Flows`) if no flow identity is
bound twice.

An update is applied session by session. While a session is open (`Working`), adding a DRB adds a
binding and removing one removes it; the bindings of the other sessions stay. So what an update does
to a session does not depend on the sessions before it (`foldlM_sessions`).
-/

namespace RadioStack.CuCp

open Std (TreeMap)

/-- A DRB of a session with the flow that it carries. -/
@[ext] structure Binding where
  drb : DrbId
  session : PduSessionId
  flow : QosFlowId
  deriving DecidableEq

/-- The DRB carries this flow and no other. -/
def UpDrbContext.OnlyFlow (drb : UpDrbContext) (flow : QosFlowId) : Prop :=
  drb.qosFlows.keys = [flow]

variable {drb : UpDrbContext}

theorem UpDrbContext.OnlyFlow.eq {f g : QosFlowId} (hf : drb.OnlyFlow f) (hg : drb.OnlyFlow g) :
    f = g :=
  (List.cons.inj (hf.symm.trans hg)).1

theorem UpDrbContext.OnlyFlow.mem_iff {f g : QosFlowId} (hf : drb.OnlyFlow f) :
    g ∈ drb.qosFlows ↔ g = f := by
  rw [← TreeMap.mem_keys, hf, List.mem_singleton]

variable {f : QosFlowId}

theorem UpDrbContext.OnlyFlow.toList (hf : drb.OnlyFlow f) :
    ∃ fiveQi, drb.qosFlows.toList = [(f, fiveQi)] := by
  have hkeys : drb.qosFlows.toList.map Prod.fst = [f] := by rw [TreeMap.map_fst_toList_eq_keys, hf]
  obtain ⟨⟨g, fiveQi⟩, hlist, hg⟩ := List.map_eq_singleton_iff.1 hkeys
  exact ⟨fiveQi, by rw [hlist, ← hg]⟩

theorem UpDrbContext.OnlyFlow.size (hf : drb.OnlyFlow f) :
    drb.qosFlows.size = 1 := by
  rw [← TreeMap.length_keys, hf, List.length_singleton]

variable {β : Type} {k : Nat}

theorem not_emptyc_eq_some {v : β} :
    (∅ : TreeMap Nat β)[k]? ≠ some v := by
  exact nofun

/-- The DRBs of a table are the bindings of a session. -/
structure TableOf (drbs : TreeMap DrbId UpDrbContext) (s : PduSessionId) (R : Set Binding) :
    Prop where
  sound : ∀ {d drb}, drbs[d]? = some drb → ∃ f, ⟨d, s, f⟩ ∈ R ∧ drb.OnlyFlow f
  complete : ∀ {d f}, ⟨d, s, f⟩ ∈ R → ∃ drb, drbs[d]? = some drb ∧ drb.OnlyFlow f

section

variable {drbs drbs' : TreeMap DrbId UpDrbContext} {s : PduSessionId} {R R' : Set Binding}

theorem TableOf.congr (h : TableOf drbs s R) (hR : ∀ {d f}, ⟨d, s, f⟩ ∈ R' ↔ ⟨d, s, f⟩ ∈ R) :
    TableOf drbs s R' where
  sound hdrb := (h.sound hdrb).imp fun _ hf => ⟨hR.2 hf.1, hf.2⟩
  complete hx := h.complete (hR.1 hx)

theorem TableOf.empty (h : ∀ {d f}, ⟨d, s, f⟩ ∉ R) : TableOf ∅ s R where
  sound hdrb := absurd hdrb not_emptyc_eq_some
  complete hx := absurd hx h

theorem TableOf.insert {d : DrbId} (h : TableOf drbs s R) (hd : ∀ x ∈ R, x.drb ≠ d)
    (hf : drb.OnlyFlow f) (hget : ∀ a : DrbId, drbs'[a]? = if d = a then some drb else drbs[a]?) :
    TableOf drbs' s (insert ⟨d, s, f⟩ R) := by
  refine ⟨fun {a drb'} hdrb' => ?_, fun {a g} hx => ?_⟩
  · rw [hget] at hdrb'
    split at hdrb'
    · next hda =>
      cases hdrb'
      exact ⟨f, .inl (by rw [hda]), hf⟩
    · exact (h.sound hdrb').imp fun g hg => ⟨.inr hg.1, hg.2⟩
  · rw [hget]
    rcases hx with hx | hx
    · cases hx
      exact ⟨drb, if_pos rfl, hf⟩
    · rw [if_neg fun hda => hd _ hx hda.symm]
      exact h.complete hx

end

/-- The sessions and their DRBs are those of a set of bindings. -/
structure Describes (c : UpContext) (R : Set Binding) : Prop where
  drb_inj : ∀ {x y}, x ∈ R → y ∈ R → x.drb = y.drb → x = y
  drbMap : ∀ {d s}, c.drbMap[d]? = some s ↔ ∃ f, ⟨d, s, f⟩ ∈ R
  session_id : ∀ {s} {session : UpPduSessionContext}, c.pduSessions[s]? = some session →
    session.id = s
  table : ∀ {s} {session : UpPduSessionContext}, c.pduSessions[s]? = some session →
    TableOf session.drbs s R
  session_mem : ∀ {x}, x ∈ R → x.session ∈ c.pduSessions

/-- The table of the flows is that of a set of bindings. -/
def Flows (c : UpContext) (R : Set Binding) : Prop :=
  ∀ {f d}, c.qosFlowMap[f]? = some d ↔ ∃ s, ⟨d, s, f⟩ ∈ R

/-- No flow identity is bound twice. -/
def FlowsDistinct (R : Set Binding) : Prop := ∀ {x y}, x ∈ R → y ∈ R → x.flow = y.flow → x = y

section

variable {m : TreeMap Nat β}

theorem getElem?_insertIfNew_of_not_mem (v : β) (h : k ∉ m) (a : Nat) :
    (m.insertIfNew k v)[a]? = if k = a then some v else m[a]? := by
  rw [TreeMap.getElem?_insertIfNew]
  simp only [compare_eq_iff_eq, h, not_false_eq_true, and_true]

theorem insertIfNew_eq_some {k a : Nat} {v b : β} (h : k ∉ m) :
    (m.insertIfNew k v)[a]? = some b ↔ (k = a ∧ v = b) ∨ m[a]? = some b := by
  rw [getElem?_insertIfNew_of_not_mem v h]
  by_cases hka : k = a
  · subst hka
    simp [TreeMap.getElem?_eq_none h]
  · simp [hka]

theorem erase_eq_some {k a : Nat} {b : β} :
    (m.erase k)[a]? = some b ↔ k ≠ a ∧ m[a]? = some b := by
  simp [TreeMap.getElem?_erase]

theorem mem_of_getElem? {v : β} (h : m[k]? = some v) :
    k ∈ m := TreeMap.mem_iff_isSome_getElem?.2 (by rw [h]; rfl)

theorem exists_of_mem (h : k ∈ m) :
    ∃ v, m[k]? = some v := Option.isSome_iff_exists.1 (TreeMap.mem_iff_isSome_getElem?.1 h)

end

/-- What holds while an update is applied. `U` has the bindings before it and those that it adds;
the table of the flows is right if these have distinct flows. -/
structure Good (U : Set Binding) (c : UpContext) (R : Set Binding) : Prop
    extends Describes c R where
  sub : R ⊆ U
  flows : FlowsDistinct U → Flows c R

/-- The session `s` is open: its table and those of the context are of `R`, the sessions are still
those of `c`, and `R₀` has changed in this session only. -/
structure Working (U : Set Binding) (c : UpContext) (R₀ : Set Binding) (s : PduSessionId)
    (st : UpPduSessionContext × UpContext) (R : Set Binding) : Prop where
  id : st.1.id = s
  sessions : st.2.pduSessions = c.pduSessions
  sub : R ⊆ U
  other : ∀ {x}, x.session ≠ s → (x ∈ R ↔ x ∈ R₀)
  drbMap : ∀ {d s'}, st.2.drbMap[d]? = some s' ↔ ∃ f, ⟨d, s', f⟩ ∈ R
  table : TableOf st.1.drbs s R
  flows : FlowsDistinct U → Flows st.2 R

/-- Only what belongs to the session `s` has changed. -/
structure SameBut (s : PduSessionId) (c c' : UpContext) (R R' : Set Binding) : Prop where
  bindings : ∀ {x}, x.session ≠ s → (x ∈ R' ↔ x ∈ R)
  sessions : ∀ {s'}, s' ≠ s → (s' ∈ c'.pduSessions ↔ s' ∈ c.pduSessions)

variable {U R R₀ : Set Binding} {c : UpContext} {s : PduSessionId} {d : DrbId}

theorem Good.open (h : Good U c R) {session : UpPduSessionContext}
    (hs : c.pduSessions[s]? = some session) : Working U c R s (session, c) R :=
  ⟨h.session_id hs, rfl, h.sub, fun _ => Iff.rfl, h.drbMap, h.table hs, h.flows⟩

theorem Good.openNew (h : Good U c R) (hs : s ∉ c.pduSessions) : Working U c R s (⟨s, ∅⟩, c) R :=
  ⟨rfl, rfl, h.sub, fun _ => Iff.rfl, h.drbMap, .empty fun hx => hs (h.session_mem hx), h.flows⟩

namespace Working

variable {st : UpPduSessionContext × UpContext} (hU : Set.InjOn Binding.drb U)
  (h : Working U c R₀ s st R)

include hU h

theorem add (hx : ⟨d, s, f⟩ ∈ U) (hnew : ⟨d, s, f⟩ ∉ R) (hf : drb.OnlyFlow f) :
    Working U c R₀ s (applyNewDrb st (d, drb)) (insert ⟨d, s, f⟩ R) := by
  have hd : ∀ y ∈ R, y.drb ≠ d := fun y hy hyd => hnew (hU (h.sub hy) hx hyd ▸ hy)
  have hdrbMap : d ∉ st.2.drbMap := by
    intro hmem
    obtain ⟨s', hs'⟩ := exists_of_mem hmem
    obtain ⟨g, hg⟩ := h.drbMap.1 hs'
    exact hd _ hg rfl
  have hdrbs : d ∉ st.1.drbs := by
    intro hmem
    obtain ⟨drb', hdrb'⟩ := exists_of_mem hmem
    obtain ⟨g, hg, -⟩ := h.table.sound hdrb'
    exact hd _ hg rfl
  refine ⟨h.id, h.sessions, Set.insert_subset hx h.sub, fun {x} hxs => ?_, fun {d' s'} => ?_,
    h.table.insert hd hf (getElem?_insertIfNew_of_not_mem drb hdrbs), fun hdistinct {g d'} => ?_⟩
  · rw [← h.other hxs]
    refine or_iff_right ?_
    rintro rfl
    exact hxs rfl
  · refine (insertIfNew_eq_some hdrbMap).trans ((or_congr_right h.drbMap).trans ?_)
    simp [h.id, exists_or, eq_comm]
  · have hflow : f ∉ st.2.qosFlowMap := by
      intro hmem
      obtain ⟨d', hd'⟩ := exists_of_mem hmem
      obtain ⟨s', hs'⟩ := (h.flows hdistinct).1 hd'
      exact hnew (hdistinct (h.sub hs') hx rfl ▸ hs')
    obtain ⟨fiveQi, hlist⟩ := hf.toList
    show (drb.qosFlows.toList.foldl (fun flows flow => flows.insertIfNew flow.1 d)
      st.2.qosFlowMap)[g]? = some d' ↔ _
    rw [hlist, List.foldl_cons, List.foldl_nil, insertIfNew_eq_some hflow, h.flows hdistinct]
    simp [exists_or, and_comm, eq_comm]

theorem remove (hdrb : st.1.drbs[d]? = some drb) :
    Working U c R₀ s ({ st.1 with drbs := st.1.drbs.erase d }, st.2.forgetDrb (d, drb))
      {x ∈ R | x.drb ≠ d} := by
  obtain ⟨f, hx, hf⟩ := h.table.sound hdrb
  have heq : ∀ {y}, y ∈ R → y.drb = d → y = ⟨d, s, f⟩ := fun hy => hU (h.sub hy) (h.sub hx)
  refine ⟨h.id, h.sessions, fun y hy => h.sub hy.1, fun {y} hys => ?_, fun {d' s'} => ?_, ⟨?_, ?_⟩,
    fun hdistinct {g d'} => ?_⟩
  · rw [← h.other hys]
    exact ⟨And.left, fun hy => ⟨hy, fun hyd => hys (by rw [heq hy hyd])⟩⟩
  · refine erase_eq_some.trans ((and_congr_right' h.drbMap).trans ?_)
    simp [and_comm, eq_comm]
  · intro d' drb' hdrb'
    obtain ⟨hdd, hdrb'⟩ := erase_eq_some.1 hdrb'
    obtain ⟨g, hg, honly⟩ := h.table.sound hdrb'
    exact ⟨g, ⟨hg, Ne.symm hdd⟩, honly⟩
  · rintro d' g ⟨hg, hne⟩
    obtain ⟨drb', hdrb', honly⟩ := h.table.complete hg
    exact ⟨drb', erase_eq_some.2 ⟨Ne.symm hne, hdrb'⟩, honly⟩
  · obtain ⟨fiveQi, hlist⟩ := hf.toList
    simp only [UpContext.forgetDrb, eraseFlows, hlist, List.foldl_cons, List.foldl_nil,
      erase_eq_some, h.flows hdistinct]
    constructor
    · rintro ⟨hfg, s', hs'⟩
      exact ⟨s', hs', fun hdd => hfg (congrArg Binding.flow (heq hs' hdd)).symm⟩
    · rintro ⟨s', hs', hd'⟩
      refine ⟨?_, s', hs'⟩
      rintro rfl
      exact hd' (by rw [hdistinct (h.sub hs') (h.sub hx) rfl])

theorem addAll (drbs : List (DrbId × UpDrbContext)) (hnodup : (drbs.map Prod.fst).Nodup)
    (honly : ∀ x ∈ drbs, ∃ f, x.2.OnlyFlow f ∧ ⟨x.1, s, f⟩ ∈ U ∧ ⟨x.1, s, f⟩ ∉ R) :
    ∃ R', Working U c R₀ s (drbs.foldl applyNewDrb st) R' ∧ R ⊆ R' ∧
      ∀ x ∈ drbs, ∀ f, x.2.OnlyFlow f → ⟨x.1, s, f⟩ ∈ R' := by
  induction drbs generalizing st R with
  | nil => exact ⟨R, h, Set.Subset.rfl, nofun⟩
  | cons x drbs ih =>
    rw [List.map_cons, List.nodup_cons] at hnodup
    rw [List.forall_mem_cons] at honly
    obtain ⟨f, hf, hx, hnew⟩ := honly.1
    obtain ⟨R', hR', hsub, hall⟩ := ih (h.add hU hx hnew hf) hnodup.2 fun y hy => by
      obtain ⟨g, hg, hyU, hnot⟩ := honly.2 y hy
      refine ⟨g, hg, hyU, ?_⟩
      rintro (heq | hmem)
      · exact hnodup.1 (List.mem_map.2 ⟨y, hy, congrArg Binding.drb heq⟩)
      · exact hnot hmem
    refine ⟨R', hR', fun y hy => hsub (.inr hy), List.forall_mem_cons.2 ⟨fun g hg => ?_, hall⟩⟩
    rw [hg.eq hf]
    exact hsub (.inl rfl)

theorem removeAll (drbs : List DrbId) (hnodup : drbs.Nodup)
    (hmem : ∀ d ∈ drbs, ∃ f, ⟨d, s, f⟩ ∈ R) :
    ∃ st' R', applyUpdateForRemovedDrbs drbs st = .ok st' ∧ Working U c R₀ s st' R' ∧
      ∀ {x}, x ∈ R' ↔ x ∈ R ∧ x.drb ∉ drbs := by
  induction drbs generalizing st R with
  | nil => exact ⟨st, R, rfl, h, by simp⟩
  | cons d drbs ih =>
    rw [List.nodup_cons] at hnodup
    rw [List.forall_mem_cons] at hmem
    obtain ⟨f, hx⟩ := hmem.1
    obtain ⟨drb, hdrb, -⟩ := h.table.complete hx
    obtain ⟨st', R', hok, hR', hiff⟩ := ih (h.remove hU hdrb) hnodup.2 fun d' hd' =>
      (hmem.2 d' hd').imp fun g hg => ⟨hg, fun hdd => hnodup.1 (hdd ▸ hd')⟩
    refine ⟨st', R', ?_, hR', by simp [hiff, and_assoc]⟩
    rw [applyUpdateForRemovedDrbs, hdrb]
    exact hok

theorem close (h₀ : Good U c R₀) (c' : UpContext) (o : Option UpPduSessionContext)
    (hdrbMap : c'.drbMap = st.2.drbMap) (hflowMap : c'.qosFlowMap = st.2.qosFlowMap)
    (hget : ∀ s' : PduSessionId, c'.pduSessions[s']? = if s = s' then o else st.2.pduSessions[s']?)
    (ho : o = some st.1 ∨ o = none ∧ ∀ x ∈ R, x.session ≠ s) :
    Good U c' R ∧ SameBut s c c' R₀ R := by
  have hother : ∀ {s' : PduSessionId}, s' ≠ s → c'.pduSessions[s']? = c.pduSessions[s']? := by
    intro s' hne
    rw [hget, if_neg hne.symm, h.sessions]
  have hsession : ∀ {s'} {session : UpPduSessionContext}, c'.pduSessions[s']? = some session →
      session.id = s' ∧ TableOf session.drbs s' R := by
    intro s' session hs'
    by_cases heq : s' = s
    · subst heq
      rw [hget, if_pos rfl] at hs'
      rcases ho with rfl | ⟨rfl, -⟩
      · cases hs'
        exact ⟨h.id, h.table⟩
      · cases hs'
    · rw [hother heq] at hs'
      exact ⟨h₀.session_id hs', (h₀.table hs').congr (h.other heq)⟩
  have hmem : ∀ {s'}, s' ≠ s → (s' ∈ c'.pduSessions ↔ s' ∈ c.pduSessions) := by
    intro s' hne
    rw [TreeMap.mem_iff_isSome_getElem?, hother hne, TreeMap.mem_iff_isSome_getElem?]
  refine ⟨⟨⟨fun hx hy => hU (h.sub hx) (h.sub hy), by rw [hdrbMap]; exact h.drbMap,
    fun hs => (hsession hs).1, fun hs => (hsession hs).2, fun {x} hx => ?_⟩, h.sub,
    fun hdistinct => ?_⟩, h.other, hmem⟩
  · by_cases heq : x.session = s
    · rcases ho with rfl | ⟨-, hno⟩
      · exact mem_of_getElem? ((hget _).trans (if_pos heq.symm))
      · exact absurd heq (hno x hx)
    · exact (hmem heq).2 (h₀.session_mem ((h.other heq).1 hx))
  · rw [Flows, hflowMap]
    exact h.flows hdistinct

end Working

/-! ## One session of an update -/

/-- The bindings that an update of a session adds. -/
def UpPduSessionContextUpdate.bindings (u : UpPduSessionContextUpdate) : Set Binding :=
  {x | x.session = u.id ∧ ∃ drb, u.drbToAdd[x.drb]? = some drb ∧ drb.OnlyFlow x.flow}

/-- The DRBs of an update have one flow each, and their bindings are in `U` and not yet in `R`. -/
def UpPduSessionContextUpdate.Fresh (u : UpPduSessionContextUpdate) (U R : Set Binding) : Prop :=
  ∀ (d : DrbId) (drb : UpDrbContext), u.drbToAdd[d]? = some drb →
    ∃ f, drb.OnlyFlow f ∧ ⟨d, u.id, f⟩ ∈ U ∧ ⟨d, u.id, f⟩ ∉ R

theorem applyUpdateForRemovedDrbs_eq (drbs : List (DrbId × UpDrbContext))
    (session : UpPduSessionContext) (c : UpContext) (hnodup : (drbs.map Prod.fst).Nodup)
    (hget : ∀ x ∈ drbs, session.drbs[x.1]? = some x.2) :
    ∃ session', applyUpdateForRemovedDrbs (drbs.map Prod.fst) (session, c) =
      .ok (session', drbs.foldl UpContext.forgetDrb c) := by
  induction drbs generalizing session c with
  | nil => exact ⟨session, rfl⟩
  | cons x drbs ih =>
    rw [List.map_cons, List.nodup_cons] at hnodup
    rw [List.forall_mem_cons] at hget
    rw [List.map_cons, applyUpdateForRemovedDrbs, hget.1]
    refine ih _ _ hnodup.2 fun y hy => erase_eq_some.2 ⟨fun heq => hnodup.1 ?_, hget.2 y hy⟩
    exact List.mem_map.2 ⟨y, hy, heq.symm⟩

section

variable {u : UpPduSessionContextUpdate} (hU : Set.InjOn Binding.drb U) (h : Good U c R)

include hU

theorem Working.addUpdate {st : UpPduSessionContext × UpContext} (h : Working U c R₀ u.id st R)
    (hfresh : u.Fresh U R) :
    ∃ R', Working U c R₀ u.id (applyUpdateForNewDrbs st.1 st.2 u.drbToAdd) R' ∧ R ⊆ R' ∧
      u.bindings ⊆ R' := by
  have hnodup : (u.drbToAdd.toList.map Prod.fst).Nodup := by
    rw [TreeMap.map_fst_toList_eq_keys]
    exact TreeMap.nodup_keys
  obtain ⟨R', hR', hsub, hall⟩ := h.addAll hU u.drbToAdd.toList hnodup fun x hx =>
    hfresh _ _ (TreeMap.mem_toList_iff_getElem?_eq_some.1 hx)
  refine ⟨R', hR', hsub, ?_⟩
  rintro ⟨d, s, f⟩ ⟨rfl, drb, hdrb, hf⟩
  exact hall (d, drb) (TreeMap.mem_toList_iff_getElem?_eq_some.2 hdrb) f hf

include h

theorem applyAddedSession_spec (hfresh : u.Fresh U R) (hnew : u.id ∉ c.pduSessions) :
    ∃ R', Good U (applyAddedSession c u) R' ∧ SameBut u.id c (applyAddedSession c u) R R' ∧
      u.bindings ⊆ R' := by
  obtain ⟨R', hR', -, hbind⟩ := (h.openNew hnew).addUpdate hU hfresh
  have hnot : (applyUpdateForNewDrbs ⟨u.id, ∅⟩ c u.drbToAdd).1.id ∉
      (applyUpdateForNewDrbs ⟨u.id, ∅⟩ c u.drbToAdd).2.pduSessions := by
    rwa [hR'.id, hR'.sessions]
  obtain ⟨hgood, hsame⟩ := hR'.close hU h (applyAddedSession c u) _ rfl rfl
    (fun s => (getElem?_insertIfNew_of_not_mem _ hnot s).trans (by rw [hR'.id]; rfl)) (.inl rfl)
  exact ⟨R', hgood, hsame, hbind⟩

theorem applyModifiedSession_spec (hfresh : u.Fresh U R) (hmem : u.id ∈ c.pduSessions)
    (hnodup : u.drbToRemove.Nodup) (hremove : ∀ d ∈ u.drbToRemove, ∃ f, ⟨d, u.id, f⟩ ∈ R) :
    ∃ c' R', applyModifiedSession c u = .ok c' ∧ Good U c' R' ∧ SameBut u.id c c' R R' ∧
      u.bindings ⊆ R' := by
  obtain ⟨session, hsession⟩ := exists_of_mem hmem
  obtain ⟨R₁, h₁, hsub, hbind⟩ := (h.open hsession).addUpdate hU hfresh
  obtain ⟨st, R₂, hok, h₂, hiff⟩ := h₁.removeAll hU u.drbToRemove hnodup fun d hd =>
    (hremove d hd).imp fun f hf => hsub hf
  obtain ⟨hgood, hsame⟩ := h₂.close hU h
    { st.2 with pduSessions := st.2.pduSessions.insert u.id st.1 } _ rfl rfl
    (fun s => by simp [TreeMap.getElem?_insert]) (.inl rfl)
  refine ⟨_, R₂, by simp only [applyModifiedSession, hsession, hok]; rfl, hgood, hsame, ?_⟩
  -- new DRBs are never among the removed ones, which are bound in `R`
  rintro ⟨d, s, f⟩ ⟨rfl, drb, hdrb, hf⟩
  refine hiff.2 ⟨hbind ⟨rfl, drb, hdrb, hf⟩, fun hd => ?_⟩
  obtain ⟨f', hx, hxU, hnot⟩ := hfresh d drb hdrb
  obtain ⟨g, hg⟩ := hremove d hd
  exact hnot (hU hxU (h.sub hg) rfl ▸ hg)

theorem applyRemovedSession_spec (hmem : s ∈ c.pduSessions) :
    ∃ c' R', applyRemovedSession c s = .ok c' ∧ Good U c' R' ∧ SameBut s c c' R R' := by
  obtain ⟨session, hsession⟩ := exists_of_mem hmem
  have hget : ∀ x ∈ session.drbs.toList, session.drbs[x.1]? = some x.2 := fun x hx =>
    TreeMap.mem_toList_iff_getElem?_eq_some.1 hx
  have hnodup : (session.drbs.toList.map Prod.fst).Nodup := by
    rw [TreeMap.map_fst_toList_eq_keys]
    exact TreeMap.nodup_keys
  obtain ⟨session', heq⟩ := applyUpdateForRemovedDrbs_eq session.drbs.toList session c hnodup hget
  obtain ⟨st, R', hok, hR', hiff⟩ := (h.open hsession).removeAll hU _ hnodup fun d hd => by
    obtain ⟨x, hx, rfl⟩ := List.mem_map.1 hd
    exact ((h.table hsession).sound (hget x hx)).imp fun f hf => hf.1
  cases heq.symm.trans hok
  have hno : ∀ x ∈ R', x.session ≠ s := by
    rintro ⟨d, s, f⟩ hx rfl
    obtain ⟨drb, hdrb, -⟩ := (h.table hsession).complete (hiff.1 hx).1
    exact (hiff.1 hx).2 (List.mem_map.2
      ⟨(d, drb), TreeMap.mem_toList_iff_getElem?_eq_some.2 hdrb, rfl⟩)
  obtain ⟨hgood, hsame⟩ := hR'.close hU h
    { session.drbs.toList.foldl UpContext.forgetDrb c with
      pduSessions := (session.drbs.toList.foldl UpContext.forgetDrb c).pduSessions.erase s }
    none rfl rfl (fun s' => by simp [TreeMap.getElem?_erase]) (.inr ⟨rfl, hno⟩)
  exact ⟨_, R', by simp [applyRemovedSession, hsession], hgood, hsame⟩

end

/-! ## Lists of sessions -/

/-- Parts of an update that work on one session each, if what one needs and what it achieves are a
matter of its own session. -/
theorem foldlM_sessions {α : Type} (op : UpContext → α → Except UpFault UpContext)
    (key : α → PduSessionId) (Pre : α → UpContext → Set Binding → Prop)
    (Post : α → Set Binding → Prop)
    (hop : ∀ {a c R}, Good U c R → Pre a c R →
      ∃ c' R', op c a = .ok c' ∧ Good U c' R' ∧ SameBut (key a) c c' R R' ∧ Post a R')
    (hpre : ∀ {a s c c' R R'}, SameBut s c c' R R' → key a ≠ s → Pre a c R → Pre a c' R')
    (hpost : ∀ {a R R'}, (∀ {x}, x.session = key a → (x ∈ R' ↔ x ∈ R)) → Post a R → Post a R')
    (l : List α) (hnodup : (l.map key).Nodup) (h : Good U c R) (hl : ∀ a ∈ l, Pre a c R) :
    ∃ c' R', l.foldlM op c = .ok c' ∧ Good U c' R' ∧ (∀ a ∈ l, Post a R') ∧
      ∀ {x}, x.session ∉ l.map key → (x ∈ R' ↔ x ∈ R) := by
  induction l generalizing c R with
  | nil => exact ⟨c, R, rfl, h, nofun, fun _ => Iff.rfl⟩
  | cons a l ih =>
    rw [List.map_cons, List.nodup_cons] at hnodup
    rw [List.forall_mem_cons] at hl
    obtain ⟨c₁, R₁, hok₁, h₁, hsame, hpost₁⟩ := hop h hl.1
    obtain ⟨c', R', hok, hgood, hall, hkeep⟩ := ih hnodup.2 h₁ fun b hb =>
      hpre hsame (fun heq => hnodup.1 (List.mem_map.2 ⟨b, hb, heq⟩)) (hl.2 b hb)
    refine ⟨c', R', ?_, hgood, List.forall_mem_cons.2 ⟨hpost (fun hx => ?_) hpost₁, hall⟩, ?_⟩
    · rw [List.foldlM_cons, hok₁]
      exact hok
    · exact hkeep (hx ▸ hnodup.1)
    · intro x hx
      rw [List.map_cons, List.mem_cons, not_or] at hx
      exact (hkeep hx.2).trans (hsame.bindings hx.1)

section

variable (hU : Set.InjOn Binding.drb U) (h : Good U c R)
  {us : List UpPduSessionContextUpdate} (hnodup : (us.map UpPduSessionContextUpdate.id).Nodup)
  (hfresh : ∀ u ∈ us, u.Fresh U R)

theorem UpPduSessionContextUpdate.Fresh.of_sameBut {u : UpPduSessionContextUpdate} {c' : UpContext}
    {R' : Set Binding} (h : u.Fresh U R) (hsame : SameBut s c c' R R') (hne : u.id ≠ s) :
    u.Fresh U R' := fun d drb hdrb =>
  (h d drb hdrb).imp fun _ hf => ⟨hf.1, hf.2.1, fun hx => hf.2.2 ((hsame.bindings hne).1 hx)⟩

include hU h hnodup hfresh

theorem foldl_applyAddedSession (hnew : ∀ u ∈ us, u.id ∉ c.pduSessions) :
    ∃ R', Good U (us.foldl applyAddedSession c) R' ∧ R ⊆ R' ∧ ∀ u ∈ us, u.bindings ⊆ R' := by
  obtain ⟨c', R', hok, hgood, hall, hkeep⟩ := foldlM_sessions
    (fun c u => pure (applyAddedSession c u)) UpPduSessionContextUpdate.id
    (fun u c R => u.Fresh U R ∧ u.id ∉ c.pduSessions) (fun u R => u.bindings ⊆ R)
    (fun hgood hpre => (applyAddedSession_spec hU hgood hpre.1 hpre.2).elim
      fun R' hR' => ⟨_, R', rfl, hR'⟩)
    (fun hsame hne hpre =>
      ⟨hpre.1.of_sameBut hsame hne, fun hmem => hpre.2 ((hsame.sessions hne).1 hmem)⟩)
    (fun hiff hsub x hx => (hiff hx.1).2 (hsub hx)) us hnodup h fun u hu => ⟨hfresh u hu, hnew u hu⟩
  rw [List.foldlM_pure] at hok
  cases hok
  refine ⟨R', hgood, fun x hx => (hkeep fun hs => ?_).2 hx, hall⟩
  obtain ⟨u, hu, heq⟩ := List.mem_map.1 hs
  exact hnew u hu (heq ▸ h.session_mem hx)

theorem foldlM_applyModifiedSession (hmem : ∀ u ∈ us, u.id ∈ c.pduSessions)
    (hremoved : ∀ u ∈ us, u.drbToRemove.Nodup)
    (hremove : ∀ u ∈ us, ∀ d ∈ u.drbToRemove, ∃ f, ⟨d, u.id, f⟩ ∈ R) :
    ∃ c' R', us.foldlM applyModifiedSession c = .ok c' ∧ Good U c' R' ∧
      ∀ u ∈ us, u.bindings ⊆ R' := by
  obtain ⟨c', R', hok, hgood, hall, -⟩ := foldlM_sessions applyModifiedSession
    UpPduSessionContextUpdate.id
    (fun u c R => u.Fresh U R ∧ u.id ∈ c.pduSessions ∧ u.drbToRemove.Nodup ∧
      ∀ d ∈ u.drbToRemove, ∃ f, ⟨d, u.id, f⟩ ∈ R) (fun u R => u.bindings ⊆ R)
    (fun hgood ⟨hf, hm, hn, hr⟩ => applyModifiedSession_spec hU hgood hf hm hn hr)
    (fun hsame hne ⟨hf, hm, hn, hr⟩ => ⟨hf.of_sameBut hsame hne, (hsame.sessions hne).2 hm, hn,
      fun d hd => (hr d hd).imp fun f hx => (hsame.bindings hne).2 hx⟩)
    (fun hiff hsub x hx => (hiff hx.1).2 (hsub hx)) us hnodup h
    fun u hu => ⟨hfresh u hu, hmem u hu, hremoved u hu, hremove u hu⟩
  exact ⟨c', R', hok, hgood, hall⟩

end

theorem foldlM_applyRemovedSession (hU : Set.InjOn Binding.drb U) (h : Good U c R)
    {ss : List PduSessionId} (hnodup : ss.Nodup) (hmem : ∀ s ∈ ss, s ∈ c.pduSessions) :
    ∃ c' R', ss.foldlM applyRemovedSession c = .ok c' ∧ Good U c' R' := by
  obtain ⟨c', R', hok, hgood, -⟩ := foldlM_sessions applyRemovedSession id
    (fun s c _ => s ∈ c.pduSessions) (fun _ _ => True)
    (fun hgood hpre => (applyRemovedSession_spec hU hgood hpre).imp fun c' hc' =>
      hc'.imp fun R' hR' => ⟨hR'.1, hR'.2.1, hR'.2.2, trivial⟩)
    (fun hsame hne hpre => (hsame.sessions hne).2 hpre) (fun _ _ => trivial) ss
    (by simpa using hnodup) h hmem
  exact ⟨c', R', hok, hgood⟩

end RadioStack.CuCp
