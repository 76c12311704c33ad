import RadioStack.Lib.Outcome
import Mathlib.Tactic.Linarith

/-!
# User plane resources of the CU-CP

`up_resource_manager` keeps the PDU sessions of a UE, the DRBs of each session and the QoS flows of
each DRB, with two tables for the way back: from a DRB to its session and from a QoS flow to its
DRB. A request of the core network is checked (`validate_request`), turned into an update that gives
a DRB of its own to each new flow (`calculate_update`), and the update is applied
(`apply_config_update`).

The maps of the source are ordered, and so are these.
-/

namespace RadioStack.CuCp

open Std (TreeMap)

/-! ## Data -/

abbrev PduSessionId := Nat

abbrev QosFlowId := Nat

abbrev DrbId := Nat

abbrev FiveQi := Nat

def maxNofDrbs : Nat := 29

inductive RlcMode where
  | am
  | umBidir
  deriving DecidableEq

/-- `pdcp_config`, of which the RLC mode is read. -/
structure PdcpConfig where
  rlcMode : RlcMode

/-- `up_resource_manager_cfg`. The number of DRBs is an option with the range of `drb_id_t`. -/
structure UpResourceManagerCfg where
  fiveQiConfig : TreeMap FiveQi PdcpConfig
  maxNofDrbsPerUe : Nat
  maxNofDrbsPerUe_le : maxNofDrbsPerUe ≤ maxNofDrbs

/-- `qos_flow_setup_request_item`: the flow and its 5QI, none if the descriptor has none. -/
structure QosFlowSetupRequestItem where
  qosFlowId : QosFlowId
  fiveQi : Option FiveQi

/-- `sdap_config_t`; headers are absent. -/
structure SdapConfig where
  pduSession : PduSessionId
  defaultDrb : Bool
  mappedQosFlowsToAdd : List QosFlowId

/-- `up_drb_context`, without the tunnels of the CU-UP. -/
structure UpDrbContext where
  drbId : DrbId
  pduSessionId : PduSessionId
  sNssai : Nat
  defaultDrb : Bool
  rlcMod : RlcMode
  fiveQi : FiveQi
  qosFlows : TreeMap QosFlowId (Option FiveQi)
  pdcpCfg : PdcpConfig
  sdapCfg : SdapConfig

structure UpPduSessionContext where
  id : PduSessionId
  drbs : TreeMap DrbId UpDrbContext

structure UpContext where
  pduSessions : TreeMap PduSessionId UpPduSessionContext
  drbMap : TreeMap DrbId PduSessionId
  qosFlowMap : TreeMap QosFlowId DrbId

/-- The context of a new UE. -/
def UpContext.empty : UpContext := ⟨∅, ∅, ∅⟩

structure UpPduSessionContextUpdate where
  id : PduSessionId
  drbToAdd : TreeMap DrbId UpDrbContext
  drbToRemove : List DrbId

structure UpConfigUpdate where
  initialContextCreation : Bool
  pduSessionsToSetupList : TreeMap PduSessionId UpPduSessionContextUpdate
  pduSessionsToModifyList : TreeMap PduSessionId UpPduSessionContextUpdate
  pduSessionsToRemoveList : List PduSessionId
  pduSessionsFailedToModifyList : List PduSessionId
  drbToRemoveList : List DrbId

def UpConfigUpdate.empty (initialContextCreation : Bool) : UpConfigUpdate :=
  ⟨initialContextCreation, ∅, ∅, [], [], []⟩

/-! ## Requests -/

/-- `slotted_id_vector`: items with distinct identities. -/
structure SlottedIdVector (α : Type) (id : α → Nat) where
  items : List α
  nodup : (items.map id).Nodup

/-- `cu_cp_pdu_session_res_setup_item`. -/
structure SetupItem where
  pduSessionId : PduSessionId
  sNssai : Nat
  flows : SlottedIdVector QosFlowSetupRequestItem QosFlowSetupRequestItem.qosFlowId

/-- `cu_cp_pdu_session_res_modify_item_mod_req`. -/
structure ModifyItem where
  pduSessionId : PduSessionId
  flowsToAdd : SlottedIdVector QosFlowSetupRequestItem QosFlowSetupRequestItem.qosFlowId
  flowsToRelease : SlottedIdVector QosFlowId id

/-- A request for the sessions of a UE. -/
inductive Request where
  | setup (items : SlottedIdVector SetupItem SetupItem.pduSessionId)
  | modify (items : SlottedIdVector ModifyItem ModifyItem.pduSessionId)
  | release (sessions : SlottedIdVector PduSessionId id)

/-- `get_five_qi`: a 5QI with a configuration. -/
def getFiveQi (cfg : UpResourceManagerCfg) (flow : QosFlowSetupRequestItem) : Option FiveQi :=
  flow.fiveQi.filter (· ∈ cfg.fiveQiConfig)

def isValid (cfg : UpResourceManagerCfg) (context : UpContext) : Request → Bool
  | .setup items => !items.items.isEmpty && items.items.all fun item =>
      item.pduSessionId ∉ context.pduSessions &&
        item.flows.items.all fun flow => (getFiveQi cfg flow).isSome
  | .modify items => !items.items.isEmpty && items.items.all fun item =>
      item.pduSessionId ∈ context.pduSessions &&
        (item.flowsToAdd.items.all fun flow =>
          (getFiveQi cfg flow).isSome && flow.qosFlowId ∉ context.qosFlowMap) &&
        (item.flowsToRelease.items.all fun flow => flow ∈ context.qosFlowMap) &&
        item.flowsToRelease.items.length < context.qosFlowMap.size
  | .release sessions => !sessions.items.isEmpty && sessions.items.all fun session =>
      session ∈ context.pduSessions

/-! ## Updates -/

/-- What stops the program: an assertion, or `at` of a missing key. -/
inductive UpFault where
  | assertion
  | outOfRange
  deriving DecidableEq

/-- `contains_drb` of an update. -/
def UpConfigUpdate.containsDrb (update : UpConfigUpdate) (drb : DrbId) : Bool :=
  (update.pduSessionsToSetupList.toList.any fun item => drb ∈ item.2.drbToAdd) ||
    update.pduSessionsToModifyList.toList.any fun item => drb ∈ item.2.drbToAdd

/-- `allocate_drb_id`: the first identity that is not used. -/
def allocateDrbId (session : UpPduSessionContextUpdate) (context : UpContext)
    (update : UpConfigUpdate) (maxNofDrbsPerUe : Nat) : Option DrbId :=
  if maxNofDrbsPerUe ≤ context.drbMap.size then none
  else (List.range' 1 maxNofDrbsPerUe).find? fun drb =>
    !(drb ∈ context.drbMap || update.containsDrb drb || drb ∈ session.drbToAdd)

def setRrcSdapConfig (pduSession : PduSessionId) (defaultDrb : Bool)
    (qosFlows : TreeMap QosFlowId (Option FiveQi)) : SdapConfig :=
  ⟨pduSession, defaultDrb, qosFlows.keys⟩

/-- The context of a DRB for one flow. -/
def newDrbContext (drb : DrbId) (session : PduSessionId) (defaultDrb : Bool) (fiveQi : FiveQi)
    (pdcpCfg : PdcpConfig) (flow : QosFlowSetupRequestItem) : UpDrbContext :=
  let qosFlows := (∅ : TreeMap QosFlowId (Option FiveQi)).insertIfNew flow.qosFlowId flow.fiveQi
  { drbId := drb
    pduSessionId := session
    sNssai := 0
    defaultDrb
    rlcMod := pdcpCfg.rlcMode
    fiveQi
    qosFlows
    pdcpCfg
    sdapCfg := setRrcSdapConfig session defaultDrb qosFlows }

/-- `allocate_qos_flow`: a new DRB for a flow, none if there is none left. -/
def allocateQosFlow (cfg : UpResourceManagerCfg) (context : UpContext) (update : UpConfigUpdate)
    (session : UpPduSessionContextUpdate) (flow : QosFlowSetupRequestItem) :
    Except UpFault (Option DrbId × UpPduSessionContextUpdate) :=
  match getFiveQi cfg flow with
  | none => .error .assertion
  | some fiveQi =>
    if cfg.maxNofDrbsPerUe ≤ context.drbMap.size then .ok (none, session)
    else
      match allocateDrbId session context update cfg.maxNofDrbsPerUe with
      | none => .ok (none, session)
      | some drb =>
        match cfg.fiveQiConfig[fiveQi]? with
        | none => .error .assertion
        | some pdcpCfg =>
          let drbCtx := newDrbContext drb session.id context.drbMap.isEmpty fiveQi pdcpCfg flow
          .ok (some drb, { session with drbToAdd := session.drbToAdd.insertIfNew drb drbCtx })

/-- The flows of a session to set up: each has to get a DRB. -/
def setupFlows (cfg : UpResourceManagerCfg) (context : UpContext) (update : UpConfigUpdate)
    (sNssai : Nat) : List QosFlowSetupRequestItem → UpPduSessionContextUpdate →
    Except UpFault UpPduSessionContextUpdate
  | [], session => .ok session
  | flow :: flows, session => do
    let (drb, session) ← allocateQosFlow cfg context update session flow
    -- the entry of an invalid identity is never there
    match drb.bind fun drb => (session.drbToAdd[drb]?).map (drb, ·) with
    | none => .error .outOfRange
    | some (drb, drbCtx) =>
      setupFlows cfg context update sNssai flows
        { session with drbToAdd := session.drbToAdd.insert drb { drbCtx with sNssai } }

/-- `calculate_update` of a setup request. -/
def calculateSetup (cfg : UpResourceManagerCfg) (context : UpContext) :
    List SetupItem → UpConfigUpdate → Except UpFault UpConfigUpdate
  | [], update => .ok update
  | item :: items, update =>
    if item.pduSessionId ∈ context.pduSessions then .error .assertion
    else do
      let session ← setupFlows cfg context update item.sNssai item.flows.items
        ⟨item.pduSessionId, ∅, []⟩
      calculateSetup cfg context items { update with
        pduSessionsToSetupList := update.pduSessionsToSetupList.insertIfNew session.id session }

/-- The flows to add to a session: those without a DRB are reported. The result is the session and
the number of the flows that failed. -/
def addFlows (cfg : UpResourceManagerCfg) (context : UpContext) (update : UpConfigUpdate) :
    List QosFlowSetupRequestItem → UpPduSessionContextUpdate →
    Except UpFault (UpPduSessionContextUpdate × Nat)
  | [], session => .ok (session, 0)
  | flow :: flows, session => do
    let (drb, session) ← allocateQosFlow cfg context update session flow
    match drb with
    | none =>
      let (session, failed) ← addFlows cfg context update flows session
      return (session, failed + 1)
    | some drb =>
      if drb ∈ context.drbMap ∨ drb ∈ session.drbToAdd then
        addFlows cfg context update flows session
      else .error .assertion

/-- The flows to release from a session: a DRB with no other flow is removed. -/
def releaseFlows (context : UpContext) (sessionId : PduSessionId) :
    List QosFlowId → Except UpFault (List DrbId)
  | [] => .ok []
  | flow :: flows =>
    match context.qosFlowMap[flow]? with
    | none => .error .outOfRange
    | some drb =>
      match (context.pduSessions[sessionId]?).bind fun session => session.drbs[drb]? with
      | none => .error .outOfRange
      | some drbCtx =>
        if flow ∉ drbCtx.qosFlows then .error .assertion
        else do
          let drbs ← releaseFlows context sessionId flows
          return if drbCtx.qosFlows.size = 1 then drb :: drbs else drbs

/-- `calculate_update` of a modify request. -/
def calculateModify (cfg : UpResourceManagerCfg) (context : UpContext) :
    List ModifyItem → UpConfigUpdate → Except UpFault UpConfigUpdate
  | [], update => .ok update
  | item :: items, update =>
    if item.pduSessionId ∉ context.pduSessions then .error .assertion
    else do
      let (session, failed) ← addFlows cfg context update item.flowsToAdd.items
        ⟨item.pduSessionId, ∅, []⟩
      let drbToRemove ← releaseFlows context item.pduSessionId item.flowsToRelease.items
      calculateModify cfg context items { update with
        pduSessionsToModifyList :=
          update.pduSessionsToModifyList.insertIfNew session.id { session with drbToRemove }
        pduSessionsFailedToModifyList := update.pduSessionsFailedToModifyList ++
          List.replicate failed item.pduSessionId }

/-- `calculate_update` of a release command. -/
def calculateRelease (context : UpContext) :
    List PduSessionId → UpConfigUpdate → Except UpFault UpConfigUpdate
  | [], update => .ok update
  | session :: sessions, update =>
    match context.pduSessions[session]? with
    | none => .error .outOfRange
    | some sessionContext => calculateRelease context sessions { update with
        drbToRemoveList := update.drbToRemoveList ++ sessionContext.drbs.keys
        pduSessionsToRemoveList := update.pduSessionsToRemoveList ++ [session] }

def calculateUpdate (cfg : UpResourceManagerCfg) (context : UpContext) (request : Request) :
    Except UpFault UpConfigUpdate :=
  if isValid cfg context request then
    match request with
    | .setup items => calculateSetup cfg context items.items (.empty context.pduSessions.isEmpty)
    | .modify items => calculateModify cfg context items.items (.empty false)
    | .release sessions => calculateRelease context sessions.items (.empty true)
  else .error .assertion

/-! ## Applying an update -/

/-- One DRB of `apply_update_for_new_drbs`. -/
def applyNewDrb (state : UpPduSessionContext × UpContext) (drb : DrbId × UpDrbContext) :
    UpPduSessionContext × UpContext :=
  ({ state.1 with drbs := state.1.drbs.insertIfNew drb.1 drb.2 },
    { state.2 with
      drbMap := state.2.drbMap.insertIfNew drb.1 state.1.id
      qosFlowMap := drb.2.qosFlows.toList.foldl (fun flows flow => flows.insertIfNew flow.1 drb.1)
        state.2.qosFlowMap })

def applyUpdateForNewDrbs (session : UpPduSessionContext) (context : UpContext)
    (drbToAdd : TreeMap DrbId UpDrbContext) : UpPduSessionContext × UpContext :=
  drbToAdd.toList.foldl applyNewDrb (session, context)

/-- The flows of a DRB leave the table. -/
def eraseFlows (qosFlowMap : TreeMap QosFlowId DrbId)
    (qosFlows : TreeMap QosFlowId (Option FiveQi)) : TreeMap QosFlowId DrbId :=
  qosFlows.toList.foldl (fun flows flow => flows.erase flow.1) qosFlowMap

/-- A DRB and its flows leave the tables of the context. -/
def UpContext.forgetDrb (context : UpContext) (drb : DrbId × UpDrbContext) : UpContext :=
  { context with
    qosFlowMap := eraseFlows context.qosFlowMap drb.2.qosFlows
    drbMap := context.drbMap.erase drb.1 }

def applyUpdateForRemovedDrbs : List DrbId → UpPduSessionContext × UpContext →
    Except UpFault (UpPduSessionContext × UpContext)
  | [], state => .ok state
  | drb :: drbs, (session, context) =>
    match session.drbs[drb]? with
    | none => .error .outOfRange
    | some drbCtx => applyUpdateForRemovedDrbs drbs
        ({ session with drbs := session.drbs.erase drb }, context.forgetDrb (drb, drbCtx))

variable (context : UpContext)

/-- A session that was added. -/
def applyAddedSession (added : UpPduSessionContextUpdate) : UpContext :=
  let (session, context) := applyUpdateForNewDrbs ⟨added.id, ∅⟩ context added.drbToAdd
  { context with pduSessions := context.pduSessions.insertIfNew session.id session }

/-- A session that was modified. -/
def applyModifiedSession (modified : UpPduSessionContextUpdate) :
    Except UpFault UpContext :=
  match context.pduSessions[modified.id]? with
  | none => .error .assertion
  | some session => do
    let (session, context) ← applyUpdateForRemovedDrbs modified.drbToRemove
      (applyUpdateForNewDrbs session context modified.drbToAdd)
    return { context with pduSessions := context.pduSessions.insert modified.id session }

/-- A session that was removed. -/
def applyRemovedSession (removed : PduSessionId) : Except UpFault UpContext :=
  match context.pduSessions[removed]? with
  | none => .error .assertion
  | some session =>
    let context := session.drbs.toList.foldl UpContext.forgetDrb context
    .ok { context with pduSessions := context.pduSessions.erase removed }

/-- `apply_config_update` with the whole update. -/
def applyConfigUpdate (update : UpConfigUpdate) : Except UpFault UpContext := do
  let context := (update.pduSessionsToSetupList.toList.map Prod.snd).foldl applyAddedSession context
  let context ← (update.pduSessionsToModifyList.toList.map Prod.snd).foldlM applyModifiedSession
    context
  update.pduSessionsToRemoveList.foldlM applyRemovedSession context

end RadioStack.CuCp
