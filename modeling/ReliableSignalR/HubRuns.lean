import ReliableSignalR.EventRuns
import ReliableSignalR.BackOfficeHub

/-!
# Runs of the hub callbacks and the audit endpoint

The hub and the audit endpoint share the message log. An event is one callback,
one audited message, one posted acknowledgement or one completion message, in
any order; an environment decides for each callback what throws. Two records are
kept for the statements alone: the connections whose latest callback is
`OnDisconnected`, and the correlations of the posted acknowledgements that say
`Success`. Neither is read off what the code does with the event.

The registry follows the disconnects of a run precisely if no `OnDisconnected`
of a registered connection throws before the removal. An acknowledged command is
not replayed if its audit copy was handled before the acknowledgement.
-/
namespace ReliableSignalR.HubRuns
open DotNet Messages KeyedTable RetainedEffects EventRuns IdentityInfrastructure
open BrokerConnectionManager AuditEndpoint BackOfficeHub

variable {Json : Type}

structure HubRun (Json : Type) where
  hub : HubState Json
  departed : List String
  acknowledged : List Guid

inductive HubEvent
  | onConnected (context : HubCallerContext) (env : Environment)
  | onReconnected (context : HubCallerContext) (env : Environment)
  | onDisconnected (context : HubCallerContext) (env : Environment)
  | audited (message : StandardAuditMessage) (headers : Headers)
  | posted (ack : SendAcknowledgementCommand) (now : DateTime)
  | completed (correlationId : Guid) (now : DateTime)

namespace HubRun

def initial : HubRun Json := ⟨HubState.initial, [], []⟩

/-- A callback that brings a connection up has been raised for it. -/
def arrive (s : HubRun Json) (connectionId : String) (hub : HubState Json) : HubRun Json :=
  { s with hub, departed := s.departed.filter fun i => i != connectionId }

def depart (s : HubRun Json) (connectionId : String) (hub : HubState Json) : HubRun Json :=
  { s with hub, departed := connectionId :: s.departed }

def withLog (s : HubRun Json) (messageLog : AuditTable Json) : HubRun Json :=
  { s with hub := { s.hub with messageLog } }

theorem mem_departed_arrive {s : HubRun Json} {connectionId i : String} {hub : HubState Json} :
    i ∈ (s.arrive connectionId hub).departed ↔ i ∈ s.departed ∧ i ≠ connectionId := by
  simp [arrive]

theorem mem_departed_depart {s : HubRun Json} {connectionId i : String} {hub : HubState Json} :
    i ∈ (s.depart connectionId hub).departed ↔ i = connectionId ∨ i ∈ s.departed := by
  simp [depart]

end HubRun

/-- The acknowledged correlations after one more posted acknowledgement. -/
def acknowledge (acknowledged : List Guid) (ack : SendAcknowledgementCommand) : List Guid :=
  if ack.success then ack.correlationId :: acknowledged else acknowledged

def step (json : JsonSerializer Json) (s : HubRun Json) : HubEvent → HubRun Json
  | .onConnected context env =>
      s.arrive context.connectionId (exec (onConnected json context env) s.hub).2
  | .onReconnected context env =>
      s.arrive context.connectionId (exec (onReconnected context env) s.hub).2
  | .onDisconnected context env =>
      s.depart context.connectionId (exec (onDisconnected context env) s.hub).2
  | .audited message headers =>
      s.withLog (handleStandardAuditMessage json s.hub.messageLog message headers)
  | .posted ack now =>
      { s.withLog (post s.hub.messageLog ack now).1 with
        acknowledged := acknowledge s.acknowledged ack }
  | .completed correlationId now =>
      s.withLog (handleCompletionAuditMessage s.hub.messageLog correlationId now)

def hub (json : JsonSerializer Json) : Machine (HubRun Json) HubEvent where
  init := HubRun.initial
  step s e := some (step json s e)

theorem hub_step_eq_some {json : JsonSerializer Json} {s t : HubRun Json} {e : HubEvent} :
    (hub json).step s e = some t ↔ step json s e = t := Option.some_inj

/-- A departed connection is not in the list, and whichever broker counts as
connected does so by another connection. -/
def DepartedGone (s : HubRun Json) : Prop :=
  ∀ i ∈ s.departed, i ∉ s.hub.brokerConnections.connectionIds ∧
    ∀ brokerId, isBrokerConnected s.hub.brokerConnections.entries brokerId = true →
      ∃ c ∈ s.hub.brokerConnections.entries, c.brokerId = brokerId ∧ c.connectionId ≠ i

theorem departedGone_iff {s : HubRun Json} :
    DepartedGone s ↔ ∀ i ∈ s.departed, i ∉ s.hub.brokerConnections.connectionIds := by
  constructor
  · exact fun h i hi => (h i hi).1
  · intro h i hi
    refine ⟨h i hi, fun brokerId hconnected => ?_⟩
    obtain ⟨c, hc, hbroker⟩ := isBrokerConnected_iff.mp hconnected
    have hne : c.connectionId ≠ i := by
      intro heq
      apply h i hi
      rw [← heq]
      exact List.mem_map_of_mem hc
    exact ⟨c, hc, hbroker, hne⟩

/-- The condition on a callback: an `OnDisconnected` of a registered connection
reads a broker id and publishes its event. -/
def DisconnectReachesRemoval (s : HubRun Json) : HubEvent → Prop
  | .onDisconnected context env =>
      context.connectionId ∈ s.hub.brokerConnections.connectionIds →
        context.user.brokerId.isOk ∧ env.publish.isOk
  | _ => True

theorem registryFrame_connectionIds {context : HubCallerContext} {s t : HubState Json}
    (h : (registryFrame context).rel s t) {i : String}
    (hi : i ∈ t.brokerConnections.connectionIds) :
    i ∈ s.brokerConnections.connectionIds ∨ i = context.connectionId := by
  rcases h with h | ⟨brokerId, tokenExpiresOn, -, -, h⟩
  · exact Or.inl (h ▸ hi)
  · rw [h] at hi
    exact BrokerConnections.mem_connectionIds_addConnection.mp hi

theorem departedGone_arrive {s : HubRun Json} {context : HubCallerContext} {t : HubState Json}
    (hs : DepartedGone s) (h : (registryFrame context).rel s.hub t) :
    DepartedGone (s.arrive context.connectionId t) := by
  rw [departedGone_iff] at hs ⊢
  intro i hi hin
  obtain ⟨hdeparted, hne⟩ := HubRun.mem_departed_arrive.mp hi
  rcases registryFrame_connectionIds h hin with hold | heq
  · exact hs i hdeparted hold
  · exact hne heq

theorem departedGone_depart {s : HubRun Json} (context : HubCallerContext) (env : Environment)
    (hs : DepartedGone s) :
    DepartedGone (s.depart context.connectionId (exec (onDisconnected context env) s.hub).2) ↔
      DisconnectReachesRemoval s (.onDisconnected context env) := by
  rw [departedGone_iff] at hs ⊢
  have hregistry := onDisconnected_registry context env s.hub
  by_cases hok : context.user.brokerId.isOk ∧ env.publish.isOk
  · rw [if_pos hok] at hregistry
    refine ⟨fun _ _ => hok, fun _ i hi hin => ?_⟩
    simp only [HubRun.depart] at hin
    rw [hregistry, BrokerConnections.mem_connectionIds_removeConnection] at hin
    rcases HubRun.mem_departed_depart.mp hi with heq | hdeparted
    · exact hin.2 heq
    · exact hs i hdeparted hin.1
  · rw [if_neg hok] at hregistry
    constructor
    · intro h hin
      have hgone := h context.connectionId (HubRun.mem_departed_depart.mpr (Or.inl rfl))
      simp only [HubRun.depart] at hgone
      rw [hregistry] at hgone
      exact absurd hin hgone
    · intro h i hi hin
      simp only [HubRun.depart] at hin
      rw [hregistry] at hin
      rcases HubRun.mem_departed_depart.mp hi with heq | hdeparted
      · exact hok (h (heq ▸ hin))
      · exact hs i hdeparted hin

/-- In every run, the registry follows the disconnects precisely if each
`OnDisconnected` of a registered connection gets as far as the removal. -/
theorem registry_follows_disconnects (json : JsonSerializer Json) (events : List HubEvent) :
    (hub json).Always DepartedGone (hub json).init events ↔
      (hub json).Meets DisconnectReachesRemoval (hub json).init events := by
  refine Machine.always_iff_meets (B := fun _ => True) (fun _ _ _ _ _ => trivial) ?_ events
    trivial (fun i hi => by cases hi)
  intro s e t _ hs hstep
  rw [hub_step_eq_some] at hstep
  subst hstep
  cases e with
  | onConnected context env =>
      have h := departedGone_arrive hs (onConnected_registry json context env s.hub)
      exact ⟨fun _ => trivial, fun _ => h⟩
  | onReconnected context env =>
      have h := departedGone_arrive hs (onReconnected_registry context env s.hub)
      exact ⟨fun _ => trivial, fun _ => h⟩
  | onDisconnected context env => exact departedGone_depart context env hs
  | audited message headers => exact ⟨fun _ => trivial, fun _ => hs⟩
  | posted ack now => exact ⟨fun _ => trivial, fun _ => hs⟩
  | completed correlationId now => exact ⟨fun _ => trivial, fun _ => hs⟩

/-- A principal as the hub sees it: its name and the expiry of its token. -/
def principal (name tokenExpiresOn : String) : ClaimsPrincipal :=
  ⟨[⟨ClaimTypes.name, name⟩, ⟨IdentityConstants.tokenExpiresOnClaimType, tokenExpiresOn⟩]⟩

/-- The publish of the disconnect fails, and the entry stays. -/
theorem failed_publish_keeps_connection :
    ∃ s, (hub JsonSerializer.transparent).run (hub JsonSerializer.transparent).init
        [.onConnected ⟨"conn1", principal "123" "0"⟩ (Environment.calm 0),
          .onDisconnected ⟨"conn1", principal "123" "0"⟩
            { Environment.calm 0 with publish := .error .external }] = some s ∧
      "conn1" ∈ s.departed ∧ "conn1" ∈ s.hub.brokerConnections.connectionIds ∧
      isBrokerConnected s.hub.brokerConnections.entries 123 = true ∧ ¬DepartedGone s := by
  refine ⟨_, rfl, by decide, by decide, by decide, fun h => ?_⟩
  have hgone := (h "conn1" (by decide)).1
  exact hgone (by decide)

/-- A connecting broker gets no command that was acknowledged before. -/
def NoAcknowledgedReplay (s : HubRun Json) (e : HubEvent) (t : HubRun Json) : Prop :=
  match e with
  | .onConnected _ _ =>
      ∀ new, t.hub.replayed = s.hub.replayed ++ new →
        ∀ p ∈ new, p.command.correlationId ∉ s.acknowledged
  | _ => True

/-- The condition on an audit copy: it comes before the acknowledgement. -/
def AuditedBeforeAcknowledgement (s : HubRun Json) : HubEvent → Prop
  | .audited (.insertDocumentIntoRemoteBackOfficeCommand command) _ =>
      command.correlationId ∉ s.acknowledged
  | _ => True

/-- Acknowledged commands are completed in the log. -/
structure AcknowledgedCompleted (json : JsonSerializer Json) (s : HubRun Json) : Prop where
  stored : AllStored json s.hub.messageLog
  completed : ∀ m ∈ s.hub.messageLog.rows, m.messageType = remoteCommandType →
    m.correlationId ∈ s.acknowledged → m.completionDate ≠ none

section Acknowledged
variable {json : JsonSerializer Json} {s : HubRun Json}

theorem AcknowledgedCompleted.onlyRetries (hs : AcknowledgedCompleted json s)
    {t : HubRun Json} (hlog : OnlyRetries s.hub.messageLog t.hub.messageLog)
    (hacknowledged : t.acknowledged = s.acknowledged) : AcknowledgedCompleted json t := by
  refine ⟨hlog.allStored hs.stored, fun n hn htype hack => ?_⟩
  obtain ⟨m, hm, heq⟩ := hlog.exists_row hn
  rw [heq] at htype hack ⊢
  rw [hacknowledged] at hack
  exact hs.completed m hm htype hack

theorem AcknowledgedCompleted.audited (hs : AcknowledgedCompleted json s)
    (message : StandardAuditMessage) (headers : Headers)
    (hbefore : AuditedBeforeAcknowledgement s (.audited message headers)) :
    AcknowledgedCompleted json (step json s (.audited message headers)) := by
  refine ⟨hs.stored.insert message headers, fun m hm htype hack => ?_⟩
  rcases List.mem_append.mp hm with hm | hm
  · exact hs.completed m hm htype hack
  · rw [List.mem_singleton.mp hm] at htype hack
    obtain ⟨command, rfl⟩ := StandardAuditMessage.toString_eq_remote.mp htype
    exact absurd hack hbefore

/-- Completing a correlation also covers its acknowledgement. -/
theorem AcknowledgedCompleted.complete (hs : AcknowledgedCompleted json s) (correlationId : Guid)
    (now : DateTime) {acknowledged : List Guid}
    (hnew : ∀ c ∈ acknowledged, c = correlationId ∨ c ∈ s.acknowledged) :
    AcknowledgedCompleted json
      { s.withLog (completeCorrelatedMessages s.hub.messageLog correlationId now) with
        acknowledged } := by
  refine ⟨hs.stored.complete correlationId now, fun n hn htype hack => ?_⟩
  obtain ⟨m, hm, rfl⟩ := List.mem_map.mp hn
  have hsame := complete_sameRecord correlationId now m
  rw [hsame.messageType] at htype
  rw [hsame.correlationId] at hack
  apply (complete_completionDate correlationId now m).mpr
  rcases hnew _ hack with heq | hold
  · exact Or.inr heq
  · exact Or.inl (hs.completed m hm htype hold)

theorem AcknowledgedCompleted.step (hs : AcknowledgedCompleted json s) (e : HubEvent)
    (hbefore : AuditedBeforeAcknowledgement s e) :
    AcknowledgedCompleted json (step json s e) := by
  cases e with
  | onConnected context env =>
      exact hs.onlyRetries (onConnected_replayed json context env s.hub).1 rfl
  | onReconnected context env =>
      have hlog : OnlyRetries s.hub.messageLog
          (exec (onReconnected context env) s.hub).2.messageLog := by
        rw [(onReconnected_log context env s.hub).1]
        exact OnlyRetries.refl _
      exact hs.onlyRetries hlog rfl
  | onDisconnected context env =>
      have hlog : OnlyRetries s.hub.messageLog
          (exec (onDisconnected context env) s.hub).2.messageLog := by
        rw [(onDisconnected_log context env s.hub).1]
        exact OnlyRetries.refl _
      exact hs.onlyRetries hlog rfl
  | audited message headers => exact hs.audited message headers hbefore
  | posted ack now =>
      cases hsuccess : ack.success with
      | false =>
          simp only [HubRuns.step, post, acknowledge, hsuccess]
          exact hs.onlyRetries (OnlyRetries.refl _) rfl
      | true =>
          simp only [HubRuns.step, post, acknowledge, hsuccess]
          exact hs.complete ack.correlationId now fun c hc => List.mem_cons.mp hc
  | completed correlationId now => exact hs.complete correlationId now fun c hc => Or.inr hc

/-- Every replay is an uncompleted row, so none of them is acknowledged. -/
theorem AcknowledgedCompleted.noAcknowledgedReplay (hs : AcknowledgedCompleted json s)
    (e : HubEvent) : NoAcknowledgedReplay s e (HubRuns.step json s e) := by
  cases e with
  | onConnected context env =>
      intro new hnew p hp hack
      obtain ⟨-, new', hnew', hrows⟩ := onConnected_replayed json context env s.hub
      have hnew_eq : new = new' := by
        rw [HubRuns.step, HubRun.arrive, hnew'] at hnew
        exact (List.append_cancel_left hnew).symm
      obtain ⟨brokerId, -, -, m, hm, -, hbody⟩ := hrows p (hnew_eq ▸ hp)
      obtain ⟨hrow, hselected⟩ := mem_unacknowledged.mp hm
      obtain ⟨message, hstores⟩ := hs.stored m hrow
      obtain ⟨command, -, hread, -, hcorrelation, -⟩ := hstores.deserialize hselected.messageType
      have hcommand : command = p.command := by
        rw [hbody] at hread
        exact (Except.ok.inj hread).symm
      apply hs.completed m hrow hselected.messageType _ hselected.completionDate
      rw [hcorrelation, hcommand]
      exact hack
  | onReconnected context env => trivial
  | onDisconnected context env => trivial
  | audited message headers => trivial
  | posted ack now => trivial
  | completed correlationId now => trivial

end Acknowledged

/-- In every run that handles the audit copy of each remote command before its
acknowledgement, no `OnConnected` replays an acknowledged command. -/
theorem no_replay_after_acknowledgement (json : JsonSerializer Json) (events : List HubEvent)
    (hbefore : (hub json).Meets AuditedBeforeAcknowledgement (hub json).init events) :
    (hub json).Throughout NoAcknowledgedReplay (hub json).init events := by
  have hinit : AcknowledgedCompleted json HubRun.initial := by
    refine ⟨AllStored.empty json, fun m hm => ?_⟩
    cases hm
  refine Machine.throughout_of_meets ?_ ?_ hinit hbefore
  · intro s e t hs he hstep
    rw [← hub_step_eq_some.mp hstep]
    exact hs.step e he
  · intro s e t hs _ hstep
    rw [← hub_step_eq_some.mp hstep]
    exact hs.noAcknowledgedReplay e

def insertCommand (correlationId : Guid) (brokerId : ℤ) :
    InsertDocumentIntoRemoteBackOfficeCommand where
  id := correlationId
  correlationId := correlationId
  brokerId := brokerId
  createDate := 0
  agreementId := 1
  document := []

/-- In order, the acknowledgement completes the row and the connect replays nothing. -/
theorem no_replay_of_acknowledged_row :
    (hub JsonSerializer.transparent).Throughout NoAcknowledgedReplay
      (hub JsonSerializer.transparent).init
      [.audited (.insertDocumentIntoRemoteBackOfficeCommand (insertCommand 7 123)) [],
        .posted ⟨7, true, none⟩ 0,
        .onConnected ⟨"conn1", principal "123" "0"⟩ (Environment.calm 0)] := by
  apply no_replay_after_acknowledgement
  exact fun _ _ => ⟨List.not_mem_nil, fun _ _ => ⟨trivial, fun _ _ => ⟨trivial, trivial⟩⟩⟩

/-- The acknowledgement overtakes the audit copy, and the next connect replays
the acknowledged command. -/
theorem overtaken_audit_copy_replayed :
    ∃ s t, (hub JsonSerializer.transparent).run (hub JsonSerializer.transparent).init
        [.posted ⟨7, true, none⟩ 0,
          .audited (.insertDocumentIntoRemoteBackOfficeCommand (insertCommand 7 123)) []] =
          some s ∧
      (hub JsonSerializer.transparent).step s
        (.onConnected ⟨"conn1", principal "123" "0"⟩ (Environment.calm 0)) = some t ∧
      7 ∈ s.acknowledged ∧ s.hub.replayed = [] ∧
      t.hub.replayed = [⟨"123", 1, insertCommand 7 123⟩] ∧
      ¬NoAcknowledgedReplay s
        (.onConnected ⟨"conn1", principal "123" "0"⟩ (Environment.calm 0)) t := by
  refine ⟨_, _, rfl, rfl, by decide, rfl, by decide, fun h => ?_⟩
  exact h [⟨"123", 1, insertCommand 7 123⟩] (by decide) _ (List.mem_singleton.mpr rfl) (by decide)

end ReliableSignalR.HubRuns
