import ReliableSignalR.RetainedEffects
import ReliableSignalR.IdentityInfrastructure
import ReliableSignalR.BrokerConnectionManager
import ReliableSignalR.AuditEndpoint

/-!
# The callbacks of the hub

Each callback publishes a connection event before it touches the registry, and
`OnConnected` then replays the unacknowledged commands of the connecting broker.
All external calls can throw: the environment of a callback says which of them
do, iteration by iteration for the calls inside the replay loop. A callback that
throws keeps the effects it already had.

`Replay` records one pushed command together with the log row that its text was
read from. The row is a record for the statements about replays; the loop of
the code carries the commands alone.
-/
namespace ReliableSignalR.BackOfficeHub
open DotNet Messages KeyedTable RetainedEffects IdentityInfrastructure
open BrokerConnectionManager AuditEndpoint

variable {Json : Type}

structure HubCallerContext where
  connectionId : String
  user : ClaimsPrincipal
deriving DecidableEq, Repr

structure Replay where
  user : String
  row : ℕ
  command : InsertDocumentIntoRemoteBackOfficeCommand
deriving DecidableEq, Repr

structure HubState (Json : Type) where
  brokerConnections : BrokerConnections
  messageLog : AuditTable Json
  published : List HubConnectionEvent
  replayed : List Replay

def HubState.initial : HubState Json := ⟨BrokerConnections.empty, Table.empty, [], []⟩

/-- The clock and the outcomes of the external calls made by one callback. -/
structure Environment where
  now : DateTime
  publish : Except Exception Unit
  query : Except Exception Unit
  push : ℕ → Except Exception Unit
  update : ℕ → Except Exception Unit

/-- The environment in which nothing throws. -/
def Environment.calm (now : DateTime) : Environment :=
  ⟨now, .ok (), .ok (), fun _ => .ok (), fun _ => .ok ()⟩

abbrev Callback (Json : Type) := Body Exception (HubState Json)

def getBrokerId (context : HubCallerContext) : Callback Json ℤ := call context.user.brokerId

def createConnectionEvent (context : HubCallerContext) (connectionEventType : String) :
    Callback Json HubConnectionEvent := do
  let brokerId ← getBrokerId context
  pure { brokerId, connectionEventType, connectionId := context.connectionId }

def publish (env : Environment) (event : HubConnectionEvent) : Callback Json Unit := do
  call env.publish
  modify fun s => { s with published := s.published ++ [event] }

def getTokenExpiresOnDateFromClaims (user : ClaimsPrincipal) : Except Exception DateTime :=
  match user.claims.find? fun c => c.type == IdentityConstants.tokenExpiresOnClaimType with
  | none => .error .invalidOperationException
  | some c => (longParse c.value).bind DateTime.ofTicks

def addBrokerToConnections (context : HubCallerContext) : Callback Json Unit := do
  let brokerId ← call context.user.brokerId
  let tokenExpiresOn ← call (getTokenExpiresOnDateFromClaims context.user)
  modify fun s =>
    { s with
      brokerConnections :=
        s.brokerConnections.addConnection context.connectionId brokerId tokenExpiresOn }

def isUnacknowledged (brokerId : ℤ) (maxiumDeliveryDate : DateTime) (m : MessageLog Json) :
    Bool :=
  m.brokerId == brokerId && m.completionDate.isNone && decide (m.retries < 10) &&
    m.messageType == remoteCommandType && decide (m.createDate ≤ maxiumDeliveryDate)

/-- What the query demands of a row. -/
structure Unacknowledged (brokerId : ℤ) (maxiumDeliveryDate : DateTime)
    (m : MessageLog Json) : Prop where
  brokerId : m.brokerId = brokerId
  completionDate : m.completionDate = none
  retries : m.retries < 10
  messageType : m.messageType = remoteCommandType
  createDate : m.createDate ≤ maxiumDeliveryDate

theorem isUnacknowledged_iff {brokerId : ℤ} {maxiumDeliveryDate : DateTime}
    {m : MessageLog Json} :
    isUnacknowledged brokerId maxiumDeliveryDate m = true ↔
      Unacknowledged brokerId maxiumDeliveryDate m := by
  simp only [isUnacknowledged, Bool.and_eq_true, beq_iff_eq, Option.isNone_iff_eq_none,
    decide_eq_true_eq]
  constructor
  · intro h
    exact ⟨h.1.1.1.1, h.1.1.1.2, h.1.1.2, h.1.2, h.2⟩
  · intro h
    exact ⟨⟨⟨⟨h.brokerId, h.completionDate⟩, h.retries⟩, h.messageType⟩, h.createDate⟩

/-- The rows that the query of `GetUnacknowledgedMessages` returns. -/
def unacknowledged (log : AuditTable Json) (brokerId : ℤ) (now : DateTime) :
    List (MessageLog Json) :=
  log.rows.filter (isUnacknowledged brokerId (DateTime.addDays (DateTime.today now) 1))

theorem mem_unacknowledged {log : AuditTable Json} {brokerId : ℤ} {now : DateTime}
    {m : MessageLog Json} :
    m ∈ unacknowledged log brokerId now ↔
      m ∈ log.rows ∧ Unacknowledged brokerId (DateTime.addDays (DateTime.today now) 1) m := by
  rw [unacknowledged, List.mem_filter, isUnacknowledged_iff]

/-- All texts are deserialized before the first push. -/
def deserializeAll (json : JsonSerializer Json) : List (MessageLog Json) →
    Except Exception (List (MessageLog Json × InsertDocumentIntoRemoteBackOfficeCommand))
  | [] => .ok []
  | m :: ms =>
      match json.deserialize m.body with
      | .error e => .error e
      | .ok c =>
          match deserializeAll json ms with
          | .error e => .error e
          | .ok rest => .ok ((m, c) :: rest)

def getUnacknowledgedMessages (json : JsonSerializer Json) (context : HubCallerContext)
    (env : Environment) :
    Callback Json (List (MessageLog Json × InsertDocumentIntoRemoteBackOfficeCommand)) := do
  let brokerId ← getBrokerId context
  call env.query
  let s ← get
  call (deserializeAll json (unacknowledged s.messageLog brokerId env.now))

def resendUnacknowledgedMessageToRemoteClient (context : HubCallerContext) (env : Environment)
    (i : ℕ) (m : MessageLog Json × InsertDocumentIntoRemoteBackOfficeCommand) :
    Callback Json Unit := do
  let brokerId ← getBrokerId context
  call (env.push i)
  modify fun s => { s with replayed := s.replayed ++ [⟨toString brokerId, m.1.id, m.2⟩] }

/-- The first row of the broker is read and saved; whichever call of the
transaction throws, nothing is saved. -/
def updateMessageRetries (env : Environment) (i : ℕ) (brokerId : ℤ) : Callback Json Unit := do
  call (env.update i)
  let s ← get
  match s.messageLog.first? fun a => a.brokerId == brokerId with
  | none => throw .invalidOperationException
  | some messageToUpdate =>
      modify fun s => { s with messageLog := addRetries s.messageLog messageToUpdate.id 1 }

def replayUnacknowledgedMessagesSynchronously (json : JsonSerializer Json)
    (context : HubCallerContext) (env : Environment) : Callback Json Unit := do
  let unacknowledgedMessages ← getUnacknowledgedMessages json context env
  forEach (fun i m => do
    resendUnacknowledgedMessageToRemoteClient context env i m
    updateMessageRetries env i m.2.brokerId) 0 unacknowledgedMessages

def onConnected (json : JsonSerializer Json) (context : HubCallerContext) (env : Environment) :
    Callback Json Unit := do
  let connectionEvent ← createConnectionEvent context "Connected"
  publish env connectionEvent
  addBrokerToConnections context
  replayUnacknowledgedMessagesSynchronously json context env

def onReconnected (context : HubCallerContext) (env : Environment) : Callback Json Unit := do
  let connectionEvent ← createConnectionEvent context "Reconnected"
  publish env connectionEvent
  addBrokerToConnections context

def onDisconnected (context : HubCallerContext) (env : Environment) : Callback Json Unit := do
  let connectionEvent ← createConnectionEvent context "Disconnected"
  publish env connectionEvent
  modify fun s =>
    { s with brokerConnections := s.brokerConnections.removeConnection context.connectionId }

theorem deserializeAll_cons {json : JsonSerializer Json} {m : MessageLog Json}
    {ms : List (MessageLog Json)}
    {read : List (MessageLog Json × InsertDocumentIntoRemoteBackOfficeCommand)}
    (h : deserializeAll json (m :: ms) = .ok read) :
    ∃ c rest, json.deserialize m.body = .ok c ∧ deserializeAll json ms = .ok rest ∧
      (m, c) :: rest = read := by
  unfold deserializeAll at h
  cases hm : json.deserialize m.body with
  | error e => simp [hm] at h
  | ok c =>
      cases hms : deserializeAll json ms with
      | error e => simp [hm, hms] at h
      | ok rest => exact ⟨c, rest, rfl, rfl, by simpa [hm, hms] using h⟩

theorem deserializeAll_ok {json : JsonSerializer Json} {ms : List (MessageLog Json)}
    {read : List (MessageLog Json × InsertDocumentIntoRemoteBackOfficeCommand)}
    (h : deserializeAll json ms = .ok read) :
    read.map Prod.fst = ms ∧ ∀ r ∈ read, json.deserialize r.1.body = .ok r.2 := by
  induction ms generalizing read with
  | nil =>
      obtain rfl : [] = read := by simpa [deserializeAll] using h
      simp
  | cons m ms ih =>
      obtain ⟨c, rest, hm, hms, rfl⟩ := deserializeAll_cons h
      obtain ⟨hfst, hall⟩ := ih hms
      refine ⟨by rw [List.map_cons, hfst], ?_⟩
      intro r hr
      rcases List.mem_cons.mp hr with rfl | hr
      · exact hm
      · exact hall r hr

theorem deserializeAll_exists {json : JsonSerializer Json} {ms : List (MessageLog Json)}
    (h : ∀ m ∈ ms, ∃ c, json.deserialize m.body = .ok c) :
    ∃ read, deserializeAll json ms = .ok read := by
  induction ms with
  | nil => exact ⟨[], rfl⟩
  | cons m ms ih =>
      obtain ⟨c, hc⟩ := h m List.mem_cons_self
      obtain ⟨rest, hrest⟩ := ih fun n hn => h n (List.mem_cons_of_mem m hn)
      exact ⟨(m, c) :: rest, by simp only [deserializeAll, hc, hrest]⟩

theorem createConnectionEvent_ok {context : HubCallerContext} {connectionEventType : String}
    {event : HubConnectionEvent} {s t : HubState Json}
    (h : exec (createConnectionEvent context connectionEventType) s = (.ok event, t)) :
    t = s := by
  obtain ⟨_, s₁, h₁, h⟩ := exec_bind_eq_ok.mp h
  simp only [getBrokerId, exec_call, exec_pure, Prod.mk.injEq] at h₁ h
  rw [← h.2, ← h₁.2]

theorem publish_ok {env : Environment} {event : HubConnectionEvent} {s t : HubState Json}
    (h : exec (publish env event) s = (.ok (), t)) :
    t = { s with published := s.published ++ [event] } := by
  obtain ⟨_, s₁, h₁, h⟩ := exec_bind_eq_ok.mp h
  simp only [exec_call, exec_modify, Prod.mk.injEq, true_and] at h₁ h
  rw [← h, ← h₁.2]

theorem addBrokerToConnections_ok {context : HubCallerContext} {s t : HubState Json}
    (h : exec (addBrokerToConnections context) s = (.ok (), t)) :
    ∃ r, t = { s with brokerConnections := r } := by
  obtain ⟨_, s₁, h₁, h⟩ := exec_bind_eq_ok.mp h
  obtain ⟨_, s₂, h₂, h⟩ := exec_bind_eq_ok.mp h
  simp only [exec_call, exec_modify, Prod.mk.injEq, true_and] at h₁ h₂ h
  exact ⟨_, by rw [← h, ← h₂.2, ← h₁.2]⟩

/-- The replayed commands are the rows that the query selects. -/
theorem getUnacknowledgedMessages_ok {json : JsonSerializer Json} {context : HubCallerContext}
    {env : Environment} {s t : HubState Json}
    {read : List (MessageLog Json × InsertDocumentIntoRemoteBackOfficeCommand)}
    (h : exec (getUnacknowledgedMessages json context env) s = (.ok read, t)) :
    t = s ∧ ∃ brokerId, context.user.brokerId = .ok brokerId ∧
      deserializeAll json (unacknowledged s.messageLog brokerId env.now) = .ok read := by
  unfold getUnacknowledgedMessages getBrokerId at h
  obtain ⟨brokerId, s₁, h₁, h⟩ := exec_bind_eq_ok.mp h
  obtain ⟨_, s₂, h₂, h⟩ := exec_bind_eq_ok.mp h
  obtain ⟨s₃, s₄, h₃, h⟩ := exec_bind_eq_ok.mp h
  simp only [exec_call, exec_get, Prod.mk.injEq, Except.ok.injEq] at h₁ h₂ h₃ h
  obtain ⟨hbroker, rfl⟩ := h₁
  obtain ⟨-, rfl⟩ := h₂
  obtain ⟨rfl, rfl⟩ := h₃
  exact ⟨h.2.symm, brokerId, hbroker, h.1⟩

/-- Replays are appended, and of the log only retry counters change. -/
def replayFrame (G : Replay → Prop) : Frame (HubState Json) where
  rel s t := OnlyRetries s.messageLog t.messageLog ∧
    ∃ new, t.replayed = s.replayed ++ new ∧ ∀ p ∈ new, G p
  refl s := ⟨OnlyRetries.refl _, [], by simp, by simp⟩
  trans s t u := by
    rintro ⟨hlog, new, hnew, hG⟩ ⟨hlog', new', hnew', hG'⟩
    refine ⟨hlog.trans hlog', new ++ new', by rw [hnew', hnew, List.append_assoc], ?_⟩
    intro p hp
    rcases List.mem_append.mp hp with hp | hp
    · exact hG p hp
    · exact hG' p hp

/-- The registry is left alone, or the connection is added to it. -/
def registryFrame (context : HubCallerContext) : Frame (HubState Json) where
  rel s t := t.brokerConnections = s.brokerConnections ∨
    ∃ brokerId tokenExpiresOn, context.user.brokerId = .ok brokerId ∧
      getTokenExpiresOnDateFromClaims context.user = .ok tokenExpiresOn ∧
      t.brokerConnections =
        s.brokerConnections.addConnection context.connectionId brokerId tokenExpiresOn
  refl _ := Or.inl rfl
  trans s t u := by
    rintro (h | ⟨b, e, hb, he, h⟩) (h' | ⟨b', e', hb', he', h'⟩)
    · exact Or.inl (h'.trans h)
    · exact Or.inr ⟨b', e', hb', he', by rw [h', h]⟩
    · exact Or.inr ⟨b, e, hb, he, by rw [h', h]⟩
    · have hin : context.connectionId ∈
          (s.brokerConnections.addConnection context.connectionId b e).connectionIds := by
        simp
      refine Or.inr ⟨b, e, hb, he, ?_⟩
      rw [h', h, BrokerConnections.addConnection_of_mem hin]

section Frames
variable {F : Frame (HubState Json)} {context : HubCallerContext} {env : Environment}

theorem createConnectionEvent_keeps (connectionEventType : String) :
    Keeps F (createConnectionEvent context connectionEventType) :=
  keeps_bind (keeps_call _) fun _ => keeps_pure _

theorem publish_keeps (h : ∀ s event, F.rel s { s with published := s.published ++ [event] })
    (event : HubConnectionEvent) : Keeps F (publish env event) :=
  keeps_bind (keeps_call _) fun _ => keeps_modify fun s => h s event

theorem addBrokerToConnections_keeps
    (h : ∀ s brokerId tokenExpiresOn, context.user.brokerId = .ok brokerId →
      getTokenExpiresOnDateFromClaims context.user = .ok tokenExpiresOn →
      F.rel s { s with
        brokerConnections :=
          s.brokerConnections.addConnection context.connectionId brokerId tokenExpiresOn }) :
    Keeps F (addBrokerToConnections context) := by
  intro s
  refine keepsAt_bind (F.refl s) fun brokerId s₁ h₁ => ?_
  refine keepsAt_bind (F.refl s₁) fun tokenExpiresOn s₂ h₂ => ?_
  simp only [exec_call, Prod.mk.injEq] at h₁ h₂
  exact h s₂ brokerId tokenExpiresOn h₁.1 h₂.1

theorem updateMessageRetries_keeps
    (h : ∀ s id, F.rel s { s with messageLog := addRetries s.messageLog id 1 })
    (i : ℕ) (brokerId : ℤ) : Keeps F (updateMessageRetries env i brokerId) := by
  refine keeps_bind (keeps_call _) fun _ s => ?_
  refine keepsAt_bind (F.refl s) fun s₁ s₂ _ => ?_
  cases s₁.messageLog.first? fun a => a.brokerId == brokerId with
  | none => exact F.refl s₂
  | some m => exact h s₂ m.id

theorem onReconnected_keeps
    (hpublish : ∀ s event, F.rel s { s with published := s.published ++ [event] })
    (hadd : ∀ s brokerId tokenExpiresOn, context.user.brokerId = .ok brokerId →
      getTokenExpiresOnDateFromClaims context.user = .ok tokenExpiresOn →
      F.rel s { s with
        brokerConnections :=
          s.brokerConnections.addConnection context.connectionId brokerId tokenExpiresOn }) :
    Keeps F (onReconnected context env) :=
  keeps_bind (createConnectionEvent_keeps _) fun event =>
    keeps_bind (publish_keeps hpublish event) fun _ => addBrokerToConnections_keeps hadd

theorem onDisconnected_keeps
    (hpublish : ∀ s event, F.rel s { s with published := s.published ++ [event] })
    (hremove : ∀ s, F.rel s { s with
      brokerConnections := s.brokerConnections.removeConnection context.connectionId }) :
    Keeps F (onDisconnected context env) :=
  keeps_bind (createConnectionEvent_keeps _) fun event =>
    keeps_bind (publish_keeps hpublish event) fun _ => keeps_modify hremove

theorem getUnacknowledgedMessages_keeps (json : JsonSerializer Json) :
    Keeps F (getUnacknowledgedMessages json context env) :=
  keeps_bind (keeps_call _) fun _ => keeps_bind (keeps_call _) fun _ s =>
    keepsAt_bind (F.refl s) fun _ t _ => F.refl t

end Frames

/-- Whatever throws, `OnConnected` adds the connection or leaves the registry. -/
theorem onConnected_registry (json : JsonSerializer Json) (context : HubCallerContext)
    (env : Environment) : Keeps (registryFrame context) (onConnected json context env) := by
  refine keeps_bind (createConnectionEvent_keeps _) fun event => ?_
  refine keeps_bind (publish_keeps (fun _ _ => Or.inl rfl) event) fun _ => ?_
  refine keeps_bind (addBrokerToConnections_keeps fun s b e hb he =>
    Or.inr ⟨b, e, hb, he, rfl⟩) fun _ => ?_
  refine keeps_bind (getUnacknowledgedMessages_keeps json) fun read => ?_
  refine keeps_forEach (fun i m _ => ?_) 0
  refine keeps_bind ?_ fun _ => updateMessageRetries_keeps (fun _ _ => Or.inl rfl) i m.2.brokerId
  exact keeps_bind (keeps_call _) fun _ => keeps_bind (keeps_call _) fun _ =>
    keeps_modify fun _ => Or.inl rfl

theorem onReconnected_registry (context : HubCallerContext) (env : Environment) :
    Keeps (registryFrame context) (onReconnected context env : Callback Json Unit) :=
  onReconnected_keeps (fun _ _ => Or.inl rfl) fun _ b e hb he => Or.inr ⟨b, e, hb, he, rfl⟩

/-- The connection is removed if the principal has a broker id and the event
could be published; otherwise nothing happens to the registry. -/
theorem onDisconnected_registry (context : HubCallerContext) (env : Environment)
    (s : HubState Json) :
    (exec (onDisconnected context env) s).2.brokerConnections =
      if context.user.brokerId.isOk ∧ env.publish.isOk then
        s.brokerConnections.removeConnection context.connectionId
      else s.brokerConnections := by
  simp only [onDisconnected, createConnectionEvent, getBrokerId, publish, exec_bind, exec_call,
    exec_pure, exec_modify]
  cases context.user.brokerId with
  | error e => simp [Except.isOk, Except.toBool]
  | ok brokerId => cases env.publish <;> simp [Except.isOk, Except.toBool]

/-- Only `OnConnected` reads or writes the message log. -/
theorem onReconnected_log (context : HubCallerContext) (env : Environment) (s : HubState Json) :
    (exec (onReconnected context env) s).2.messageLog = s.messageLog ∧
      (exec (onReconnected context env) s).2.replayed = s.replayed := by
  have h : Keeps (Frame.unchanged fun s : HubState Json => (s.messageLog, s.replayed))
      (onReconnected context env) :=
    onReconnected_keeps (fun _ _ => rfl) fun _ _ _ _ _ => rfl
  exact Prod.mk.inj (h s)

theorem onDisconnected_log (context : HubCallerContext) (env : Environment)
    (s : HubState Json) :
    (exec (onDisconnected context env) s).2.messageLog = s.messageLog ∧
      (exec (onDisconnected context env) s).2.replayed = s.replayed := by
  have h : Keeps (Frame.unchanged fun s : HubState Json => (s.messageLog, s.replayed))
      (onDisconnected context env) :=
    onDisconnected_keeps (fun _ _ => rfl) fun _ => rfl
  exact Prod.mk.inj (h s)

/-- Whatever throws, a replayed command is the text of a row that was
unacknowledged when the callback began, pushed to the connecting broker. -/
theorem onConnected_replayed (json : JsonSerializer Json) (context : HubCallerContext)
    (env : Environment) (s : HubState Json) :
    OnlyRetries s.messageLog (exec (onConnected json context env) s).2.messageLog ∧
      ∃ new, (exec (onConnected json context env) s).2.replayed = s.replayed ++ new ∧
        ∀ p ∈ new, ∃ brokerId, context.user.brokerId = .ok brokerId ∧ p.user = toString brokerId ∧
          ∃ m ∈ unacknowledged s.messageLog brokerId env.now,
            m.id = p.row ∧ json.deserialize m.body = .ok p.command := by
  let G : Replay → Prop := fun p =>
    ∃ brokerId, context.user.brokerId = .ok brokerId ∧ p.user = toString brokerId ∧
      ∃ m ∈ unacknowledged s.messageLog brokerId env.now,
        m.id = p.row ∧ json.deserialize m.body = .ok p.command
  let F : Frame (HubState Json) := replayFrame G
  have still : ∀ s t : HubState Json, t.messageLog = s.messageLog → t.replayed = s.replayed →
      F.rel s t := fun s t hlog hreplayed =>
    ⟨by rw [hlog]; exact OnlyRetries.refl _, [], by rw [hreplayed, List.append_nil], by simp⟩
  change KeepsAt F (onConnected json context env) s
  have updated : ∀ i brokerId, Keeps F (updateMessageRetries env i brokerId) :=
    updateMessageRetries_keeps fun s id =>
      ⟨addRetries_onlyRetries _ _ _, [], (List.append_nil _).symm, by simp⟩
  refine keepsAt_bind (createConnectionEvent_keeps _ s) fun event s₁ h₁ => ?_
  refine keepsAt_bind (publish_keeps (fun s _ => still _ _ rfl rfl) event s₁) fun _ s₂ h₂ => ?_
  refine keepsAt_bind (addBrokerToConnections_keeps (fun _ _ _ _ _ => still _ _ rfl rfl) s₂)
    fun _ s₃ h₃ => ?_
  refine keepsAt_bind (getUnacknowledgedMessages_keeps json s₃) fun read s₄ h₄ => ?_
  obtain ⟨rfl, brokerId, hbroker, hread⟩ := getUnacknowledgedMessages_ok h₄
  have hlog : s₄.messageLog = s.messageLog := by
    obtain ⟨r, hr⟩ := addBrokerToConnections_ok h₃
    rw [hr, publish_ok h₂, createConnectionEvent_ok h₁]
  rw [hlog] at hread
  obtain ⟨hfst, hbodies⟩ := deserializeAll_ok hread
  refine keeps_forEach (fun i m hm => ?_) 0 s₄
  refine keeps_bind ?_ fun _ => updated i m.2.brokerId
  intro u
  refine keepsAt_bind (keeps_call _ u) fun b u₁ hcall => ?_
  have hb : context.user.brokerId = .ok b := by
    simpa only [getBrokerId, exec_call, Prod.mk.injEq] using congrArg Prod.fst hcall
  refine keepsAt_bind (keeps_call _ u₁) fun _ u₂ _ => ?_
  refine ⟨OnlyRetries.refl _, [⟨toString b, m.1.id, m.2⟩], rfl, ?_⟩
  intro p hp
  rw [List.mem_singleton.mp hp]
  obtain rfl : brokerId = b := by
    rw [hbroker] at hb
    exact Except.ok.inj hb
  refine ⟨brokerId, hbroker, rfl, m.1, ?_, rfl, hbodies m hm⟩
  rw [← hfst]
  exact List.mem_map_of_mem hm

/-- The row that `UpdateMessageRetries` saves is the broker's first row. -/
def countFirst (log : AuditTable Json) (brokerId : ℤ) (k : ℕ) : AuditTable Json :=
  match log.first? fun a => a.brokerId == brokerId with
  | none => log
  | some messageToUpdate => addRetries log messageToUpdate.id k

theorem first?_addRetries (log : AuditTable Json) (id k : ℕ) (brokerId : ℤ) :
    (addRetries log id k).first? (fun a => a.brokerId == brokerId) =
      (log.first? fun a => a.brokerId == brokerId).map fun m =>
        if m.id = id then { m with retries := m.retries + k } else m :=
  Table.first?_update (fun m => by split <;> rfl) _

theorem countFirst_zero (log : AuditTable Json) (brokerId : ℤ) :
    countFirst log brokerId 0 = log := by
  unfold countFirst
  split
  · rfl
  · exact addRetries_zero log _

theorem countFirst_succ (log : AuditTable Json) (brokerId : ℤ) (k : ℕ) :
    countFirst (countFirst log brokerId 1) brokerId k = countFirst log brokerId (k + 1) := by
  unfold countFirst
  cases h : log.first? fun a => a.brokerId == brokerId with
  | none => simp only [h]
  | some m =>
      simp only [first?_addRetries, h, Option.map_some, if_true]
      rw [addRetries_addRetries, Nat.add_comm]

/-- The effect of one iteration that throws nothing. -/
def replayEffect (brokerId : ℤ) (s : HubState Json)
    (m : MessageLog Json × InsertDocumentIntoRemoteBackOfficeCommand) : HubState Json :=
  { s with
    replayed := s.replayed ++ [⟨toString brokerId, m.1.id, m.2⟩]
    messageLog := countFirst s.messageLog m.2.brokerId 1 }

theorem replayEffect_fold (brokerId : ℤ)
    (read : List (MessageLog Json × InsertDocumentIntoRemoteBackOfficeCommand))
    (hread : ∀ m ∈ read, m.2.brokerId = brokerId) (s : HubState Json) :
    read.foldl (replayEffect brokerId) s =
      { s with
        replayed := s.replayed ++ read.map fun m => ⟨toString brokerId, m.1.id, m.2⟩
        messageLog := countFirst s.messageLog brokerId read.length } := by
  induction read generalizing s with
  | nil =>
      simp only [List.foldl_nil, List.map_nil, List.append_nil, List.length_nil, countFirst_zero]
  | cons m read ih =>
      have hm : m.2.brokerId = brokerId := hread m List.mem_cons_self
      rw [List.foldl_cons, ih fun n hn => hread n (List.mem_cons_of_mem m hn)]
      simp only [replayEffect, hm, countFirst_succ, List.append_assoc, List.map_cons,
        List.singleton_append, List.length_cons]

theorem replayIteration_ok {context : HubCallerContext} {env : Environment} {i : ℕ}
    {m : MessageLog Json × InsertDocumentIntoRemoteBackOfficeCommand} {s t : HubState Json}
    {brokerId : ℤ} (hbroker : context.user.brokerId = .ok brokerId)
    (h : exec (do
      resendUnacknowledgedMessageToRemoteClient context env i m
      updateMessageRetries env i m.2.brokerId) s = (.ok (), t)) :
    t = replayEffect brokerId s m := by
  obtain ⟨_, s₁, h₁, h⟩ := exec_bind_eq_ok.mp h
  unfold resendUnacknowledgedMessageToRemoteClient getBrokerId at h₁
  obtain ⟨b, s₂, hb, h₁⟩ := exec_bind_eq_ok.mp h₁
  obtain ⟨_, s₃, hpush, h₁⟩ := exec_bind_eq_ok.mp h₁
  unfold updateMessageRetries at h
  obtain ⟨_, s₄, hupdate, h⟩ := exec_bind_eq_ok.mp h
  obtain ⟨s₅, s₆, hget, h⟩ := exec_bind_eq_ok.mp h
  simp only [exec_call, exec_get, exec_modify, Prod.mk.injEq] at hb hpush hupdate hget h₁
  obtain ⟨hb, rfl⟩ := hb
  obtain ⟨-, rfl⟩ := hpush
  obtain ⟨-, rfl⟩ := h₁
  obtain ⟨-, rfl⟩ := hupdate
  obtain ⟨hget, rfl⟩ := hget
  obtain rfl : brokerId = b := by
    rw [hbroker] at hb
    exact Except.ok.inj hb
  obtain rfl := Except.ok.inj hget
  unfold replayEffect countFirst
  simp only at h
  cases hfirst : s.messageLog.first? fun a => a.brokerId == m.2.brokerId with
  | none => simp [hfirst] at h
  | some row =>
      simp only [hfirst, exec_modify, Prod.mk.injEq, true_and] at h
      exact h.symm

/-- The texts of a broker's selected rows are commands of that broker. -/
theorem read_brokerId {json : JsonSerializer Json} {log : AuditTable Json}
    (hlog : AllStored json log) {brokerId : ℤ} {now : DateTime}
    {read : List (MessageLog Json × InsertDocumentIntoRemoteBackOfficeCommand)}
    (hread : deserializeAll json (unacknowledged log brokerId now) = .ok read) :
    ∀ m ∈ read, m.2.brokerId = brokerId := by
  intro m hm
  obtain ⟨hfst, hbodies⟩ := deserializeAll_ok hread
  have hrow : m.1 ∈ unacknowledged log brokerId now := hfst ▸ List.mem_map_of_mem hm
  have hselected := mem_unacknowledged.mp hrow
  obtain ⟨message, hstores⟩ := hlog m.1 hselected.1
  obtain ⟨c, -, hbody, hbroker, -⟩ := hstores.deserialize hselected.2.messageType
  have hc : c = m.2 := by
    rw [hbodies m hm] at hbody
    exact (Except.ok.inj hbody).symm
  rw [← hc, ← hbroker]
  exact hselected.2.brokerId

/-- An `OnConnected` that returns has pushed every selected row once and has
added their number to the counter of the broker's first row. -/
theorem onConnected_ok {json : JsonSerializer Json} {context : HubCallerContext}
    {env : Environment} {s t : HubState Json} (hlog : AllStored json s.messageLog)
    (h : exec (onConnected json context env) s = (.ok (), t)) :
    ∃ brokerId read, context.user.brokerId = .ok brokerId ∧
      deserializeAll json (unacknowledged s.messageLog brokerId env.now) = .ok read ∧
      t.replayed = s.replayed ++ (read.map fun m => ⟨toString brokerId, m.1.id, m.2⟩) ∧
      t.messageLog = countFirst s.messageLog brokerId read.length := by
  unfold onConnected replayUnacknowledgedMessagesSynchronously at h
  obtain ⟨event, s₁, h₁, h⟩ := exec_bind_eq_ok.mp h
  obtain ⟨_, s₂, h₂, h⟩ := exec_bind_eq_ok.mp h
  obtain ⟨_, s₃, h₃, h⟩ := exec_bind_eq_ok.mp h
  obtain ⟨read, s₄, h₄, h⟩ := exec_bind_eq_ok.mp h
  have hs₁ : s₁ = s := createConnectionEvent_ok h₁
  have hs₂ := publish_ok h₂
  obtain ⟨c, hs₃⟩ := addBrokerToConnections_ok h₃
  obtain ⟨hs₄, brokerId, hbroker, hread⟩ := getUnacknowledgedMessages_ok h₄
  have ht : t = read.foldl (replayEffect brokerId) s₄ :=
    forEach_ok (f := replayEffect brokerId) (fun _ _ _ _ h => replayIteration_ok hbroker h) h
  subst hs₁ hs₂ hs₃ hs₄
  refine ⟨brokerId, read, hbroker, hread, ?_⟩
  rw [ht, replayEffect_fold brokerId read (read_brokerId hlog hread)]
  exact ⟨rfl, rfl⟩

/-- An iteration that throws has pushed its command or not, and counted nothing. -/
theorem replayIteration_error {context : HubCallerContext} {env : Environment} {i : ℕ}
    {m : MessageLog Json × InsertDocumentIntoRemoteBackOfficeCommand} {s t : HubState Json}
    {e : Exception} {brokerId : ℤ} (hbroker : context.user.brokerId = .ok brokerId)
    (h : exec (do
      resendUnacknowledgedMessageToRemoteClient context env i m
      updateMessageRetries env i m.2.brokerId) s = (.error e, t)) :
    t = s ∨ t = { s with replayed := s.replayed ++ [⟨toString brokerId, m.1.id, m.2⟩] } := by
  simp only [resendUnacknowledgedMessageToRemoteClient, getBrokerId, updateMessageRetries,
    exec_bind, exec_call, exec_modify, exec_get, hbroker] at h
  cases hpush : env.push i with
  | error e' =>
      simp only [hpush, Prod.mk.injEq] at h
      exact Or.inl h.2.symm
  | ok _ =>
      right
      cases hupdate : env.update i with
      | error e' =>
          simp only [hpush, hupdate, Prod.mk.injEq] at h
          exact h.2.symm
      | ok _ =>
          simp only [hpush, hupdate] at h
          split at h
          · simp only [exec_throw, Prod.mk.injEq] at h
            exact h.2.symm
          · simp at h

/-- Wherever the loop stops, it has pushed its first `j` commands and counted
`k` of them. -/
theorem replayLoop_effect {context : HubCallerContext} (env : Environment) {brokerId : ℤ}
    (hbroker : context.user.brokerId = .ok brokerId)
    (read : List (MessageLog Json × InsertDocumentIntoRemoteBackOfficeCommand))
    (hread : ∀ m ∈ read, m.2.brokerId = brokerId) (i : ℕ) (s : HubState Json) :
    ∃ j k, k ≤ j ∧ j ≤ read.length ∧
      (exec (forEach (fun i m => do
        resendUnacknowledgedMessageToRemoteClient context env i m
        updateMessageRetries env i m.2.brokerId) i read) s).2 =
      { s with
        replayed := s.replayed ++ (read.take j).map fun m => ⟨toString brokerId, m.1.id, m.2⟩
        messageLog := countFirst s.messageLog brokerId k } := by
  induction read generalizing i s with
  | nil =>
      refine ⟨0, 0, Nat.le_refl _, Nat.le_refl _, ?_⟩
      simp only [forEach, exec_pure, List.take_nil, List.map_nil, List.append_nil, countFirst_zero]
  | cons m read ih =>
      rw [forEach, exec_bind]
      rcases hm : exec (do
        resendUnacknowledgedMessageToRemoteClient context env i m
        updateMessageRetries env i m.2.brokerId) s with ⟨e | _, t⟩
      · rcases replayIteration_error hbroker hm with ht | ht
        · refine ⟨0, 0, Nat.le_refl _, Nat.zero_le _, ?_⟩
          simp only [ht, List.take_zero, List.map_nil, List.append_nil, countFirst_zero]
        · refine ⟨1, 0, Nat.zero_le _, by simp, ?_⟩
          simp only [ht, List.take_succ_cons, List.take_zero, List.map_cons, List.map_nil,
            countFirst_zero]
      · have ht := replayIteration_ok hbroker hm
        obtain ⟨j, k, hkj, hj, hrest⟩ :=
          ih (fun n hn => hread n (List.mem_cons_of_mem m hn)) (i + 1) t
        refine ⟨j + 1, k + 1, Nat.succ_le_succ hkj, Nat.succ_le_succ hj, ?_⟩
        rw [hrest, ht]
        simp only [replayEffect, hread m List.mem_cons_self, countFirst_succ, List.append_assoc,
          List.take_succ_cons, List.map_cons, List.singleton_append]

/-- What `OnConnected` does to the log and to the client, whatever throws. -/
inductive ReplayEffect (json : JsonSerializer Json) (context : HubCallerContext)
    (now : DateTime) (s t : HubState Json) : Prop
  | unreached (log : t.messageLog = s.messageLog) (replayed : t.replayed = s.replayed)
  | replayed (brokerId : ℤ)
      (read : List (MessageLog Json × InsertDocumentIntoRemoteBackOfficeCommand)) (j k : ℕ)
      (broker : context.user.brokerId = .ok brokerId)
      (reading : deserializeAll json (unacknowledged s.messageLog brokerId now) = .ok read)
      (counted_le : k ≤ j) (pushed_le : j ≤ read.length)
      (replayed : t.replayed =
        s.replayed ++ (read.take j).map fun m => ⟨toString brokerId, m.1.id, m.2⟩)
      (log : t.messageLog = countFirst s.messageLog brokerId k)

theorem onConnected_effect {json : JsonSerializer Json} (context : HubCallerContext)
    (env : Environment) {s : HubState Json} (hlog : AllStored json s.messageLog) :
    ReplayEffect json context env.now s (exec (onConnected json context env) s).2 := by
  let F : Frame (HubState Json) := Frame.unchanged fun s => (s.messageLog, s.replayed)
  have throws : ∀ {α : Type} {b : Callback Json α} {s₁ t : HubState Json} {e : Exception},
      Keeps F b → s₁.messageLog = s.messageLog ∧ s₁.replayed = s.replayed →
      exec b s₁ = (.error e, t) → ReplayEffect json context env.now s t := by
    intro α b s₁ t e hkeep hs₁ hexec
    have h : ((exec b s₁).2.messageLog, (exec b s₁).2.replayed) =
        (s₁.messageLog, s₁.replayed) := hkeep s₁
    rw [hexec] at h
    obtain ⟨hlog, hreplayed⟩ := Prod.mk.inj h
    exact .unreached (hlog.trans hs₁.1) (hreplayed.trans hs₁.2)
  unfold onConnected replayUnacknowledgedMessagesSynchronously
  apply exec_bind_state
  · exact fun e t => throws (createConnectionEvent_keeps _) ⟨rfl, rfl⟩
  intro event s₁ h₁
  have hs₁ := createConnectionEvent_ok h₁
  apply exec_bind_state
  · exact fun e t => throws (publish_keeps (fun _ _ => rfl) event) ⟨by rw [hs₁], by rw [hs₁]⟩
  intro _ s₂ h₂
  have hs₂ := publish_ok h₂
  apply exec_bind_state
  · exact fun e t => throws (addBrokerToConnections_keeps fun _ _ _ _ _ => rfl)
      ⟨by rw [hs₂, hs₁], by rw [hs₂, hs₁]⟩
  intro _ s₃ h₃
  obtain ⟨r, hs₃⟩ := addBrokerToConnections_ok h₃
  apply exec_bind_state
  · exact fun e t => throws (getUnacknowledgedMessages_keeps json)
      ⟨by rw [hs₃, hs₂, hs₁], by rw [hs₃, hs₂, hs₁]⟩
  intro read s₄ h₄
  obtain ⟨hs₄, brokerId, hbroker, hread⟩ := getUnacknowledgedMessages_ok h₄
  have hlog₃ : s₃.messageLog = s.messageLog := by rw [hs₃, hs₂, hs₁]
  rw [hlog₃] at hread
  obtain ⟨j, k, hkj, hj, hloop⟩ :=
    replayLoop_effect env hbroker read (read_brokerId hlog hread) 0 s₄
  rw [hloop]
  refine .replayed brokerId read j k hbroker hread hkj hj ?_ ?_
  · rw [hs₄, hs₃, hs₂, hs₁]
  · rw [hs₄, hlog₃]

/-- The callback gets as far as the rows that the query returns. -/
def ReachesReplay (context : HubCallerContext) (env : Environment) : Prop :=
  context.user.brokerId.isOk = true ∧ env.publish.isOk = true ∧
    (getTokenExpiresOnDateFromClaims context.user).isOk = true ∧ env.query.isOk = true

instance (context : HubCallerContext) (env : Environment) :
    Decidable (ReachesReplay context env) :=
  inferInstanceAs (Decidable (_ ∧ _))

theorem onConnected_unreached (json : JsonSerializer Json) {context : HubCallerContext}
    {env : Environment} (h : ¬ReachesReplay context env) (s : HubState Json) :
    (exec (onConnected json context env) s).2.messageLog = s.messageLog ∧
      (exec (onConnected json context env) s).2.replayed = s.replayed := by
  unfold ReachesReplay at h
  simp only [onConnected, createConnectionEvent, getBrokerId, publish, addBrokerToConnections,
    replayUnacknowledgedMessagesSynchronously, getUnacknowledgedMessages, exec_bind, exec_call,
    exec_modify, exec_pure]
  cases hbroker : context.user.brokerId with
  | error e => exact ⟨rfl, rfl⟩
  | ok brokerId =>
      cases hpublish : env.publish with
      | error e => exact ⟨rfl, rfl⟩
      | ok _ =>
          cases hexpires : getTokenExpiresOnDateFromClaims context.user with
          | error e => exact ⟨rfl, rfl⟩
          | ok tokenExpiresOn =>
              cases hquery : env.query with
              | error e => exact ⟨rfl, rfl⟩
              | ok _ =>
                  rw [hbroker, hpublish, hexpires, hquery] at h
                  exact absurd ⟨rfl, rfl, rfl, rfl⟩ h

end ReliableSignalR.BackOfficeHub
