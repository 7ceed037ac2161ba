import ReliableSignalR.UserKeys

/-!
# Connects that fail

`OnConnected` adds the connection in the middle of its calls: the publish and the
parsing of the claims come before `AddConnection`, the replay comes after it.
What throws before leaves the registry as it was. What throws in the replay leaves
the new connection in the list and the broker's other connections expired, unless
the connection was in the list already.
-/
namespace ReliableSignalR.FailedConnects
open DotNet RetainedEffects Messages KeyedTable
open BrokerConnectionManager AuditEndpoint BackOfficeHub HubRuns UserKeys

variable {Json : Type}

/-- No call of the replay to the broker throws. -/
structure ReplayCalm (json : JsonSerializer Json) (env : Environment) (log : AuditTable Json)
    (brokerId : ℤ) : Prop where
  query : env.query.isOk = true
  texts : ∀ m ∈ unacknowledged log brokerId env.now, (json.deserialize m.body).isOk = true
  push : ∀ i < (unacknowledged log brokerId env.now).length, (env.push i).isOk = true
  update : ∀ i < (unacknowledged log brokerId env.now).length, (env.update i).isOk = true
  first : ∀ m ∈ unacknowledged log brokerId env.now, ∀ c, json.deserialize m.body = .ok c →
    ∃ a ∈ log.rows, a.brokerId = c.brokerId

section Replay
variable {json : JsonSerializer Json} {context : HubCallerContext} {env : Environment}
  {s : HubState Json} {brokerId : ℤ}

/-- The log has rows of the same brokers as the one that the replay has read. -/
def SameBrokers (log : AuditTable Json) (s : HubState Json) : Prop :=
  ∀ b, (∃ a ∈ s.messageLog.rows, a.brokerId = b) ↔ ∃ a ∈ log.rows, a.brokerId = b

theorem sameBrokers_addRetries {log : AuditTable Json} (h : SameBrokers log s) (id k : ℕ)
    (replayed : List Replay) :
    SameBrokers log
      { s with messageLog := addRetries s.messageLog id k, replayed := replayed } := by
  intro b
  rw [← h b]
  simp only [addRetries, Table.rows_update, List.mem_map]
  constructor
  · rintro ⟨_, ⟨a, ha, rfl⟩, hb⟩
    refine ⟨a, ha, ?_⟩
    split at hb
    · exact hb
    · exact hb
  · rintro ⟨a, ha, hb⟩
    refine ⟨_, ⟨a, ha, rfl⟩, ?_⟩
    split
    · exact hb
    · exact hb

theorem sameBrokers_replayEffect {log : AuditTable Json} (h : SameBrokers log s)
    (m : MessageLog Json × InsertDocumentIntoRemoteBackOfficeCommand) :
    SameBrokers log (replayEffect brokerId s m) := by
  unfold replayEffect countFirst
  split
  · exact h
  · exact sameBrokers_addRetries h _ _ _

theorem first?_isSome {log : AuditTable Json} {b : ℤ} :
    (∃ m, log.first? (fun a => a.brokerId == b) = some m) ↔ ∃ a ∈ log.rows, a.brokerId = b := by
  constructor
  · rintro ⟨m, hm⟩
    obtain ⟨hrow, hb⟩ := Table.mem_of_first? hm
    exact ⟨m, hrow, beq_iff_eq.mp hb⟩
  · rintro ⟨a, ha, hb⟩
    exact Table.exists_first? ha (beq_iff_eq.mpr hb)

theorem updateMessageRetries_returns {i : ℕ} {b : ℤ} :
    Returns (updateMessageRetries env i b) s ↔
      (env.update i).isOk = true ∧ ∃ a ∈ s.messageLog.rows, a.brokerId = b := by
  unfold updateMessageRetries Returns
  rw [← first?_isSome]
  simp only [exec_bind, exec_call, exec_get]
  cases env.update i with
  | error e => simp [Except.isOk, Except.toBool]
  | ok _ =>
      cases hfirst : s.messageLog.first? fun a => a.brokerId == b with
      | none => simp [hfirst]
      | some m => simp [hfirst, Except.isOk, Except.toBool]

/-- One iteration returns if the push and the update do, and the update finds a row. -/
theorem replayIteration_returns {i : ℕ}
    {m : MessageLog Json × InsertDocumentIntoRemoteBackOfficeCommand}
    (hbroker : context.user.brokerId = .ok brokerId) :
    Returns (do
      resendUnacknowledgedMessageToRemoteClient context env i m
      updateMessageRetries env i m.2.brokerId) s ↔
    (env.push i).isOk = true ∧ (env.update i).isOk = true ∧
      ∃ a ∈ s.messageLog.rows, a.brokerId = m.2.brokerId := by
  rw [returns_bind]
  simp only [updateMessageRetries_returns, resendUnacknowledgedMessageToRemoteClient, getBrokerId,
    exec_bind, exec_call, exec_modify, hbroker]
  cases env.push i with
  | error e => simp [Except.isOk, Except.toBool]
  | ok _ => simp [Except.isOk, Except.toBool]

theorem deserializeAll_isOk {ms : List (MessageLog Json)} :
    (∃ read, deserializeAll json ms = .ok read) ↔
      ∀ m ∈ ms, (json.deserialize m.body).isOk = true := by
  constructor
  · rintro ⟨read, hread⟩ m hm
    obtain ⟨hfst, hbodies⟩ := deserializeAll_ok hread
    rw [← hfst] at hm
    obtain ⟨r, hr, rfl⟩ := List.mem_map.mp hm
    rw [hbodies r hr]
    rfl
  · intro h
    refine deserializeAll_exists fun m hm => ?_
    have hok := h m hm
    cases hm : json.deserialize m.body with
    | error e =>
        rw [hm] at hok
        cases hok
    | ok c => exact ⟨c, rfl⟩

theorem getUnacknowledgedMessages_eq_ok {t : HubState Json}
    (hbroker : context.user.brokerId = .ok brokerId)
    {read : List (MessageLog Json × InsertDocumentIntoRemoteBackOfficeCommand)} :
    exec (getUnacknowledgedMessages json context env) s = (.ok read, t) ↔
      env.query.isOk = true ∧
        deserializeAll json (unacknowledged s.messageLog brokerId env.now) = .ok read ∧ s = t := by
  simp only [getUnacknowledgedMessages, getBrokerId, exec_bind, exec_call, exec_get, hbroker]
  cases env.query with
  | error e => simp [Except.isOk, Except.toBool]
  | ok _ => simp [Except.isOk, Except.toBool]

/-- What the iterations of the loop ask for, in terms of the rows that it reads. -/
theorem iterations_calm {log : AuditTable Json}
    {read : List (MessageLog Json × InsertDocumentIntoRemoteBackOfficeCommand)}
    (hread : deserializeAll json (unacknowledged log brokerId env.now) = .ok read) :
    (∀ j m, read[j]? = some m → (env.push (0 + j)).isOk = true ∧ (env.update (0 + j)).isOk = true ∧
      ∃ a ∈ log.rows, a.brokerId = m.2.brokerId) ↔
    (∀ i < (unacknowledged log brokerId env.now).length, (env.push i).isOk = true) ∧
      (∀ i < (unacknowledged log brokerId env.now).length, (env.update i).isOk = true) ∧
      ∀ m ∈ unacknowledged log brokerId env.now, ∀ c, json.deserialize m.body = .ok c →
        ∃ a ∈ log.rows, a.brokerId = c.brokerId := by
  obtain ⟨hfst, hbodies⟩ := deserializeAll_ok hread
  have hlength : read.length = (unacknowledged log brokerId env.now).length := by
    rw [← hfst, List.length_map]
  simp only [Nat.zero_add, ← hlength]
  constructor
  · intro h
    refine ⟨fun i hi => (h i _ (List.getElem?_eq_getElem hi)).1,
      fun i hi => (h i _ (List.getElem?_eq_getElem hi)).2.1, fun m hm c hc => ?_⟩
    rw [← hfst] at hm
    obtain ⟨r, hr, rfl⟩ := List.mem_map.mp hm
    obtain ⟨j, hj⟩ := List.mem_iff_getElem?.mp hr
    rw [hbodies r hr] at hc
    exact Except.ok.inj hc ▸ (h j r hj).2.2
  · intro ⟨hpush, hupdate, hfirst⟩ j m hj
    have hlt := (List.getElem?_eq_some_iff.mp hj).1
    have hm := List.mem_of_getElem? hj
    refine ⟨hpush j hlt, hupdate j hlt, hfirst m.1 ?_ m.2 (hbodies m hm)⟩
    rw [← hfst]
    exact List.mem_map_of_mem hm

/-- The replay returns exactly if the connecting broker's replay is calm. -/
theorem replay_returns (hbroker : context.user.brokerId = .ok brokerId) :
    Returns (replayUnacknowledgedMessagesSynchronously json context env) s ↔
      ReplayCalm json env s.messageLog brokerId := by
  unfold replayUnacknowledgedMessagesSynchronously
  have hiteration : ∀ i (m : MessageLog Json × InsertDocumentIntoRemoteBackOfficeCommand)
      (t : HubState Json), SameBrokers s.messageLog t → (Returns (do
        resendUnacknowledgedMessageToRemoteClient context env i m
        updateMessageRetries env i m.2.brokerId) t ↔
      (env.push i).isOk = true ∧ (env.update i).isOk = true ∧
        ∃ a ∈ s.messageLog.rows, a.brokerId = m.2.brokerId) := by
    intro i m t ht
    rw [replayIteration_returns hbroker, ht m.2.brokerId]
  have hloop := fun read => returns_forEach (i := 0) (s := s) hiteration
    (fun i m t u ht hu => replayIteration_ok hbroker hu ▸ sameBrokers_replayEffect ht m)
    read (fun _ => Iff.rfl)
  rw [returns_bind]
  constructor
  · intro ⟨read, t, hget, hrest⟩
    obtain ⟨hquery, hread, rfl⟩ := (getUnacknowledgedMessages_eq_ok hbroker).mp hget
    obtain ⟨hpush, hupdate, hfirst⟩ := (iterations_calm hread).mp ((hloop read).mp hrest)
    exact ⟨hquery, deserializeAll_isOk.mp ⟨read, hread⟩, hpush, hupdate, hfirst⟩
  · intro h
    obtain ⟨read, hread⟩ := deserializeAll_isOk.mpr h.texts
    refine ⟨read, s, (getUnacknowledgedMessages_eq_ok hbroker).mpr ⟨h.query, hread, rfl⟩, ?_⟩
    exact (hloop read).mpr ((iterations_calm hread).mpr ⟨h.push, h.update, h.first⟩)

end Replay

section Connect
variable {json : JsonSerializer Json} {context : HubCallerContext} {env : Environment}
  {s : HubState Json}

/-- The statements up to `AddConnection` return if the callback registers. -/
theorem register_exec {brokerId : ℤ} {tokenExpiresOn : DateTime}
    (hregisters : registers context env = true) (hbroker : context.user.brokerId = .ok brokerId)
    (hexpires : getTokenExpiresOnDateFromClaims context.user = .ok tokenExpiresOn)
    (connectionEventType : String) :
    exec (register context env connectionEventType) s =
      (.ok (), { s with
        published := s.published ++ [⟨brokerId, connectionEventType, context.connectionId⟩]
        brokerConnections :=
          s.brokerConnections.addConnection context.connectionId brokerId tokenExpiresOn }) := by
  simp only [register, createConnectionEvent, getBrokerId, publish, addBrokerToConnections,
    exec_bind, exec_call, exec_pure, exec_modify, hbroker, hexpires]
  cases hpublish : env.publish with
  | error e => simp [registers, hpublish, Except.isOk, Except.toBool] at hregisters
  | ok _ => rfl

theorem exists_of_registers (hregisters : registers context env = true) :
    ∃ brokerId tokenExpiresOn, context.user.brokerId = .ok brokerId ∧
      getTokenExpiresOnDateFromClaims context.user = .ok tokenExpiresOn := by
  cases hbroker : context.user.brokerId with
  | error e => simp [registers, hbroker, Except.isOk, Except.toBool] at hregisters
  | ok brokerId =>
      cases hexpires : getTokenExpiresOnDateFromClaims context.user with
      | error e => simp [registers, hexpires, Except.isOk, Except.toBool] at hregisters
      | ok tokenExpiresOn => exact ⟨brokerId, tokenExpiresOn, rfl, rfl⟩

/-- `OnConnected` returns exactly if it gets as far as `AddConnection` and its
replay is calm. -/
theorem onConnected_returns :
    Returns (onConnected json context env) s ↔ registers context env = true ∧
      ∀ brokerId, context.user.brokerId = .ok brokerId →
        ReplayCalm json env s.messageLog brokerId := by
  rw [onConnected_eq, returns_bind]
  constructor
  · intro ⟨_, t, hregister, hreplay⟩
    have hregisters := (register_registration context env "Connected" s).2 (by rw [hregister])
    refine ⟨hregisters, fun brokerId hbroker => ?_⟩
    obtain ⟨b, tokenExpiresOn, hb, hexpires⟩ := exists_of_registers hregisters
    rw [register_exec hregisters hb hexpires "Connected", Prod.mk.injEq] at hregister
    obtain ⟨-, rfl⟩ := hregister
    have hcalm := (replay_returns hbroker).mp hreplay
    exact hcalm
  · intro ⟨hregisters, hcalm⟩
    obtain ⟨brokerId, tokenExpiresOn, hbroker, hexpires⟩ := exists_of_registers hregisters
    exact ⟨(), _, register_exec hregisters hbroker hexpires "Connected",
      (replay_returns hbroker).mpr (hcalm brokerId hbroker)⟩

/-- `OnReconnected` ends with `AddConnection`, so nothing can throw after it. -/
theorem failed_reconnect_keeps_registry {e : Exception} {t : HubState Json}
    (h : exec (onReconnected context env) s = (.error e, t)) :
    t.brokerConnections = s.brokerConnections := by
  have hregistration := onReconnected_registration context env s
  rw [h] at hregistration
  cases hregistration with
  | unreached _ hregistry _ => exact hregistry
  | reached hregisters _ _ _ _ =>
      obtain ⟨brokerId, tokenExpiresOn, hbroker, hexpires⟩ := exists_of_registers hregisters
      have hreturns := register_exec (s := s) hregisters hbroker hexpires "Reconnected"
      have hthrows : exec (register context env "Reconnected") s = (.error e, t) := h
      rw [hreturns] at hthrows
      cases congrArg Prod.fst hthrows

/-- So does `OnDisconnected` with `RemoveConnection`. -/
theorem failed_disconnect_keeps_registry {e : Exception} {t : HubState Json}
    (h : exec (onDisconnected context env) s = (.error e, t)) :
    t.brokerConnections = s.brokerConnections := by
  have hregistry := onDisconnected_registry context env s
  rw [h] at hregistry
  refine hregistry.trans (if_neg fun hok => ?_)
  simp only [onDisconnected, createConnectionEvent, getBrokerId, publish, exec_bind, exec_call,
    exec_pure, exec_modify] at h
  cases hbroker : context.user.brokerId with
  | error e => simp [hbroker, Except.isOk, Except.toBool] at hok
  | ok brokerId =>
      cases hpublish : env.publish with
      | error e => simp [hpublish, Except.isOk, Except.toBool] at hok
      | ok _ => simp [hbroker, hpublish] at h

theorem addConnection_eq_self {r : BrokerConnections} {connectionId : String} {brokerId : ℤ}
    {tokenExpiresOn : DateTime} :
    r.addConnection connectionId brokerId tokenExpiresOn = r ↔ connectionId ∈ r.connectionIds := by
  constructor
  · intro h
    rw [← h]
    exact BrokerConnections.mem_connectionIds_addConnection.mpr (Or.inr rfl)
  · exact BrokerConnections.addConnection_of_mem

end Connect

/-- If `OnConnected` throws, the registry is as it was, marks included. -/
def FailureKeepsRegistry (json : JsonSerializer Json) (context : HubCallerContext)
    (env : Environment) (s : HubState Json) : Prop :=
  ∀ e t, exec (onConnected json context env) s = (.error e, t) →
    t.brokerConnections = s.brokerConnections

/-- The condition on a connect: if it gets as far as `AddConnection` with a new
connection id, no call of the replay throws. -/
def AddsOnlyIfCalm (json : JsonSerializer Json) (context : HubCallerContext) (env : Environment)
    (s : HubState Json) : Prop :=
  registers context env = true → context.connectionId ∉ s.brokerConnections.connectionIds →
    ∀ brokerId, context.user.brokerId = .ok brokerId → ReplayCalm json env s.messageLog brokerId

/-- For every registry, log, principal and point of failure, a failed connect
leaves the registry as it was precisely if it throws before `AddConnection`, or
the connection was in the list already. -/
theorem failed_connect_exactly_when (json : JsonSerializer Json) (context : HubCallerContext)
    (env : Environment) (s : HubState Json) :
    FailureKeepsRegistry json context env s ↔ AddsOnlyIfCalm json context env s := by
  have hregistration := onConnected_registration json context env s
  constructor
  · intro h hregisters hnew
    by_contra hcalm
    have hthrows : ¬Returns (onConnected json context env) s :=
      fun hreturns => hcalm (onConnected_returns.mp hreturns).2
    obtain ⟨e, t, ht⟩ := not_returns.mp hthrows
    have hkept := h e t ht
    rw [ht] at hregistration
    cases hregistration with
    | unreached hnot _ _ =>
        rw [hregisters] at hnot
        cases hnot
    | reached _ brokerId tokenExpiresOn _ hregistry =>
        exact hnew (addConnection_eq_self.mp (hregistry.symm.trans hkept))
  · intro h e t ht
    rw [ht] at hregistration
    cases hregistration with
    | unreached _ hregistry _ => exact hregistry
    | reached hregisters brokerId tokenExpiresOn _ hregistry =>
        by_cases hin : context.connectionId ∈ s.brokerConnections.connectionIds
        · exact hregistry.trans (BrokerConnections.addConnection_of_mem hin)
        · have hthrows : ¬Returns (onConnected json context env) s := not_returns.mpr ⟨e, t, ht⟩
          exact absurd (onConnected_returns.mpr ⟨hregisters, h hregisters hin⟩) hthrows

/-- The hub with one connection of broker 123 and one command to be replayed. -/
def oneConnection : HubState StandardAuditMessage where
  brokerConnections := BrokerConnections.empty.addConnection "conn1" 123 0
  messageLog := handleStandardAuditMessage JsonSerializer.transparent Table.empty
    (.insertDocumentIntoRemoteBackOfficeCommand (insertCommand 7 123)) []
  published := []
  replayed := []

/-- The push of the replay fails: the connect throws, its connection stays in the
list, and the live connection of the broker is left expired. -/
theorem failed_push_expires_live_connection :
    ∃ t, exec (onConnected JsonSerializer.transparent ⟨"conn2", principal "123" "0"⟩
        { Environment.calm 0 with push := fun _ => .error .external }) oneConnection =
          (.error .external, t) ∧
      oneConnection.brokerConnections.entries = [⟨"conn1", 123, 0, false⟩] ∧
      t.brokerConnections.entries = [⟨"conn1", 123, 0, true⟩, ⟨"conn2", 123, 0, false⟩] ∧
      ¬FailureKeepsRegistry JsonSerializer.transparent ⟨"conn2", principal "123" "0"⟩
        { Environment.calm 0 with push := fun _ => .error .external } oneConnection := by
  refine ⟨_, by rfl, by rfl, by rfl, fun h => ?_⟩
  have hkept := congrArg BrokerConnections.entries (h .external _ rfl)
  exact absurd hkept (by decide)

end ReliableSignalR.FailedConnects
