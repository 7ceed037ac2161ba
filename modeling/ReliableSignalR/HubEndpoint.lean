import ReliableSignalR.ReplayCounts

/-!
# The queue of the Hub endpoint

The endpoint handles one command at a time. Its handler asks the registry twice,
before and after the push, and callbacks of the hub, the clock and the audit
endpoint run between any two of its statements. An attempt that throws is
repeated until the configured retries are used up; then the command goes to the
error queue, of which nobody keeps an audit copy. A handler that returns has its
command forwarded to the audit queue.

A finished command that is neither acknowledged nor in flight to the audit
endpoint is selected by the replay query as long as no last attempt fails and no
connect brings a first row's counter to its limit before the row's tenth replay.
-/
namespace ReliableSignalR.HubEndpoint
open DotNet Messages KeyedTable RetainedEffects EventRuns IdentityInfrastructure
open BrokerConnectionManager AuditEndpoint BackOfficeHub HubRuns ReplayCounts

variable {Json : Type}

def maxRetries : ℕ := 5
def numberOfRetries : ℕ := 2

/-- Each second-level retry repeats the immediate attempts. -/
def attempts : ℕ := maxRetries * (1 + numberOfRetries)

/-- A command in the queue and the number of its failed attempts. -/
structure Delivery where
  command : InsertDocumentIntoRemoteBackOfficeCommand
  failures : ℕ
deriving DecidableEq, Repr

/-- The statement of `Handle` that has been passed. -/
inductive Passed
  | isBrokerConnected
  | insertDocument
  | activeBrokerTokenIsDueToExpire
deriving DecidableEq, Repr

/-- `acknowledged` holds the correlations of the posted acknowledgements that say
`Success`, `completeAgreementSagaCommands` those of the commands that `Post` has
sent to the saga. -/
structure Endpoint (Json : Type) where
  hub : HubState Json
  now : DateTime
  queue : List Delivery
  handling : Option (Delivery × Passed)
  returned : List InsertDocumentIntoRemoteBackOfficeCommand
  errorQueue : List InsertDocumentIntoRemoteBackOfficeCommand
  auditQueue : List StandardAuditMessage
  acknowledged : List Guid
  completeAgreementSagaCommands : List Guid

/-- The first statement of `Handle`. -/
def requireConnected (entries : List BrokerConnection)
    (command : InsertDocumentIntoRemoteBackOfficeCommand) : Except Exception Unit :=
  if !isBrokerConnected entries command.brokerId then
    .error (.applicationException ("Broker: " ++ toString command.brokerId ++
      " is not connected to Hub. Try again later"))
  else .ok ()

namespace Endpoint

def initial : Endpoint Json := ⟨HubState.initial, 0, [], none, [], [], [], [], []⟩

/-- The attempt throws: back to the queue, or to `hub.error`. -/
def fail (s : Endpoint Json) (d : Delivery) : Endpoint Json :=
  if d.failures + 1 < attempts then
    { s with handling := none, queue := s.queue ++ [{ d with failures := d.failures + 1 }] }
  else { s with handling := none, errorQueue := s.errorQueue ++ [d.command] }

/-- The handler returns: the command is forwarded to the audit queue. -/
def finish (s : Endpoint Json) (d : Delivery) : Endpoint Json :=
  { s with
    handling := none
    returned := s.returned ++ [d.command]
    auditQueue := s.auditQueue ++ [.insertDocumentIntoRemoteBackOfficeCommand d.command] }

/-- A statement of the handler has been executed with the given outcome. -/
def proceed {α : Type} (s : Endpoint Json) (d : Delivery) (passed : Passed) :
    Except Exception α → Endpoint Json
  | .error _ => s.fail d
  | .ok _ => { s with handling := some (d, passed) }

def withLog (s : Endpoint Json) (messageLog : AuditTable Json) : Endpoint Json :=
  { s with hub := { s.hub with messageLog } }

section
variable {α : Type} (s : Endpoint Json) (d : Delivery) (passed : Passed)
  (outcome : Except Exception α)

@[simp] theorem fail_hub : (s.fail d).hub = s.hub := by
  unfold fail
  split <;> rfl

@[simp] theorem fail_now : (s.fail d).now = s.now := by
  unfold fail
  split <;> rfl

@[simp] theorem fail_acknowledged : (s.fail d).acknowledged = s.acknowledged := by
  unfold fail
  split <;> rfl

@[simp] theorem fail_completeAgreementSagaCommands :
    (s.fail d).completeAgreementSagaCommands = s.completeAgreementSagaCommands := by
  unfold fail
  split <;> rfl

@[simp] theorem proceed_hub : (s.proceed d passed outcome).hub = s.hub := by
  cases outcome with
  | ok a => rfl
  | error e => exact fail_hub s d

@[simp] theorem proceed_now : (s.proceed d passed outcome).now = s.now := by
  cases outcome with
  | ok a => rfl
  | error e => exact fail_now s d

@[simp] theorem proceed_acknowledged :
    (s.proceed d passed outcome).acknowledged = s.acknowledged := by
  cases outcome with
  | ok a => rfl
  | error e => exact fail_acknowledged s d

@[simp] theorem proceed_completeAgreementSagaCommands :
    (s.proceed d passed outcome).completeAgreementSagaCommands =
      s.completeAgreementSagaCommands := by
  cases outcome with
  | ok a => rfl
  | error e => exact fail_completeAgreementSagaCommands s d

end

end Endpoint

/-- Sending a command, the steps of the handler, the callbacks of the hub and
the work of the audit endpoint; the clock moves between them. -/
inductive EndpointEvent
  | sent (command : InsertDocumentIntoRemoteBackOfficeCommand)
  | clock (now : DateTime)
  | taken (position : ℕ)
  | pushed (outcome : Except Exception Unit)
  | throttled
  | returned
  | onConnected (context : HubCallerContext) (env : Environment)
  | onReconnected (context : HubCallerContext) (env : Environment)
  | onDisconnected (context : HubCallerContext) (env : Environment)
  | auditHandled (position : ℕ) (headers : Headers)
  | auditedElsewhere (message : StandardAuditMessage) (headers : Headers)
  | posted (ack : SendAcknowledgementCommand)
  | completed (correlationId : Guid)

def createdByToday (now : DateTime) (message : Message) : Bool :=
  decide (DateTime.today message.createDate ≤ DateTime.today now)

/-- A completion message is the audit copy of a command that `Post` has sent, or
it belongs to an online agreement, which has no remote command. -/
def mayComplete (s : Endpoint Json) (correlationId : Guid) : Bool :=
  s.completeAgreementSagaCommands.contains correlationId ||
    s.hub.messageLog.rows.all fun m =>
      m.messageType != remoteCommandType || m.correlationId != correlationId

def step (json : JsonSerializer Json) (s : Endpoint Json) :
    EndpointEvent → Option (Endpoint Json)
  | .sent command =>
      if createdByToday s.now command.toMessage then
        some { s with queue := s.queue ++ [⟨command, 0⟩] }
      else none
  | .clock now =>
      if DateTime.today s.now ≤ DateTime.today now then some { s with now } else none
  | .taken position =>
      match s.handling, s.queue[position]? with
      | none, some d =>
          some ({ s with queue := s.queue.eraseIdx position }.proceed d .isBrokerConnected
            (requireConnected s.hub.brokerConnections.entries d.command))
      | _, _ => none
  | .pushed outcome =>
      match s.handling with
      | some (d, .isBrokerConnected) => some (s.proceed d .insertDocument outcome)
      | _ => none
  | .throttled =>
      match s.handling with
      | some (d, .insertDocument) =>
          some (s.proceed d .activeBrokerTokenIsDueToExpire
            (activeBrokerTokenIsDueToExpire s.hub.brokerConnections.entries d.command.brokerId
              s.now))
      | _ => none
  | .returned =>
      match s.handling with
      | some (d, .activeBrokerTokenIsDueToExpire) => some (s.finish d)
      | _ => none
  | .onConnected context env =>
      some { s with hub := (exec (onConnected json context { env with now := s.now }) s.hub).2 }
  | .onReconnected context env =>
      some { s with hub := (exec (onReconnected context { env with now := s.now }) s.hub).2 }
  | .onDisconnected context env =>
      some { s with hub := (exec (onDisconnected context { env with now := s.now }) s.hub).2 }
  | .auditHandled position headers =>
      s.auditQueue[position]?.map fun message =>
        { s.withLog (handleStandardAuditMessage json s.hub.messageLog message headers) with
          auditQueue := s.auditQueue.eraseIdx position }
  | .auditedElsewhere message headers =>
      if createdByToday s.now message.message then
        some (s.withLog (handleStandardAuditMessage json s.hub.messageLog message headers))
      else none
  | .posted ack =>
      some { s.withLog (post s.hub.messageLog ack s.now).1 with
        acknowledged := acknowledge s.acknowledged ack
        completeAgreementSagaCommands :=
          s.completeAgreementSagaCommands ++ (post s.hub.messageLog ack s.now).2 }
  | .completed correlationId =>
      if mayComplete s correlationId then
        some (s.withLog (handleCompletionAuditMessage s.hub.messageLog correlationId s.now))
      else none

def endpoint (json : JsonSerializer Json) : Machine (Endpoint Json) EndpointEvent where
  init := Endpoint.initial
  step := step json

section Handler
variable {json : JsonSerializer Json} {s t : Endpoint Json}

theorem step_taken {position : ℕ} (h : step json s (.taken position) = some t) :
    ∃ d, s.handling = none ∧ s.queue[position]? = some d ∧
      t = { s with queue := s.queue.eraseIdx position }.proceed d .isBrokerConnected
        (requireConnected s.hub.brokerConnections.entries d.command) := by
  simp only [step] at h
  split at h
  · next d hnone hd => exact ⟨d, hnone, hd, (Option.some.inj h).symm⟩
  · cases h

theorem step_pushed {outcome : Except Exception Unit}
    (h : step json s (.pushed outcome) = some t) :
    ∃ d, s.handling = some (d, .isBrokerConnected) ∧ t = s.proceed d .insertDocument outcome := by
  simp only [step] at h
  split at h
  · next d hd => exact ⟨d, hd, (Option.some.inj h).symm⟩
  · cases h

theorem step_throttled (h : step json s .throttled = some t) :
    ∃ d, s.handling = some (d, .insertDocument) ∧
      t = s.proceed d .activeBrokerTokenIsDueToExpire (activeBrokerTokenIsDueToExpire
        s.hub.brokerConnections.entries d.command.brokerId s.now) := by
  simp only [step] at h
  split at h
  · next d hd => exact ⟨d, hd, (Option.some.inj h).symm⟩
  · cases h

theorem step_returned (h : step json s .returned = some t) :
    ∃ d, s.handling = some (d, .activeBrokerTokenIsDueToExpire) ∧ t = s.finish d := by
  simp only [step] at h
  split at h
  · next d hd => exact ⟨d, hd, (Option.some.inj h).symm⟩
  · cases h

end Handler

def commandReplays (replayed : List Replay)
    (command : InsertDocumentIntoRemoteBackOfficeCommand) : ℕ :=
  replayed.countP fun p => p.command == command

/-- A finished command that is not acknowledged, has been replayed fewer than
ten times and has no audit copy in flight is returned by the replay query. -/
def NoLostCommand (json : JsonSerializer Json) (s : Endpoint Json) : Prop :=
  ∀ command ∈ s.returned ++ s.errorQueue,
    command.correlationId ∉ s.acknowledged → commandReplays s.hub.replayed command < 10 →
    .insertDocumentIntoRemoteBackOfficeCommand command ∉ s.auditQueue →
    ∃ read, deserializeAll json
        (unacknowledged s.hub.messageLog command.brokerId s.now) = .ok read ∧
      command ∈ read.map Prod.snd

/-- A failure of this attempt would be the last one of a command that has not
been acknowledged meanwhile. -/
def LastChance (s : Endpoint Json) (d : Delivery) : Prop :=
  attempts ≤ d.failures + 1 ∧ d.command.correlationId ∉ s.acknowledged

/-- The condition on a step. The first three parts say that a last attempt finds
its broker in the list, pushes, and finds an active connection; the fourth one
says that a connect which reaches its replay loop, with the broker's first row
among the selected ones, leaves that row's counter below its limit or is at least
its tenth replay. -/
def KeepsCommands (s : Endpoint Json) : EndpointEvent → Prop
  | .taken position => ∀ d ∈ s.queue[position]?, LastChance s d →
      isBrokerConnected s.hub.brokerConnections.entries d.command.brokerId = true
  | .pushed outcome => ∀ h ∈ s.handling, LastChance s h.1 → outcome.isOk = true
  | .throttled => ∀ h ∈ s.handling, LastChance s h.1 →
      ∃ c ∈ s.hub.brokerConnections.entries,
        c.brokerId = h.1.command.brokerId ∧ c.expired = false
  | .onConnected context env => ReachesReplay context env →
      ∀ brokerId ∈ context.user.brokerId.toOption,
        ∀ f ∈ unacknowledged s.hub.messageLog brokerId s.now,
          s.hub.messageLog.first? (fun a => a.brokerId == brokerId) = some f →
          f.correlationId ∉ s.acknowledged →
          f.retries + (unacknowledged s.hub.messageLog brokerId s.now).length < 10 ∨
            9 ≤ timesReplayed s.hub.replayed f.id
  | _ => True

instance (s : Endpoint Json) (d : Delivery) : Decidable (LastChance s d) :=
  inferInstanceAs (Decidable (_ ∧ _))

instance [DecidableEq Json] (s : Endpoint Json) : ∀ e, Decidable (KeepsCommands s e)
  | .taken _ => inferInstanceAs (Decidable (∀ d ∈ _, LastChance s d → _))
  | .pushed _ => inferInstanceAs (Decidable (∀ h ∈ s.handling, LastChance s h.1 → _))
  | .throttled => inferInstanceAs (Decidable (∀ h ∈ s.handling, LastChance s h.1 → _))
  | .onConnected _ _ =>
      inferInstanceAs (Decidable (_ → ∀ brokerId ∈ _, ∀ f ∈ _, _ → _ → _ ∨ _))
  | .sent _ | .clock _ | .returned | .onReconnected _ _ | .onDisconnected _ _
  | .auditHandled _ _ | .auditedElsewhere _ _ | .posted _ | .completed _ => isTrue trivial

/-- The log, the replays made from it, the clock and the acknowledgements. A row
is uncompleted until it is acknowledged, and its counter does not reach the limit
before its tenth replay. -/
structure LogTracked (json : JsonSerializer Json) (log : AuditTable Json)
    (replayed : List Replay) (now : DateTime) (acknowledged : List Guid) : Prop where
  stored : AllStored json log
  rowReplays : ∀ p ∈ replayed, ∃ m ∈ log.rows,
    m.id = p.row ∧ json.deserialize m.body = .ok p.command
  created : ∀ m ∈ log.rows, DateTime.today m.createDate ≤ DateTime.today now
  completed : ∀ m ∈ log.rows, m.messageType = remoteCommandType → m.completionDate ≠ none →
    m.correlationId ∈ acknowledged
  counted : ∀ m ∈ log.rows, m.messageType = remoteCommandType →
    m.correlationId ∉ acknowledged → m.retries < 10 ∨ 10 ≤ timesReplayed replayed m.id

section LogTracked
variable {json : JsonSerializer Json} {log : AuditTable Json} {replayed : List Replay}
  {now : DateTime} {acknowledged : List Guid}

theorem created_in_time {createDate now : DateTime}
    (h : DateTime.today createDate ≤ DateTime.today now) :
    createDate ≤ DateTime.addDays (DateTime.today now) 1 := by
  have hlt := DateTime.lt_tomorrow createDate
  have hle : DateTime.addDays (DateTime.today createDate) 1 ≤
      DateTime.addDays (DateTime.today now) 1 := Nat.add_le_add_right h _
  exact Nat.le_of_lt (Nat.lt_of_lt_of_le hlt hle)

/-- An unacknowledged row below the limit is selected. -/
theorem LogTracked.selected (h : LogTracked json log replayed now acknowledged)
    {m : MessageLog Json} (hm : m ∈ log.rows) (htype : m.messageType = remoteCommandType)
    (hack : m.correlationId ∉ acknowledged) (hretries : m.retries < 10) :
    m ∈ unacknowledged log m.brokerId now := by
  have hopen : m.completionDate = none := by
    by_contra hdate
    exact hack (h.completed m hm htype hdate)
  exact mem_unacknowledged.mpr
    ⟨hm, rfl, hopen, hretries, htype, created_in_time (h.created m hm)⟩

theorem LogTracked.clock (h : LogTracked json log replayed now acknowledged) {later : DateTime}
    (hle : DateTime.today now ≤ DateTime.today later) :
    LogTracked json log replayed later acknowledged :=
  { h with created := fun m hm => Nat.le_trans (h.created m hm) hle }

theorem LogTracked.insert (h : LogTracked json log replayed now acknowledged)
    {message : StandardAuditMessage} (headers : Headers)
    (hcreated : DateTime.today message.message.createDate ≤ DateTime.today now) :
    LogTracked json (handleStandardAuditMessage json log message headers) replayed now
      acknowledged := by
  constructor
  · exact h.stored.insert message headers
  · intro p hp
    obtain ⟨m, hm, hrow⟩ := h.rowReplays p hp
    exact ⟨m, List.mem_append_left _ hm, hrow⟩
  · intro m hm
    rcases List.mem_append.mp hm with hold | hnew
    · exact h.created m hold
    · rw [List.mem_singleton.mp hnew]
      exact hcreated
  · intro m hm htype hdate
    rcases List.mem_append.mp hm with hold | hnew
    · exact h.completed m hold htype hdate
    · rw [List.mem_singleton.mp hnew] at hdate
      exact absurd rfl hdate
  · intro m hm htype hack
    rcases List.mem_append.mp hm with hold | hnew
    · exact h.counted m hold htype hack
    · rw [List.mem_singleton.mp hnew]
      exact Or.inl (Nat.zero_lt_succ 9)

/-- Rows are completed by an acknowledgement, or they hold no remote command. -/
theorem LogTracked.complete (h : LogTracked json log replayed now acknowledged)
    (correlationId : Guid) (date : DateTime) {later : List Guid}
    (hlater : ∀ c ∈ acknowledged, c ∈ later)
    (hcompleted : correlationId ∈ later ∨ ∀ m ∈ log.rows,
      m.messageType = remoteCommandType → m.correlationId ≠ correlationId) :
    LogTracked json (completeCorrelatedMessages log correlationId date) replayed now later := by
  constructor
  · exact h.stored.complete correlationId date
  · intro p hp
    obtain ⟨m, hm, hid, hbody⟩ := h.rowReplays p hp
    have hsame := complete_sameRecord correlationId date m
    exact ⟨_, List.mem_map_of_mem hm, hsame.id.trans hid, by rw [hsame.body]; exact hbody⟩
  · intro n hn
    obtain ⟨m, hm, rfl⟩ := List.mem_map.mp hn
    rw [(complete_sameRecord correlationId date m).createDate]
    exact h.created m hm
  · intro n hn htype hdate
    obtain ⟨m, hm, rfl⟩ := List.mem_map.mp hn
    have hsame := complete_sameRecord correlationId date m
    rw [hsame.messageType] at htype
    rw [hsame.correlationId]
    rcases (complete_completionDate correlationId date m).mp hdate with hold | heq
    · exact hlater _ (h.completed m hm htype hold)
    · rcases hcompleted with hin | hother
      · exact heq ▸ hin
      · exact absurd heq (hother m hm htype)
  · intro n hn htype hack
    obtain ⟨m, hm, rfl⟩ := List.mem_map.mp hn
    have hsame := complete_sameRecord correlationId date m
    rw [hsame.messageType] at htype
    rw [hsame.correlationId] at hack
    rw [complete_retries, complete_id]
    exact h.counted m hm htype fun hin => hack (hlater _ hin)

/-- The selected rows come in the order of the log, the broker's first row first. -/
theorem unacknowledged_head {brokerId : ℤ} {f : MessageLog Json}
    (hfirst : log.first? (fun a => a.brokerId == brokerId) = some f)
    (hf : f ∈ unacknowledged log brokerId now) :
    ∃ rest, unacknowledged log brokerId now = f :: rest := by
  obtain ⟨-, before, after, hrows, hbefore⟩ := List.find?_eq_some_iff_append.mp hfirst
  have hselected := List.mem_filter.mp hf
  have hnone : before.filter
      (isUnacknowledged brokerId (DateTime.addDays (DateTime.today now) 1)) = [] := by
    apply List.filter_eq_nil_iff.mpr
    intro m hm hsel
    have hother := hbefore m hm
    have hbroker := (isUnacknowledged_iff.mp hsel).brokerId
    simp [hbroker] at hother
  refine ⟨after.filter
    (isUnacknowledged brokerId (DateTime.addDays (DateTime.today now) 1)), ?_⟩
  rw [unacknowledged, hrows, List.filter_append, hnone, List.nil_append,
    List.filter_cons_of_pos hselected.2]

theorem countFirst_onlyRetries (brokerId : ℤ) (k : ℕ) :
    OnlyRetries log (countFirst log brokerId k) := by
  unfold countFirst
  split
  · exact OnlyRetries.refl log
  · exact addRetries_onlyRetries log _ k

/-- The counter of a row after a replay loop that pushed `j` and counted `k` rows. -/
theorem LogTracked.counter (h : LogTracked json log replayed now acknowledged)
    {brokerId : ℤ} {read : List (MessageLog Json × InsertDocumentIntoRemoteBackOfficeCommand)}
    {j k : ℕ} (hread : deserializeAll json (unacknowledged log brokerId now) = .ok read)
    (hkj : k ≤ j) (hj : j ≤ read.length) (user : String)
    (hkeeps : ∀ f ∈ unacknowledged log brokerId now,
      log.first? (fun a => a.brokerId == brokerId) = some f → f.correlationId ∉ acknowledged →
      f.retries + (unacknowledged log brokerId now).length < 10 ∨
        9 ≤ timesReplayed replayed f.id)
    {f : MessageLog Json} (hfirst : log.first? (fun a => a.brokerId == brokerId) = some f)
    (htype : f.messageType = remoteCommandType) (hack : f.correlationId ∉ acknowledged) :
    f.retries + k < 10 ∨
      10 ≤ timesReplayed (replayed ++ (read.take j).map fun r => ⟨user, r.1.id, r.2⟩) f.id := by
  obtain ⟨hf, hbroker⟩ := Table.mem_of_first? hfirst
  rw [timesReplayed_append]
  rcases h.counted f hf htype hack with hretries | hten
  · have hselected : f ∈ unacknowledged log brokerId now := by
      have hsel := h.selected hf htype hack hretries
      rwa [beq_iff_eq.mp hbroker] at hsel
    cases k with
    | zero => exact Or.inl hretries
    | succ k =>
        obtain ⟨rest, hrest⟩ := unacknowledged_head hfirst hselected
        have hlength : read.length = (unacknowledged log brokerId now).length := by
          rw [← (deserializeAll_ok hread).1, List.length_map]
        rcases hkeeps f hselected hfirst hack with hbelow | hnine
        · left
          omega
        · right
          have hfst := (deserializeAll_ok hread).1
          rw [hrest] at hfst
          cases read with
          | nil => cases hfst
          | cons r read =>
              obtain ⟨hr, -⟩ := List.cons.inj hfst
              obtain ⟨j, rfl⟩ : ∃ i, j = i + 1 := ⟨j - 1, by omega⟩
              have hpush : 1 ≤ timesReplayed
                  (((r :: read).take (j + 1)).map fun r => ⟨user, r.1.id, r.2⟩) f.id := by
                apply List.countP_pos_iff.mpr
                refine ⟨⟨user, r.1.id, r.2⟩, List.mem_cons_self, ?_⟩
                simp only [hr, beq_self_eq_true]
              omega
  · right
    omega

/-- The commands of a replay loop are read from rows of the log. -/
theorem LogTracked.rowReplays_append (h : LogTracked json log replayed now acknowledged)
    {brokerId : ℤ} {read : List (MessageLog Json × InsertDocumentIntoRemoteBackOfficeCommand)}
    (hread : deserializeAll json (unacknowledged log brokerId now) = .ok read) (j : ℕ)
    (user : String) :
    ∀ p ∈ replayed ++ (read.take j).map fun r => ⟨user, r.1.id, r.2⟩,
      ∃ m ∈ log.rows, m.id = p.row ∧ json.deserialize m.body = .ok p.command := by
  intro p hp
  rcases List.mem_append.mp hp with hold | hnew
  · exact h.rowReplays p hold
  · obtain ⟨hfst, hbodies⟩ := deserializeAll_ok hread
    obtain ⟨r, hr, rfl⟩ := List.mem_map.mp hnew
    have hmem := List.mem_of_mem_take hr
    have hsel : r.1 ∈ unacknowledged log brokerId now := hfst ▸ List.mem_map_of_mem hmem
    exact ⟨r.1, (mem_unacknowledged.mp hsel).1, rfl, hbodies r hmem⟩

/-- A replay loop keeps the counters of all rows within what they stand for. -/
theorem LogTracked.counted_countFirst (h : LogTracked json log replayed now acknowledged)
    {brokerId : ℤ} {read : List (MessageLog Json × InsertDocumentIntoRemoteBackOfficeCommand)}
    {j k : ℕ} (hread : deserializeAll json (unacknowledged log brokerId now) = .ok read)
    (hkj : k ≤ j) (hj : j ≤ read.length) (user : String)
    (hkeeps : ∀ f ∈ unacknowledged log brokerId now,
      log.first? (fun a => a.brokerId == brokerId) = some f → f.correlationId ∉ acknowledged →
      f.retries + (unacknowledged log brokerId now).length < 10 ∨
        9 ≤ timesReplayed replayed f.id) :
    ∀ n ∈ (countFirst log brokerId k).rows, n.messageType = remoteCommandType →
      n.correlationId ∉ acknowledged → n.retries < 10 ∨
        10 ≤ timesReplayed (replayed ++ (read.take j).map fun r => ⟨user, r.1.id, r.2⟩) n.id := by
  intro n hn htype hack
  have hold : ∀ m ∈ log.rows, m.messageType = remoteCommandType →
      m.correlationId ∉ acknowledged → m.retries < 10 ∨
        10 ≤ timesReplayed (replayed ++ (read.take j).map fun r => ⟨user, r.1.id, r.2⟩) m.id := by
    intro m hm htype hack
    rw [timesReplayed_append]
    have hcounted := h.counted m hm htype hack
    omega
  cases hfirst : log.first? fun a => a.brokerId == brokerId with
  | none =>
      simp only [countFirst, hfirst] at hn
      exact hold n hn htype hack
  | some f =>
      simp only [countFirst, hfirst] at hn
      obtain ⟨m, hm, rfl⟩ := List.mem_map.mp hn
      by_cases hid : m.id = f.id
      · obtain rfl := log.eq_of_key_eq hm (Table.mem_of_first? hfirst).1 hid
        simp only [if_true] at htype hack ⊢
        exact h.counter hread hkj hj user hkeeps hfirst htype hack
      · simp only [if_neg hid] at htype hack ⊢
        exact hold m hm htype hack

theorem LogTracked.connected {context : HubCallerContext} {s t : HubState Json}
    (h : LogTracked json s.messageLog s.replayed now acknowledged)
    (heffect : ReplayEffect json context now s t)
    (hkeeps : ∀ brokerId, context.user.brokerId = .ok brokerId →
      ∀ f ∈ unacknowledged s.messageLog brokerId now,
        s.messageLog.first? (fun a => a.brokerId == brokerId) = some f →
        f.correlationId ∉ acknowledged →
        f.retries + (unacknowledged s.messageLog brokerId now).length < 10 ∨
          9 ≤ timesReplayed s.replayed f.id) :
    LogTracked json t.messageLog t.replayed now acknowledged := by
  cases heffect with
  | unreached hlog hreplayed =>
      rw [hlog, hreplayed]
      exact h
  | replayed brokerId read j k hbroker hread hkj hj hreplayed hlog =>
      have honly : OnlyRetries s.messageLog (countFirst s.messageLog brokerId k) :=
        countFirst_onlyRetries brokerId k
      rw [hlog, hreplayed]
      constructor
      · exact honly.allStored h.stored
      · intro p hp
        obtain ⟨m, hm, hid, hbody⟩ := h.rowReplays_append hread j (toString brokerId) p hp
        obtain ⟨n, hn, heq⟩ := honly.symm.exists_row hm
        rw [heq] at hid hbody
        exact ⟨n, hn, hid, hbody⟩
      · intro n hn
        obtain ⟨m, hm, heq⟩ := honly.exists_row hn
        rw [heq]
        exact h.created m hm
      · intro n hn htype hdate
        obtain ⟨m, hm, heq⟩ := honly.exists_row hn
        rw [heq] at htype hdate ⊢
        exact h.completed m hm htype hdate
      · exact h.counted_countFirst hread hkj hj _ (hkeeps brokerId hbroker)

end LogTracked

/-- A returned command is in the audit queue or in the log, and a failed one has
been acknowledged. -/
structure QueueTracked (json : JsonSerializer Json) (s : Endpoint Json) : Prop where
  queued : ∀ d ∈ s.queue, DateTime.today d.command.createDate ≤ DateTime.today s.now
  handled : ∀ d passed, s.handling = some (d, passed) →
    DateTime.today d.command.createDate ≤ DateTime.today s.now
  audited : ∀ message ∈ s.auditQueue,
    DateTime.today message.message.createDate ≤ DateTime.today s.now
  failed : ∀ command ∈ s.errorQueue, command.correlationId ∈ s.acknowledged
  forwarded : ∀ command ∈ s.returned,
    .insertDocumentIntoRemoteBackOfficeCommand command ∈ s.auditQueue ∨
      ∃ m ∈ s.hub.messageLog.rows,
        Stores json m (.insertDocumentIntoRemoteBackOfficeCommand command)

/-- Whatever a row of the first log stores, some row of the second one stores. -/
def StillStored (json : JsonSerializer Json) (before after : AuditTable Json) : Prop :=
  ∀ message, (∃ m ∈ before.rows, Stores json m message) → ∃ m ∈ after.rows, Stores json m message

/-- What is taken out of a list is all that the rest can lack. -/
theorem mem_eraseIdx_or_eq {α : Type} {as : List α} {i : ℕ} {a b : α} (ha : as[i]? = some a)
    (hb : b ∈ as) : b ∈ as.eraseIdx i ∨ b = a := by
  obtain ⟨k, hk, rfl⟩ := List.mem_iff_getElem.mp hb
  by_cases hki : k = i
  · subst hki
    right
    rw [List.getElem?_eq_getElem hk] at ha
    exact Option.some.inj ha
  · left
    exact List.mem_eraseIdx_iff_getElem.mpr ⟨k, hk, hki, rfl⟩

section QueueTracked
variable {json : JsonSerializer Json} {s : Endpoint Json}

theorem stillStored_insert (log : AuditTable Json) (message : StandardAuditMessage)
    (headers : Headers) :
    StillStored json log (handleStandardAuditMessage json log message headers) := by
  rintro stored ⟨m, hm, hstores⟩
  exact ⟨m, List.mem_append_left _ hm, hstores⟩

theorem stillStored_complete (log : AuditTable Json) (correlationId : Guid) (now : DateTime) :
    StillStored json log (completeCorrelatedMessages log correlationId now) := by
  rintro stored ⟨m, hm, hstores⟩
  exact ⟨_, List.mem_map_of_mem hm, (complete_sameRecord correlationId now m).stores hstores⟩

theorem stillStored_onlyRetries {before after : AuditTable Json}
    (h : OnlyRetries before after) : StillStored json before after := by
  rintro stored ⟨m, hm, hstores⟩
  obtain ⟨n, hn, heq⟩ := h.symm.exists_row hm
  rw [heq] at hstores
  exact ⟨n, hn, ⟨hstores.createDate, hstores.messageId, hstores.correlationId, hstores.body,
    hstores.messageType, hstores.brokerId⟩⟩

theorem QueueTracked.withHub (h : QueueTracked json s) {hub : HubState Json}
    {acknowledged completeAgreementSagaCommands : List Guid}
    (hlog : StillStored json s.hub.messageLog hub.messageLog)
    (hack : ∀ c ∈ s.acknowledged, c ∈ acknowledged) :
    QueueTracked json { s with hub, acknowledged, completeAgreementSagaCommands } :=
  ⟨h.queued, h.handled, h.audited, fun command hc => hack _ (h.failed command hc),
    fun command hc => (h.forwarded command hc).imp_right fun hrow => hlog _ hrow⟩

theorem QueueTracked.fail (h : QueueTracked json s) {d : Delivery}
    (hcreated : DateTime.today d.command.createDate ≤ DateTime.today s.now)
    (hlast : ¬LastChance s d) : QueueTracked json (s.fail d) := by
  unfold Endpoint.fail
  split
  · refine ⟨fun d' hd => ?_, (fun _ _ hnone => by cases hnone), h.audited, h.failed, h.forwarded⟩
    rcases List.mem_append.mp hd with hold | hnew
    · exact h.queued d' hold
    · rw [List.mem_singleton.mp hnew]
      exact hcreated
  · next hattempts =>
    refine ⟨h.queued, (fun _ _ hnone => by cases hnone), h.audited, fun command hc => ?_,
      h.forwarded⟩
    rcases List.mem_append.mp hc with hold | hnew
    · exact h.failed command hold
    · rw [List.mem_singleton.mp hnew]
      by_contra hack
      exact hlast ⟨Nat.le_of_not_lt hattempts, hack⟩

theorem QueueTracked.proceed (h : QueueTracked json s) {d : Delivery} {α : Type}
    (hcreated : DateTime.today d.command.createDate ≤ DateTime.today s.now) (passed : Passed)
    {outcome : Except Exception α} (hok : LastChance s d → ∃ a, outcome = .ok a) :
    QueueTracked json (s.proceed d passed outcome) := by
  cases outcome with
  | error e =>
      apply h.fail hcreated
      intro hlast
      obtain ⟨a, ha⟩ := hok hlast
      cases ha
  | ok a =>
      refine ⟨h.queued, fun d' passed' hd => ?_, h.audited, h.failed, h.forwarded⟩
      obtain ⟨rfl, -⟩ := Prod.mk.inj (Option.some.inj hd)
      exact hcreated

theorem QueueTracked.finish (h : QueueTracked json s) {d : Delivery}
    (hcreated : DateTime.today d.command.createDate ≤ DateTime.today s.now) :
    QueueTracked json (s.finish d) := by
  refine ⟨h.queued, (fun _ _ hnone => by cases hnone), fun message hm => ?_, h.failed,
    fun command hc => ?_⟩
  · rcases List.mem_append.mp hm with hold | hnew
    · exact h.audited message hold
    · rw [List.mem_singleton.mp hnew]
      exact hcreated
  · rcases List.mem_append.mp hc with hold | hnew
    · exact (h.forwarded command hold).imp_left fun hin => List.mem_append_left _ hin
    · rw [List.mem_singleton.mp hnew]
      exact Or.inl (List.mem_append_right _ (List.mem_singleton.mpr rfl))

/-- The audit copy leaves the queue when its row is in the log. -/
theorem QueueTracked.auditHandled (h : QueueTracked json s) {position : ℕ}
    {message : StandardAuditMessage} (hmessage : s.auditQueue[position]? = some message)
    (headers : Headers) :
    QueueTracked json
      { s.withLog (handleStandardAuditMessage json s.hub.messageLog message headers) with
        auditQueue := s.auditQueue.eraseIdx position } := by
  refine ⟨h.queued, h.handled, fun m hm => h.audited m (List.mem_of_mem_eraseIdx hm), h.failed,
    fun command hc => ?_⟩
  rcases h.forwarded command hc with hin | hrow
  · rcases mem_eraseIdx_or_eq hmessage hin with hleft | heq
    · exact Or.inl hleft
    · refine Or.inr ⟨_, List.mem_append_right _ (List.mem_singleton.mpr rfl), ?_⟩
      rw [heq]
      exact create_stores json message headers _
  · exact Or.inr (stillStored_insert _ message headers _ hrow)

end QueueTracked

structure Tracked (json : JsonSerializer Json) (s : Endpoint Json) : Prop where
  log : LogTracked json s.hub.messageLog s.hub.replayed s.now s.acknowledged
  queue : QueueTracked json s
  commands : ∀ c ∈ s.completeAgreementSagaCommands, c ∈ s.acknowledged

section Tracked
variable {json : JsonSerializer Json} {s t : Endpoint Json}

theorem Tracked.initial : Tracked json Endpoint.initial := by
  constructor
  · refine ⟨AllStored.empty json, ?_, ?_, ?_, ?_⟩
    all_goals
      intro x hx
      cases hx
  · refine ⟨?_, ?_, ?_, ?_, ?_⟩
    · intro d hd
      cases hd
    · intro d passed hd
      cases hd
    all_goals
      intro x hx
      cases hx
  · intro c hc
    cases hc

theorem Tracked.taken (h : Tracked json s) {position : ℕ}
    (hkeeps : KeepsCommands s (.taken position))
    (hstep : step json s (.taken position) = some t) : Tracked json t := by
  obtain ⟨d, -, hd, rfl⟩ := step_taken hstep
  have hmem := List.mem_of_getElem? hd
  have hrest : QueueTracked json { s with queue := s.queue.eraseIdx position } :=
    ⟨fun d' hd' => h.queue.queued d' (List.mem_of_mem_eraseIdx hd'), h.queue.handled,
      h.queue.audited, h.queue.failed, h.queue.forwarded⟩
  refine ⟨by simpa using h.log, hrest.proceed (h.queue.queued d hmem) _ fun hlast => ?_,
    by simpa using h.commands⟩
  have hconnected := hkeeps d hd hlast
  exact ⟨(), by simp only [requireConnected, hconnected, Bool.not_true, Bool.false_eq_true,
    if_false]⟩

theorem Tracked.pushed (h : Tracked json s) {outcome : Except Exception Unit}
    (hkeeps : KeepsCommands s (.pushed outcome))
    (hstep : step json s (.pushed outcome) = some t) : Tracked json t := by
  obtain ⟨d, hd, rfl⟩ := step_pushed hstep
  refine ⟨by simpa using h.log, h.queue.proceed (h.queue.handled d _ hd) _ fun hlast => ?_,
    by simpa using h.commands⟩
  have hok := hkeeps _ hd hlast
  cases outcome with
  | ok a => exact ⟨a, rfl⟩
  | error e => cases hok

theorem Tracked.throttled (h : Tracked json s) (hkeeps : KeepsCommands s .throttled)
    (hstep : step json s .throttled = some t) : Tracked json t := by
  obtain ⟨d, hd, rfl⟩ := step_throttled hstep
  refine ⟨by simpa using h.log, h.queue.proceed (h.queue.handled d _ hd) _ fun hlast => ?_,
    by simpa using h.commands⟩
  exact activeBrokerTokenIsDueToExpire_ok (hkeeps _ hd hlast) s.now

/-- `OnReconnected` and `OnDisconnected` leave the log and the replays alone. -/
theorem Tracked.sameLog (h : Tracked json s) {hub : HubState Json}
    (hlog : hub.messageLog = s.hub.messageLog ∧ hub.replayed = s.hub.replayed) :
    Tracked json { s with hub } := by
  have hstill : StillStored json s.hub.messageLog hub.messageLog := by
    rw [hlog.1]
    exact fun message hrow => hrow
  refine ⟨?_, h.queue.withHub hstill fun c hc => hc, h.commands⟩
  rw [hlog.1, hlog.2]
  exact h.log

theorem Tracked.connected (h : Tracked json s) {context : HubCallerContext} {env : Environment}
    (hkeeps : KeepsCommands s (.onConnected context env)) :
    Tracked json
      { s with hub := (exec (onConnected json context { env with now := s.now }) s.hub).2 } := by
  by_cases hreached : ReachesReplay context env
  · have heffect := onConnected_effect context { env with now := s.now } h.log.stored
    have honly := (onConnected_replayed json context { env with now := s.now } s.hub).1
    have hfirst := fun brokerId (hbroker : context.user.brokerId = .ok brokerId) =>
      hkeeps hreached brokerId (by rw [hbroker]; rfl)
    exact ⟨h.log.connected heffect hfirst,
      h.queue.withHub (stillStored_onlyRetries honly) fun c hc => hc, h.commands⟩
  · have hunreached : ¬ReachesReplay context { env with now := s.now } := hreached
    exact h.sameLog (onConnected_unreached json hunreached s.hub)

theorem Tracked.posted (h : Tracked json s) (ack : SendAcknowledgementCommand)
    (hstep : step json s (.posted ack) = some t) : Tracked json t := by
  obtain rfl := Option.some.inj hstep
  cases hsuccess : ack.success with
  | false =>
      have hpost : post s.hub.messageLog ack s.now = (s.hub.messageLog, []) := by
        simp [post, hsuccess]
      have hack : acknowledge s.acknowledged ack = s.acknowledged := by
        simp [acknowledge, hsuccess]
      rw [hpost, hack, List.append_nil]
      exact h.sameLog ⟨rfl, rfl⟩
  | true =>
      simp only [post, acknowledge, hsuccess]
      refine ⟨h.log.complete ack.correlationId s.now (fun c hc => List.mem_cons_of_mem _ hc)
        (Or.inl List.mem_cons_self), ?_, fun c hc => ?_⟩
      · exact h.queue.withHub (stillStored_complete _ ack.correlationId s.now)
          fun c hc => List.mem_cons_of_mem _ hc
      · rcases List.mem_append.mp hc with hold | hnew
        · exact List.mem_cons_of_mem _ (h.commands c hold)
        · exact List.mem_cons.mpr (Or.inl (List.mem_singleton.mp hnew))

theorem Tracked.completed (h : Tracked json s) (correlationId : Guid)
    (hstep : step json s (.completed correlationId) = some t) : Tracked json t := by
  obtain ⟨hmay, rfl⟩ := guarded hstep
  have hcase : correlationId ∈ s.acknowledged ∨ ∀ m ∈ s.hub.messageLog.rows,
      m.messageType = remoteCommandType → m.correlationId ≠ correlationId := by
    simp only [mayComplete, Bool.or_eq_true, List.contains_iff_mem, List.all_eq_true,
      bne_iff_ne] at hmay
    exact hmay.imp (h.commands correlationId) fun hall m hm htype =>
      (hall m hm).resolve_left fun hne => hne htype
  exact ⟨h.log.complete correlationId s.now (fun c hc => hc) hcase,
    h.queue.withHub (stillStored_complete _ correlationId s.now) fun c hc => hc, h.commands⟩

theorem Tracked.step (h : Tracked json s) {e : EndpointEvent} (hkeeps : KeepsCommands s e)
    (hstep : step json s e = some t) : Tracked json t := by
  cases e with
  | sent command =>
      obtain ⟨hcreated, rfl⟩ := guarded hstep
      refine ⟨h.log, ⟨fun d hd => ?_, h.queue.handled, h.queue.audited, h.queue.failed,
        h.queue.forwarded⟩, h.commands⟩
      rcases List.mem_append.mp hd with hold | hnew
      · exact h.queue.queued d hold
      · rw [List.mem_singleton.mp hnew]
        exact of_decide_eq_true hcreated
  | clock now =>
      obtain ⟨hle, rfl⟩ := guarded hstep
      exact ⟨h.log.clock hle, ⟨fun d hd => Nat.le_trans (h.queue.queued d hd) hle,
        fun d passed hd => Nat.le_trans (h.queue.handled d passed hd) hle,
        fun m hm => Nat.le_trans (h.queue.audited m hm) hle, h.queue.failed,
        h.queue.forwarded⟩, h.commands⟩
  | taken position => exact h.taken hkeeps hstep
  | pushed outcome => exact h.pushed hkeeps hstep
  | throttled => exact h.throttled hkeeps hstep
  | returned =>
      obtain ⟨d, hd, rfl⟩ := step_returned hstep
      exact ⟨h.log, h.queue.finish (h.queue.handled d _ hd), h.commands⟩
  | onConnected context env =>
      obtain rfl := Option.some.inj hstep
      exact h.connected hkeeps
  | onReconnected context env =>
      obtain rfl := Option.some.inj hstep
      exact h.sameLog (onReconnected_log _ _ _)
  | onDisconnected context env =>
      obtain rfl := Option.some.inj hstep
      exact h.sameLog (onDisconnected_log _ _ _)
  | auditHandled position headers =>
      obtain ⟨message, hmessage, rfl⟩ := Option.map_eq_some_iff.mp hstep
      have hcreated := h.queue.audited message (List.mem_of_getElem? hmessage)
      exact ⟨h.log.insert headers hcreated, h.queue.auditHandled hmessage headers, h.commands⟩
  | auditedElsewhere message headers =>
      obtain ⟨hcreated, rfl⟩ := guarded hstep
      exact ⟨h.log.insert headers (of_decide_eq_true hcreated),
        h.queue.withHub (stillStored_insert _ message headers) (fun c hc => hc), h.commands⟩
  | posted ack => exact h.posted ack hstep
  | completed correlationId => exact h.completed correlationId hstep

/-- The replays of a row are replays of the command that it stores. -/
theorem LogTracked.timesReplayed_le {log : AuditTable Json} {replayed : List Replay}
    {now : DateTime} {acknowledged : List Guid}
    (h : LogTracked json log replayed now acknowledged) {m : MessageLog Json}
    (hm : m ∈ log.rows) {command : InsertDocumentIntoRemoteBackOfficeCommand}
    (hbody : json.deserialize m.body = .ok command) :
    timesReplayed replayed m.id ≤ commandReplays replayed command := by
  apply List.countP_mono_left
  intro p hp hrow
  obtain ⟨n, hn, hid, hread⟩ := h.rowReplays p hp
  obtain rfl := log.eq_of_key_eq hn hm (hid.trans (beq_iff_eq.mp hrow))
  rw [hbody] at hread
  rw [Except.ok.inj hread]
  exact beq_self_eq_true _

theorem Tracked.noLostCommand (h : Tracked json s) : NoLostCommand json s := by
  intro command hc hack hreplays hflight
  have hreturned : command ∈ s.returned := by
    rcases List.mem_append.mp hc with hreturned | hfailed
    · exact hreturned
    · exact absurd (h.queue.failed command hfailed) hack
  obtain ⟨m, hm, hstores⟩ := (h.queue.forwarded command hreturned).resolve_left hflight
  have hbody : json.deserialize m.body = .ok command := by
    rw [hstores.body, json.restores]
  have hack' : m.correlationId ∉ s.acknowledged := by
    rw [hstores.correlationId]
    exact hack
  have hretries : m.retries < 10 := by
    have hle := h.log.timesReplayed_le hm hbody
    rcases h.log.counted m hm hstores.messageType hack' with hbelow | hten
    · exact hbelow
    · omega
  have hselected := h.log.selected hm hstores.messageType hack' hretries
  rw [hstores.brokerId] at hselected
  obtain ⟨read, hread⟩ : ∃ read, deserializeAll json
      (unacknowledged s.hub.messageLog command.brokerId s.now) = .ok read := by
    apply deserializeAll_exists
    intro n hn
    obtain ⟨hrow, hdemanded⟩ := mem_unacknowledged.mp hn
    obtain ⟨message, hmessage⟩ := h.log.stored n hrow
    obtain ⟨c, -, hc, -⟩ := hmessage.deserialize hdemanded.messageType
    exact ⟨c, hc⟩
  obtain ⟨hfst, hbodies⟩ := deserializeAll_ok hread
  refine ⟨read, hread, ?_⟩
  change m ∈ unacknowledged s.hub.messageLog command.brokerId s.now at hselected
  rw [← hfst] at hselected
  obtain ⟨r, hr, rfl⟩ := List.mem_map.mp hselected
  have hcommand : r.2 = command := by
    have hbody' := hbodies r hr
    rw [hbody] at hbody'
    exact (Except.ok.inj hbody').symm
  exact List.mem_map.mpr ⟨r, hr, hcommand⟩

end Tracked

/-- In every run whose steps meet the condition, no command is lost. -/
theorem no_lost_command (json : JsonSerializer Json) (events : List EndpointEvent)
    (hkeeps : (endpoint json).Meets KeepsCommands (endpoint json).init events) :
    (endpoint json).Always (NoLostCommand json) (endpoint json).init events := by
  have htracked : (endpoint json).Always (Tracked json) (endpoint json).init events :=
    Machine.always_of_meets (fun s e t hs he hstep => hs.step he hstep) Tracked.initial hkeeps
  exact htracked.mono fun s hs => hs.noLostCommand

/-- A command that is handled while its broker is connected, and replayed later. -/
theorem handled_command_not_lost :
    (endpoint JsonSerializer.transparent).Always (NoLostCommand JsonSerializer.transparent)
      (endpoint JsonSerializer.transparent).init
      [.onConnected ⟨"conn1", principal "123" "0"⟩ (Environment.calm 0),
        .sent (insertCommand 7 123), .taken 0, .pushed (.ok ()), .throttled, .returned,
        .auditHandled 0 [], .onDisconnected ⟨"conn1", principal "123" "0"⟩ (Environment.calm 0),
        .onConnected ⟨"conn2", principal "123" "0"⟩ (Environment.calm 0)] :=
  no_lost_command JsonSerializer.transparent _ (by decide +kernel)

/-- A command whose attempts all come before its broker connects. -/
def attemptsBeforeConnect : List EndpointEvent :=
  .sent (insertCommand 7 123) :: List.replicate attempts (.taken 0) ++
    [.onConnected ⟨"conn1", principal "123" "0"⟩ (Environment.calm 0)]

/-- The command is in the error queue, and the connect replays nothing. -/
theorem dead_letter_lost :
    ∃ s, (endpoint JsonSerializer.transparent).run (endpoint JsonSerializer.transparent).init
        attemptsBeforeConnect = some s ∧
      s.errorQueue = [insertCommand 7 123] ∧ s.acknowledged = [] ∧ s.hub.replayed = [] ∧
      ¬NoLostCommand JsonSerializer.transparent s := by
  have hrun : ((endpoint JsonSerializer.transparent).run
      (endpoint JsonSerializer.transparent).init attemptsBeforeConnect).map
        (fun s => (s.errorQueue, s.acknowledged, s.hub.replayed, s.auditQueue,
          s.hub.messageLog.rows.length)) =
      some ([insertCommand 7 123], [], [], [], 0) := by decide +kernel
  obtain ⟨s, hs, hfinal⟩ := Option.map_eq_some_iff.mp hrun
  simp only [Prod.mk.injEq] at hfinal
  obtain ⟨herror, hack, hreplayed, haudit, hlength⟩ := hfinal
  refine ⟨s, hs, herror, hack, hreplayed, fun h => ?_⟩
  have hrows : unacknowledged s.hub.messageLog (insertCommand 7 123).brokerId s.now = [] := by
    rw [unacknowledged, List.length_eq_zero_iff.mp hlength, List.filter_nil]
  obtain ⟨read, hread, hin⟩ := h (insertCommand 7 123) (by simp [herror]) (by simp [hack])
    (by simp [hreplayed, commandReplays]) (by simp [haudit])
  rw [hrows] at hread
  obtain rfl := Except.ok.inj hread
  cases hin

end ReliableSignalR.HubEndpoint
