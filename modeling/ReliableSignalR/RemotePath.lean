import Mathlib.Logic.Function.Basic
import ReliableSignalR.HubEndpoint
import ReliableSignalR.DocumentHandler

/-!
# The remote path of a document

A command that the saga emits is pushed by the Hub endpoint, audited, replayed
from the message log, queued by the subscriber, handled there and acknowledged
through the web API, which completes its rows and sends for the completion of
its saga. Here all of these run together, in any order. The channel to the client
can lose what was pushed and can deliver it more than once.

A queue holds what has not been handled. A message leaves it when its handler
returns, when it is delivered for the last time, or for the error queue of the
endpoint, from which no code takes it back. The Hub endpoint and the audit endpoint
handle a command to its end once; acknowledgements and completions can be delivered
again after they were handled.

A copy carries the number of the emission that it descends from, and `rowOrigin`
is that number for a row of the log. No step reads either; they are what makes
it possible to speak of the copies of one command. A copy never differs from the
command that was emitted, whichever way it came.
-/
namespace ReliableSignalR.RemotePath
open DotNet Messages KeyedTable RetainedEffects EventRuns IdempotentReceiver
open BrokerConnectionManager AuditEndpoint BackOfficeHub DocumentHandler
open HubEndpoint (requireConnected)
open HubRuns (principal insertCommand)

variable {Json : Type}

/-- `pushed` holds the commands whose Hub handler stands between the push and its
end, `hubErrors` and `auditErrors` the commands in `hub.error` and their audit copies
in `audit.error`. The last three lists are the queues of the acknowledgements that
the subscriber is to post, of the `CompleteAgreementSagaCommand`s that `Post` has
sent, and of the audit copies of those that the saga endpoint has handled. -/
structure Path (Json : Type) where
  emitted : List InsertDocumentIntoRemoteBackOfficeCommand
  openSagas : List Guid
  completedSagas : List Guid
  hubQueue : List Copy
  pushed : List Copy
  hubErrors : List Copy
  auditQueue : List Copy
  auditErrors : List Copy
  channel : List Copy
  hub : HubState Json
  rowOrigin : ℕ → ℕ
  subscriber : Subscriber
  acknowledgements : List SendAcknowledgementCommand
  completions : List Guid
  completionAudits : List Guid

/-- How a request to `AcknowledgementController` ends for the subscriber: with the
answer, without it although `Post` has returned, or because the `bus.Send` of `Post`
throws after the rows have been completed. -/
inductive PostOutcome
  | answered
  | unanswered
  | sendThrew
deriving DecidableEq, Repr

inductive PathEvent
  | emitted (command : InsertDocumentIntoRemoteBackOfficeCommand)
  | pushed (position : ℕ) (outcome : Except Exception Unit)
  | throttled (position : ℕ) (now : DateTime)
  | discarded (position : ℕ)
  | onConnected (context : HubCallerContext) (env : Environment)
  | onReconnected (context : HubCallerContext) (env : Environment)
  | onDisconnected (context : HubCallerContext) (env : Environment)
  | audited (position : ℕ) (headers : Headers)
  | auditDiscarded (position : ℕ)
  | auditedElsewhere (message : StandardAuditMessage) (headers : Headers)
  | duplicated (position : ℕ)
  | lost (position : ℕ)
  | subscriber (event : SubscriberEvent)
  | posted (position : ℕ) (now : DateTime) (outcome : PostOutcome)
  | acknowledgementDiscarded (position : ℕ)
  | sagaCompleted (position : ℕ) (consumed : Bool)
  | completionDiscarded (position : ℕ)
  | completionAudited (position : ℕ) (now : DateTime) (consumed : Bool)

namespace Path

def initial : Path Json :=
  ⟨[], [], [], [], [], [], [], [], [], HubState.initial, fun _ => 0, Subscriber.initial, [], [],
    []⟩

def emit (s : Path Json) (command : InsertDocumentIntoRemoteBackOfficeCommand) : Path Json :=
  { s with
    emitted := s.emitted ++ [command]
    openSagas := command.correlationId :: s.openSagas
    hubQueue := s.hubQueue ++ [⟨s.emitted.length, command⟩] }

/-- The Hub handler up to its push. If the broker is not connected or the push
throws, the command stays in the queue. -/
def push (s : Path Json) (position : ℕ) (copy : Copy) (outcome : Except Exception Unit) :
    Path Json :=
  match requireConnected s.hub.brokerConnections.entries copy.command, outcome with
  | .ok _, .ok _ =>
      { s with
        hubQueue := s.hubQueue.eraseIdx position
        pushed := s.pushed ++ [copy]
        channel := s.channel ++ [copy] }
  | _, _ => s

/-- The Hub handler from its push to its end. -/
def throttle (s : Path Json) (position : ℕ) (copy : Copy) (now : DateTime) : Path Json :=
  match activeBrokerTokenIsDueToExpire s.hub.brokerConnections.entries copy.command.brokerId
      now with
  | .error _ =>
      { s with pushed := s.pushed.eraseIdx position, hubQueue := s.hubQueue ++ [copy] }
  | .ok _ =>
      { s with pushed := s.pushed.eraseIdx position, auditQueue := s.auditQueue ++ [copy] }

/-- The commands that a callback has replayed reach the channel. -/
def replay (s : Path Json) (hub : HubState Json) : Path Json :=
  { s with
    hub
    channel := s.channel ++ (hub.replayed.drop s.hub.replayed.length).map fun p =>
      ⟨s.rowOrigin p.row, p.command⟩ }

def withLog (s : Path Json) (messageLog : AuditTable Json) : Path Json :=
  { s with hub := { s.hub with messageLog } }

def audit (json : JsonSerializer Json) (s : Path Json) (position : ℕ) (copy : Copy)
    (headers : Headers) : Path Json :=
  { s.withLog (handleStandardAuditMessage json s.hub.messageLog
      (.insertDocumentIntoRemoteBackOfficeCommand copy.command) headers) with
    auditQueue := s.auditQueue.eraseIdx position
    rowOrigin := Function.update s.rowOrigin s.hub.messageLog.next copy.origin }

/-- `SendInsertDocumentCommand` queues what arrives on the connection. -/
def arrives (s : Path Json) : SubscriberEvent → Bool
  | .queued copy => s.channel.contains copy
  | _ => true

/-- What arrives leaves the channel, and what a commit has sent is queued. -/
def advance (s : Path Json) (event : SubscriberEvent) (subscriber : Subscriber) : Path Json :=
  { s with
    subscriber
    channel := match event with
      | .queued copy => s.channel.erase copy
      | _ => s.channel
    acknowledgements :=
      s.acknowledgements ++ subscriber.sent.drop s.subscriber.sent.length }

/-- `SendAcknowledgmentCommandHandler.Handle` with a request that reaches the web API.
It throws unless the request is answered, and the message is delivered again. -/
def acknowledge (s : Path Json) (position : ℕ) (ack : SendAcknowledgementCommand)
    (now : DateTime) : PostOutcome → Path Json
  | .answered =>
      { s.withLog (post s.hub.messageLog ack now).1 with
        acknowledgements := s.acknowledgements.eraseIdx position
        completions := s.completions ++ (post s.hub.messageLog ack now).2 }
  | .unanswered =>
      { s.withLog (post s.hub.messageLog ack now).1 with
        completions := s.completions ++ (post s.hub.messageLog ack now).2 }
  | .sendThrew => s.withLog (post s.hub.messageLog ack now).1

/-- `AgreementSaga.Handle(CompleteAgreementSagaCommand)`; a message without a saga of
its correlation is dropped. Either is audited. -/
def markAsComplete (s : Path Json) (correlationId : Guid) : Path Json :=
  { s with
    openSagas := s.openSagas.erase correlationId
    completedSagas :=
      if s.openSagas.contains correlationId then correlationId :: s.completedSagas
      else s.completedSagas
    completionAudits := s.completionAudits ++ [correlationId] }

/-- A message stays in its queue if it is delivered again. -/
def handleCompletion (s : Path Json) (position : ℕ) (consumed : Bool) (correlationId : Guid) :
    Path Json :=
  { s.markAsComplete correlationId with
    completions := if consumed then s.completions.eraseIdx position else s.completions }

def auditCompletion (s : Path Json) (position : ℕ) (now : DateTime) (consumed : Bool)
    (correlationId : Guid) : Path Json :=
  { s.withLog (handleCompletionAuditMessage s.hub.messageLog correlationId now) with
    completionAudits :=
      if consumed then s.completionAudits.eraseIdx position else s.completionAudits }

end Path

def step (json : JsonSerializer Json) (s : Path Json) : PathEvent → Option (Path Json)
  | .emitted command => some (s.emit command)
  | .pushed position outcome =>
      s.hubQueue[position]?.map fun copy => s.push position copy outcome
  | .throttled position now => s.pushed[position]?.map fun copy => s.throttle position copy now
  | .discarded position =>
      s.hubQueue[position]?.map fun copy =>
        { s with
          hubQueue := s.hubQueue.eraseIdx position
          hubErrors := s.hubErrors ++ [copy] }
  | .onConnected context env => some (s.replay (exec (onConnected json context env) s.hub).2)
  | .onReconnected context env =>
      some { s with hub := (exec (onReconnected context env) s.hub).2 }
  | .onDisconnected context env =>
      some { s with hub := (exec (onDisconnected context env) s.hub).2 }
  | .audited position headers =>
      s.auditQueue[position]?.map fun copy => s.audit json position copy headers
  | .auditDiscarded position =>
      s.auditQueue[position]?.map fun copy =>
        { s with
          auditQueue := s.auditQueue.eraseIdx position
          auditErrors := s.auditErrors ++ [copy] }
  | .auditedElsewhere message headers =>
      if message.toString = remoteCommandType then none
      else some (s.withLog (handleStandardAuditMessage json s.hub.messageLog message headers))
  | .duplicated position =>
      s.channel[position]?.map fun copy => { s with channel := s.channel ++ [copy] }
  | .lost position => some { s with channel := s.channel.eraseIdx position }
  | .subscriber event =>
      if s.arrives event then
        (DocumentHandler.step s.subscriber event).map (s.advance event)
      else none
  | .posted position now outcome =>
      s.acknowledgements[position]?.map fun ack => s.acknowledge position ack now outcome
  | .acknowledgementDiscarded position =>
      some { s with acknowledgements := s.acknowledgements.eraseIdx position }
  | .sagaCompleted position consumed =>
      s.completions[position]?.map (s.handleCompletion position consumed)
  | .completionDiscarded position =>
      some { s with completions := s.completions.eraseIdx position }
  | .completionAudited position now consumed =>
      s.completionAudits[position]?.map (s.auditCompletion position now consumed)

def remotePath (json : JsonSerializer Json) : Machine (Path Json) PathEvent where
  init := Path.initial
  step := step json

def Descends (emitted : List InsertDocumentIntoRemoteBackOfficeCommand) (copy : Copy) : Prop :=
  emitted[copy.origin]? = some copy.command

def AllDescend (emitted : List InsertDocumentIntoRemoteBackOfficeCommand)
    (copies : List Copy) : Prop :=
  ∀ copy ∈ copies, Descends emitted copy

/-- Every row of a remote command stores the command of its emission. -/
def RowsDescend (json : JsonSerializer Json)
    (emitted : List InsertDocumentIntoRemoteBackOfficeCommand) (rowOrigin : ℕ → ℕ)
    (log : AuditTable Json) : Prop :=
  ∀ m ∈ log.rows, m.messageType = remoteCommandType →
    ∃ command, emitted[rowOrigin m.id]? = some command ∧
      Stores json m (.insertDocumentIntoRemoteBackOfficeCommand command)

section Descent
variable {emitted : List InsertDocumentIntoRemoteBackOfficeCommand} {copies : List Copy}
  {copy : Copy} {position : ℕ}

theorem Descends.emit (h : Descends emitted copy)
    (command : InsertDocumentIntoRemoteBackOfficeCommand) :
    Descends (emitted ++ [command]) copy := by
  have hlt : copy.origin < emitted.length := (List.getElem?_eq_some_iff.mp h).choose
  unfold Descends
  rw [List.getElem?_append_left hlt]
  exact h

theorem AllDescend.nil : AllDescend emitted [] := by
  intro copy hcopy
  cases hcopy

theorem AllDescend.emit (h : AllDescend emitted copies)
    (command : InsertDocumentIntoRemoteBackOfficeCommand) :
    AllDescend (emitted ++ [command]) copies :=
  fun copy hcopy => (h copy hcopy).emit command

theorem AllDescend.eraseIdx (h : AllDescend emitted copies) :
    AllDescend emitted (copies.eraseIdx position) :=
  fun copy hcopy => h copy (List.mem_of_mem_eraseIdx hcopy)

theorem AllDescend.append {more : List Copy} (h : AllDescend emitted copies)
    (hmore : AllDescend emitted more) : AllDescend emitted (copies ++ more) := by
  intro copy hcopy
  rcases List.mem_append.mp hcopy with hold | hnew
  · exact h copy hold
  · exact hmore copy hnew

theorem AllDescend.concat (h : AllDescend emitted copies) (hcopy : Descends emitted copy) :
    AllDescend emitted (copies ++ [copy]) := by
  apply h.append
  intro c hc
  rw [List.mem_singleton.mp hc]
  exact hcopy

theorem AllDescend.at (h : AllDescend emitted copies) (hcopy : copies[position]? = some copy) :
    Descends emitted copy :=
  h copy (List.mem_of_getElem? hcopy)

variable {json : JsonSerializer Json} {rowOrigin : ℕ → ℕ} {log : AuditTable Json}

theorem RowsDescend.emit (h : RowsDescend json emitted rowOrigin log)
    (command : InsertDocumentIntoRemoteBackOfficeCommand) :
    RowsDescend json (emitted ++ [command]) rowOrigin log := by
  intro m hm htype
  obtain ⟨stored, hstored, hstores⟩ := h m hm htype
  have hlt : rowOrigin m.id < emitted.length := (List.getElem?_eq_some_iff.mp hstored).choose
  refine ⟨stored, ?_, hstores⟩
  rw [List.getElem?_append_left hlt]
  exact hstored

/-- Completion and replays leave the rows their origins. -/
theorem RowsDescend.sameRecords (h : RowsDescend json emitted rowOrigin log)
    {log' : AuditTable Json} (hrows : ∀ n ∈ log'.rows, ∃ m ∈ log.rows, SameRecord m n) :
    RowsDescend json emitted rowOrigin log' := by
  intro n hn htype
  obtain ⟨m, hm, hsame⟩ := hrows n hn
  rw [hsame.messageType] at htype
  obtain ⟨command, hcommand, hstores⟩ := h m hm htype
  refine ⟨command, ?_, hsame.stores hstores⟩
  rw [hsame.id]
  exact hcommand

theorem RowsDescend.onlyRetries (h : RowsDescend json emitted rowOrigin log)
    {log' : AuditTable Json} (hlog : OnlyRetries log log') :
    RowsDescend json emitted rowOrigin log' := by
  refine h.sameRecords fun n hn => ?_
  obtain ⟨m, hm, heq⟩ := hlog.exists_row hn
  refine ⟨m, hm, ?_⟩
  rw [heq]
  exact ⟨rfl, rfl, rfl, rfl, rfl, rfl, rfl, rfl⟩

theorem RowsDescend.complete (h : RowsDescend json emitted rowOrigin log)
    (correlationId : Guid) (now : DateTime) :
    RowsDescend json emitted rowOrigin (completeCorrelatedMessages log correlationId now) := by
  refine h.sameRecords fun n hn => ?_
  obtain ⟨m, hm, rfl⟩ := List.mem_map.mp hn
  exact ⟨m, hm, complete_sameRecord correlationId now m⟩

/-- The new row gets the origin of the copy that it was made of; its key is fresh. -/
theorem RowsDescend.audited (h : RowsDescend json emitted rowOrigin log)
    (hcopy : Descends emitted copy) (headers : Headers) :
    RowsDescend json emitted (Function.update rowOrigin log.next copy.origin)
      (handleStandardAuditMessage json log
        (.insertDocumentIntoRemoteBackOfficeCommand copy.command) headers) := by
  intro m hm htype
  rcases List.mem_append.mp hm with hold | hnew
  · have hne : m.id ≠ log.next := Nat.ne_of_lt (log.below m hold)
    rw [Function.update_of_ne hne]
    exact h m hold htype
  · rw [List.mem_singleton.mp hnew, create_id, Function.update_self]
    exact ⟨copy.command, hcopy, create_stores json _ headers _⟩

theorem RowsDescend.auditedElsewhere (h : RowsDescend json emitted rowOrigin log)
    {message : StandardAuditMessage} (hother : message.toString ≠ remoteCommandType)
    (headers : Headers) :
    RowsDescend json emitted rowOrigin
      (handleStandardAuditMessage json log message headers) := by
  intro m hm htype
  rcases List.mem_append.mp hm with hold | hnew
  · exact h m hold htype
  · rw [List.mem_singleton.mp hnew] at htype
    exact absurd htype hother

/-- What a replay reads from a row is the command of the row's emission. -/
theorem RowsDescend.replayed (h : RowsDescend json emitted rowOrigin log) {m : MessageLog Json}
    (hm : m ∈ log.rows) (htype : m.messageType = remoteCommandType)
    {command : InsertDocumentIntoRemoteBackOfficeCommand}
    (hread : json.deserialize m.body = .ok command) :
    Descends emitted ⟨rowOrigin m.id, command⟩ := by
  obtain ⟨stored, hstored, hstores⟩ := h m hm htype
  have hrestored : json.deserialize m.body = .ok stored := by
    rw [hstores.body]
    exact json.restores stored
  obtain rfl : stored = command := Except.ok.inj (hrestored.symm.trans hread)
  exact hstored

end Descent

/-- Wherever a copy is, it is a copy of the emission that it names. -/
structure Provenance (json : JsonSerializer Json) (s : Path Json) : Prop where
  hubQueue : AllDescend s.emitted s.hubQueue
  pushed : AllDescend s.emitted s.pushed
  hubErrors : AllDescend s.emitted s.hubErrors
  auditQueue : AllDescend s.emitted s.auditQueue
  auditErrors : AllDescend s.emitted s.auditErrors
  channel : AllDescend s.emitted s.channel
  subscriber : AllDescend s.emitted s.subscriber.copies
  rows : RowsDescend json s.emitted s.rowOrigin s.hub.messageLog

section Provenance
variable {json : JsonSerializer Json} {s t : Path Json} {copy : Copy} {position : ℕ}

theorem Provenance.initial : Provenance json (Path.initial : Path Json) := by
  refine ⟨.nil, .nil, .nil, .nil, .nil, .nil, .nil, ?_⟩
  intro m hm
  cases hm

theorem Provenance.emit (h : Provenance json s)
    (command : InsertDocumentIntoRemoteBackOfficeCommand) : Provenance json (s.emit command) where
  hubQueue := by
    apply (h.hubQueue.emit command).concat
    change (s.emitted ++ [command])[s.emitted.length]? = some command
    simp
  pushed := h.pushed.emit command
  hubErrors := h.hubErrors.emit command
  auditQueue := h.auditQueue.emit command
  auditErrors := h.auditErrors.emit command
  channel := h.channel.emit command
  subscriber := h.subscriber.emit command
  rows := h.rows.emit command

theorem Provenance.push (h : Provenance json s) (hcopy : s.hubQueue[position]? = some copy)
    (outcome : Except Exception Unit) : Provenance json (s.push position copy outcome) := by
  have hdescends := h.hubQueue.at hcopy
  unfold Path.push
  split
  · exact { h with
      hubQueue := h.hubQueue.eraseIdx
      pushed := h.pushed.concat hdescends
      channel := h.channel.concat hdescends }
  · exact h

theorem Provenance.throttle (h : Provenance json s) (hcopy : s.pushed[position]? = some copy)
    (now : DateTime) : Provenance json (s.throttle position copy now) := by
  have hdescends := h.pushed.at hcopy
  unfold Path.throttle
  split
  · exact { h with
      hubQueue := h.hubQueue.concat hdescends
      pushed := h.pushed.eraseIdx }
  · exact { h with
      pushed := h.pushed.eraseIdx
      auditQueue := h.auditQueue.concat hdescends }

theorem Provenance.onConnected (h : Provenance json s) (context : HubCallerContext)
    (env : Environment) :
    Provenance json (s.replay (exec (onConnected json context env) s.hub).2) := by
  obtain ⟨hlog, new, hnew, hrows⟩ := onConnected_replayed json context env s.hub
  refine { h with channel := h.channel.append ?_, rows := h.rows.onlyRetries hlog }
  intro c hc
  rw [hnew, List.drop_left] at hc
  obtain ⟨p, hp, rfl⟩ := List.mem_map.mp hc
  obtain ⟨brokerId, -, -, m, hm, hrow, hread⟩ := hrows p hp
  obtain ⟨hin, hselected⟩ := mem_unacknowledged.mp hm
  rw [← hrow]
  exact h.rows.replayed hin hselected.messageType hread

theorem Provenance.hub (h : Provenance json s) {hub : HubState Json}
    (hlog : hub.messageLog = s.hub.messageLog) : Provenance json { s with hub } := by
  have hrows : RowsDescend json s.emitted s.rowOrigin hub.messageLog := by
    rw [hlog]
    exact h.rows
  exact { h with rows := hrows }

theorem Provenance.audit (h : Provenance json s) (hcopy : s.auditQueue[position]? = some copy)
    (headers : Headers) : Provenance json (s.audit json position copy headers) :=
  { h with
    auditQueue := h.auditQueue.eraseIdx
    rows := h.rows.audited (h.auditQueue.at hcopy) headers }

theorem mem_channel_advance {event : SubscriberEvent} {subscriber : Subscriber}
    (hcopy : copy ∈ (s.advance event subscriber).channel) : copy ∈ s.channel := by
  cases event with
  | queued arrived => exact List.mem_of_mem_erase hcopy
  | _ => exact hcopy

theorem Provenance.subscriberStep (h : Provenance json s) {event : SubscriberEvent}
    {subscriber : Subscriber} (harrives : s.arrives event = true)
    (hstep : DocumentHandler.step s.subscriber event = some subscriber) :
    Provenance json (s.advance event subscriber) := by
  refine { h with channel := fun c hc => h.channel c (mem_channel_advance hc), subscriber := ?_ }
  intro c hc
  rcases step_copies hstep c hc with hold | hqueued
  · exact h.subscriber c hold
  · rw [hqueued] at harrives
    exact h.channel c (List.contains_iff_mem.mp harrives)

theorem Provenance.acknowledge (h : Provenance json s) (ack : SendAcknowledgementCommand)
    (now : DateTime) (outcome : PostOutcome) :
    Provenance json (s.acknowledge position ack now outcome) := by
  have hrows : RowsDescend json s.emitted s.rowOrigin (post s.hub.messageLog ack now).1 :=
    post_log h.rows fun _ => h.rows.complete ack.correlationId now
  cases outcome with
  | answered => exact { h with rows := hrows }
  | unanswered => exact { h with rows := hrows }
  | sendThrew => exact { h with rows := hrows }

theorem Provenance.step (h : Provenance json s) {e : PathEvent}
    (hstep : step json s e = some t) : Provenance json t := by
  cases e with
  | emitted command =>
      obtain rfl := Option.some.inj hstep
      exact h.emit command
  | pushed position outcome =>
      obtain ⟨copy, hcopy, rfl⟩ := Option.map_eq_some_iff.mp hstep
      exact h.push hcopy outcome
  | throttled position now =>
      obtain ⟨copy, hcopy, rfl⟩ := Option.map_eq_some_iff.mp hstep
      exact h.throttle hcopy now
  | discarded position =>
      obtain ⟨copy, hcopy, rfl⟩ := Option.map_eq_some_iff.mp hstep
      exact { h with
        hubQueue := h.hubQueue.eraseIdx
        hubErrors := h.hubErrors.concat (h.hubQueue.at hcopy) }
  | onConnected context env =>
      obtain rfl := Option.some.inj hstep
      exact h.onConnected context env
  | onReconnected context env =>
      obtain rfl := Option.some.inj hstep
      exact h.hub (onReconnected_log context env s.hub).1
  | onDisconnected context env =>
      obtain rfl := Option.some.inj hstep
      exact h.hub (onDisconnected_log context env s.hub).1
  | audited position headers =>
      obtain ⟨copy, hcopy, rfl⟩ := Option.map_eq_some_iff.mp hstep
      exact h.audit hcopy headers
  | auditDiscarded position =>
      obtain ⟨copy, hcopy, rfl⟩ := Option.map_eq_some_iff.mp hstep
      exact { h with
        auditQueue := h.auditQueue.eraseIdx
        auditErrors := h.auditErrors.concat (h.auditQueue.at hcopy) }
  | auditedElsewhere message headers =>
      obtain ⟨hother, hstep⟩ := Option.ite_none_left_eq_some.mp hstep
      obtain rfl := Option.some.inj hstep
      exact { h with rows := h.rows.auditedElsewhere hother headers }
  | duplicated position =>
      obtain ⟨copy, hcopy, rfl⟩ := Option.map_eq_some_iff.mp hstep
      exact { h with channel := h.channel.concat (h.channel.at hcopy) }
  | lost position =>
      obtain rfl := Option.some.inj hstep
      exact { h with channel := h.channel.eraseIdx }
  | subscriber event =>
      obtain ⟨harrives, hstep⟩ := Option.ite_none_right_eq_some.mp hstep
      obtain ⟨subscriber, hsubscriber, rfl⟩ := Option.map_eq_some_iff.mp hstep
      exact h.subscriberStep harrives hsubscriber
  | posted position now outcome =>
      obtain ⟨ack, -, rfl⟩ := Option.map_eq_some_iff.mp hstep
      exact h.acknowledge ack now outcome
  | acknowledgementDiscarded position =>
      obtain rfl := Option.some.inj hstep
      exact { h with }
  | sagaCompleted position consumed =>
      obtain ⟨correlationId, -, rfl⟩ := Option.map_eq_some_iff.mp hstep
      exact { h with }
  | completionDiscarded position =>
      obtain rfl := Option.some.inj hstep
      exact { h with }
  | completionAudited position now consumed =>
      obtain ⟨correlationId, -, rfl⟩ := Option.map_eq_some_iff.mp hstep
      exact { h with rows := h.rows.complete correlationId now }

end Provenance

/-- An emission, a step of the subscriber, or a step of another party. -/
inductive StepKind (s : Path Json) (e : PathEvent) (t : Path Json) : Prop
  | emitted (command : InsertDocumentIntoRemoteBackOfficeCommand)
      (event : e = .emitted command) (result : t = s.emit command)
  | subscriber (event : SubscriberEvent) (isEvent : e = .subscriber event)
      (step : DocumentHandler.step s.subscriber event = some t.subscriber)
      (result : t = s.advance event t.subscriber)
  | elsewhere (emitted : t.emitted = s.emitted) (subscriber : t.subscriber = s.subscriber)

section Steps
variable {json : JsonSerializer Json} {s t : Path Json}

theorem step_kind {e : PathEvent} (hstep : step json s e = some t) : StepKind s e t := by
  cases e with
  | emitted command =>
      obtain rfl := Option.some.inj hstep
      exact .emitted command rfl rfl
  | pushed position outcome =>
      obtain ⟨copy, -, rfl⟩ := Option.map_eq_some_iff.mp hstep
      unfold Path.push
      split <;> exact .elsewhere rfl rfl
  | throttled position now =>
      obtain ⟨copy, -, rfl⟩ := Option.map_eq_some_iff.mp hstep
      unfold Path.throttle
      split <;> exact .elsewhere rfl rfl
  | discarded position =>
      obtain ⟨copy, -, rfl⟩ := Option.map_eq_some_iff.mp hstep
      exact .elsewhere rfl rfl
  | audited position headers =>
      obtain ⟨copy, -, rfl⟩ := Option.map_eq_some_iff.mp hstep
      exact .elsewhere rfl rfl
  | auditDiscarded position =>
      obtain ⟨copy, -, rfl⟩ := Option.map_eq_some_iff.mp hstep
      exact .elsewhere rfl rfl
  | auditedElsewhere message headers =>
      obtain ⟨-, hstep⟩ := Option.ite_none_left_eq_some.mp hstep
      obtain rfl := Option.some.inj hstep
      exact .elsewhere rfl rfl
  | duplicated position =>
      obtain ⟨copy, -, rfl⟩ := Option.map_eq_some_iff.mp hstep
      exact .elsewhere rfl rfl
  | subscriber event =>
      obtain ⟨-, hstep⟩ := Option.ite_none_right_eq_some.mp hstep
      obtain ⟨subscriber, hsubscriber, rfl⟩ := Option.map_eq_some_iff.mp hstep
      exact .subscriber event rfl hsubscriber rfl
  | posted position now outcome =>
      obtain ⟨ack, -, rfl⟩ := Option.map_eq_some_iff.mp hstep
      cases outcome <;> exact .elsewhere rfl rfl
  | sagaCompleted position consumed =>
      obtain ⟨correlationId, -, rfl⟩ := Option.map_eq_some_iff.mp hstep
      exact .elsewhere rfl rfl
  | completionAudited position now consumed =>
      obtain ⟨correlationId, -, rfl⟩ := Option.map_eq_some_iff.mp hstep
      exact .elsewhere rfl rfl
  | _ =>
      obtain rfl := Option.some.inj hstep
      exact .elsewhere rfl rfl

theorem subscriber_reachable (h : DocumentHandler.subscriber.Reachable s.subscriber)
    {e : PathEvent} (hstep : step json s e = some t) :
    DocumentHandler.subscriber.Reachable t.subscriber := by
  cases step_kind hstep with
  | emitted command _ hresult =>
      rw [hresult]
      exact h
  | subscriber event _ hevent _ => exact h.step hevent
  | elsewhere _ hsubscriber =>
      rw [hsubscriber]
      exact h

end Steps

/-- The calls for copies of one emission that returned true. -/
def insertions (s : Path Json) (origin : ℕ) : ℕ :=
  s.subscriber.calls.countP fun call => call.1.origin == origin && inserted call

/-- Every call is made for a copy of an emitted command, as it was emitted, and at
most one of the calls for the copies of one emission has returned true. -/
structure AtMostOneInsertion (s : Path Json) : Prop where
  copies : ∀ call ∈ s.subscriber.calls, Descends s.emitted call.1
  once : ∀ origin, insertions s origin ≤ 1

theorem Provenance.call {json : JsonSerializer Json} {s : Path Json} (h : Provenance json s)
    {call : Copy × Except Exception Bool} (hcall : call ∈ s.subscriber.calls) :
    Descends s.emitted call.1 :=
  h.subscriber call.1 (mem_copies.mpr (Or.inr (Or.inl ⟨call, hcall, rfl⟩)))

/-- Copies of one emission have one identifier, and no identifier is inserted twice. -/
theorem Provenance.atMostOneInsertion {json : JsonSerializer Json} {s : Path Json}
    (h : Provenance json s) (hreachable : DocumentHandler.subscriber.Reachable s.subscriber) :
    AtMostOneInsertion s := by
  refine ⟨fun call hcall => h.call hcall, fun origin => ?_⟩
  have hnodup : ((s.subscriber.calls.filter inserted).map fun call => call.1.command.id).Nodup :=
    insertedIds_nodup hreachable
  apply countP_le_one_of_nodup (k := (s.emitted[origin]?.map fun c => c.id).getD 0) hnodup
  intro call hcall horigin
  have hdescends : s.emitted[call.1.origin]? = some call.1.command := h.call hcall
  rw [← beq_iff_eq.mp horigin, hdescends]
  rfl

/-- However often the copies of a command are pushed, replayed, queued and
redelivered, and wherever the subscriber stops, at most one call for them has
returned true. -/
theorem inserted_at_most_once (json : JsonSerializer Json) (events : List PathEvent) :
    (remotePath json).Always AtMostOneInsertion (remotePath json).init events := by
  have hinvariant : (remotePath json).Always
      (fun s => Provenance json s ∧ subscriber.Reachable s.subscriber)
      (remotePath json).init events := by
    apply Machine.always_of_step
    · exact fun s e t hs hstep => ⟨hs.1.step hstep, subscriber_reachable hs.2 hstep⟩
    · exact ⟨Provenance.initial, Machine.Reachable.init⟩
  exact hinvariant.mono fun s hs => hs.1.atMostOneInsertion hs.2

/-- Some call made while handling a command of this correlation has returned true. -/
def Inserted (s : Subscriber) (correlationId : Guid) : Prop :=
  ∃ call ∈ s.calls, inserted call = true ∧ call.1.command.correlationId = correlationId

instance (s : Subscriber) (correlationId : Guid) : Decidable (Inserted s correlationId) :=
  inferInstanceAs (Decidable (∃ call ∈ s.calls, _ ∧ _))

def CompletedInserted (s : Subscriber) (log : AuditTable Json) : Prop :=
  ∀ m ∈ log.rows, m.messageType = remoteCommandType → m.completionDate ≠ none →
    Inserted s m.correlationId

/-- Success is acknowledged, a remote row is completed and a saga is completed only
after an insertion for the correlation. -/
structure NoFalseSuccess (s : Path Json) : Prop where
  sent : ∀ ack ∈ s.subscriber.sent, ack.success = true → Inserted s.subscriber ack.correlationId
  completed : CompletedInserted s.subscriber s.hub.messageLog
  sagas : ∀ c ∈ s.completedSagas, Inserted s.subscriber c

/-- Different emissions differ in their identifiers and correlations. -/
def Fresh (s : Path Json) : PathEvent → Prop
  | .emitted command =>
      command.id ∉ s.emitted.map (fun c => c.id) ∧
        command.correlationId ∉ s.emitted.map fun c => c.correlationId
  | _ => True

instance (s : Path Json) : (e : PathEvent) → Decidable (Fresh s e)
  | .emitted _ => inferInstanceAs (Decidable (_ ∧ _))
  | .pushed .. | .throttled .. | .discarded _ | .onConnected .. | .onReconnected ..
  | .onDisconnected .. | .audited .. | .auditDiscarded _ | .auditedElsewhere ..
  | .duplicated _ | .lost _ | .subscriber _ | .posted .. | .acknowledgementDiscarded _
  | .sagaCompleted .. | .completionDiscarded _ | .completionAudited .. => isTrue trivial

/-- The condition on a step: what the subscriber stores it inserts. -/
def StoredIsInserted (s : Path Json) : PathEvent → Prop
  | .subscriber event => InsertsWhatItStores s.subscriber event
  | _ => True

instance (s : Path Json) : (e : PathEvent) → Decidable (StoredIsInserted s e)
  | .subscriber event => inferInstanceAs (Decidable (InsertsWhatItStores s.subscriber event))
  | .emitted _ | .pushed .. | .throttled .. | .discarded _ | .onConnected .. | .onReconnected ..
  | .onDisconnected .. | .audited .. | .auditDiscarded _ | .auditedElsewhere ..
  | .duplicated _ | .lost _ | .posted .. | .acknowledgementDiscarded _
  | .sagaCompleted .. | .completionDiscarded _ | .completionAudited .. => isTrue trivial

/-- `NoFalseSuccess`, with what is under way between the subscriber and the saga. -/
structure Vouched (s : Path Json) : Prop extends NoFalseSuccess s where
  acknowledgements : ∀ ack ∈ s.acknowledgements,
    ack.success = true → Inserted s.subscriber ack.correlationId
  completions : ∀ c ∈ s.completions, Inserted s.subscriber c
  completionAudits : ∀ c ∈ s.completionAudits, Inserted s.subscriber c

section Vouched
variable {json : JsonSerializer Json} {s t : Path Json} {subscriber : Subscriber}

theorem CompletedInserted.onlyRetries {log log' : AuditTable Json}
    (h : CompletedInserted subscriber log) (hlog : OnlyRetries log log') :
    CompletedInserted subscriber log' := by
  intro n hn htype hcompleted
  obtain ⟨m, hm, heq⟩ := hlog.exists_row hn
  rw [heq] at htype hcompleted ⊢
  exact h m hm htype hcompleted

theorem CompletedInserted.complete {log : AuditTable Json}
    (h : CompletedInserted subscriber log) {correlationId : Guid}
    (hinserted : Inserted subscriber correlationId) (now : DateTime) :
    CompletedInserted subscriber (completeCorrelatedMessages log correlationId now) := by
  intro n hn htype hcompleted
  obtain ⟨m, hm, rfl⟩ := List.mem_map.mp hn
  have hsame := complete_sameRecord correlationId now m
  rw [hsame.messageType] at htype
  rw [hsame.correlationId]
  rcases (complete_completionDate correlationId now m).mp hcompleted with hold | hnew
  · exact h m hm htype hold
  · rw [hnew]
    exact hinserted

/-- A new row is not completed. -/
theorem CompletedInserted.insert {log : AuditTable Json} (h : CompletedInserted subscriber log)
    (message : StandardAuditMessage) (headers : Headers) :
    CompletedInserted subscriber (handleStandardAuditMessage json log message headers) := by
  intro m hm htype hcompleted
  rcases List.mem_append.mp hm with hold | hnew
  · exact h m hold htype hcompleted
  · rw [List.mem_singleton.mp hnew] at hcompleted
    exact absurd rfl hcompleted

theorem Inserted.mono {s t : Subscriber} (hcalls : ∀ call ∈ s.calls, call ∈ t.calls)
    {correlationId : Guid} (h : Inserted s correlationId) : Inserted t correlationId := by
  obtain ⟨call, hcall, hinserted⟩ := h
  exact ⟨call, hcalls call hcall, hinserted⟩

theorem Vouched.initial : Vouched (Path.initial : Path Json) := by
  refine ⟨⟨?_, ?_, ?_⟩, ?_, ?_, ?_⟩
  all_goals
    intro x hx
    cases hx

theorem Vouched.withLog (h : Vouched s) {hub : HubState Json}
    (hlog : CompletedInserted s.subscriber hub.messageLog) : Vouched { s with hub } :=
  { h with completed := hlog }

theorem mem_consumed {α : Type} {xs : List α} {position : ℕ} {consumed : Bool} {x : α}
    (hx : x ∈ if consumed then xs.eraseIdx position else xs) : x ∈ xs := by
  cases consumed with
  | true => exact List.mem_of_mem_eraseIdx hx
  | false => exact hx

theorem Vouched.acknowledge (h : Vouched s) {position : ℕ} {ack : SendAcknowledgementCommand}
    (hack : ack ∈ s.acknowledgements) (now : DateTime) (outcome : PostOutcome) :
    Vouched (s.acknowledge position ack now outcome) := by
  have hinserted := h.acknowledgements ack hack
  have hlog : CompletedInserted s.subscriber (post s.hub.messageLog ack now).1 :=
    post_log h.completed fun hsuccess => h.completed.complete (hinserted hsuccess) now
  have hsent : ∀ c ∈ (post s.hub.messageLog ack now).2, Inserted s.subscriber c := by
    intro c hc
    obtain ⟨hsuccess, rfl⟩ := mem_post_sent.mp hc
    exact hinserted hsuccess
  have hcompletions := List.forall_mem_append.mpr ⟨h.completions, hsent⟩
  cases outcome with
  | answered =>
      exact { h with
        completed := hlog
        acknowledgements := fun a ha => h.acknowledgements a (List.mem_of_mem_eraseIdx ha)
        completions := hcompletions }
  | unanswered => exact { h with completed := hlog, completions := hcompletions }
  | sendThrew => exact { h with completed := hlog }

theorem Vouched.handleCompletion (h : Vouched s) {position : ℕ} {correlationId : Guid}
    (hinserted : Inserted s.subscriber correlationId) (consumed : Bool) :
    Vouched (s.handleCompletion position consumed correlationId) := by
  refine { h with sagas := ?_, completions := ?_, completionAudits := ?_ }
  · intro c hc
    change c ∈ if s.openSagas.contains correlationId then _ else _ at hc
    split at hc
    · rcases List.mem_cons.mp hc with rfl | hold
      · exact hinserted
      · exact h.sagas c hold
    · exact h.sagas c hc
  · exact fun c hc => h.completions c (mem_consumed hc)
  · exact List.forall_mem_append.mpr
      ⟨h.completionAudits, List.forall_mem_singleton.mpr hinserted⟩

theorem Vouched.auditCompletion (h : Vouched s) {position : ℕ} {correlationId : Guid}
    (hinserted : Inserted s.subscriber correlationId) (now : DateTime) (consumed : Bool) :
    Vouched (s.auditCompletion position now consumed correlationId) := by
  exact { h with
    completed := h.completed.complete hinserted now
    completionAudits := fun c hc => h.completionAudits c (mem_consumed hc) }

/-- A step of the subscriber forgets no call, so only what it has newly sent needs one. -/
theorem Vouched.subscriberStep (h : Vouched s) {event : SubscriberEvent}
    (hcalls : ∀ call ∈ s.subscriber.calls, call ∈ subscriber.calls)
    {new : List SendAcknowledgementCommand} (hsent : subscriber.sent = s.subscriber.sent ++ new)
    (hnew : ∀ ack ∈ new, ack.success = true → Inserted subscriber ack.correlationId) :
    Vouched (s.advance event subscriber) where
  sent ack hack hsuccess := by
    change ack ∈ subscriber.sent at hack
    rw [hsent] at hack
    rcases List.mem_append.mp hack with hold | hlast
    · exact (h.sent ack hold hsuccess).mono hcalls
    · exact hnew ack hlast hsuccess
  completed m hm htype hcompleted := (h.completed m hm htype hcompleted).mono hcalls
  sagas c hc := (h.sagas c hc).mono hcalls
  acknowledgements ack hack hsuccess := by
    change ack ∈ s.acknowledgements ++ subscriber.sent.drop s.subscriber.sent.length at hack
    rw [hsent, List.drop_left] at hack
    rcases List.mem_append.mp hack with hold | hlast
    · exact (h.acknowledgements ack hold hsuccess).mono hcalls
    · exact hnew ack hlast hsuccess
  completions c hc := (h.completions c hc).mono hcalls
  completionAudits c hc := (h.completionAudits c hc).mono hcalls

end Vouched

/-- The invariant of runs that meet the condition: the copies descend from
different emissions, no stored identifier is abandoned, and every success has its
insertion. -/
structure Sound (json : JsonSerializer Json) (s : Path Json) : Prop where
  provenance : Provenance json s
  reachable : DocumentHandler.subscriber.Reachable s.subscriber
  kept : ∀ i, ¬Abandoned (asReceiver s.subscriber) i
  ids : (s.emitted.map fun c => c.id).Nodup
  correlationIds : (s.emitted.map fun c => c.correlationId).Nodup
  vouched : Vouched s

section Sound
variable {json : JsonSerializer Json} {s t : Path Json} {h : Handling}

theorem Provenance.handling (hs : Provenance json s) (hh : s.subscriber.handling = some h) :
    Descends s.emitted h.copy :=
  hs.subscriber h.copy (mem_copies.mpr (Or.inr (Or.inr ⟨h, hh, rfl⟩)))

/-- The correlation of a copy has an insertion exactly when its identifier has. -/
theorem Sound.inserted_iff (hs : Sound json s) {copy : Copy} (hcopy : Descends s.emitted copy) :
    Inserted s.subscriber copy.command.correlationId ↔
      copy.command.id ∈ insertedIds s.subscriber := by
  have hmem : copy.command ∈ s.emitted := List.mem_of_getElem? hcopy
  rw [mem_insertedIds]
  constructor
  · rintro ⟨call, hcall, hinserted, hcorrelation⟩
    have hcommand : call.1.command = copy.command :=
      List.inj_on_of_nodup_map hs.correlationIds
        (List.mem_of_getElem? (hs.provenance.call hcall)) hmem hcorrelation
    exact ⟨call, hcall, hinserted, by rw [hcommand]⟩
  · rintro ⟨call, hcall, hinserted, hid⟩
    have hcommand : call.1.command = copy.command :=
      List.inj_on_of_nodup_map hs.ids
        (List.mem_of_getElem? (hs.provenance.call hcall)) hmem hid
    exact ⟨call, hcall, hinserted, by rw [hcommand]⟩

/-- At its end a run has its identifier in the store and claims it no more, so that
an insertion has been performed for it. -/
theorem Sound.inserted_of_returned (hs : Sound json s) (hh : s.subscriber.handling = some h)
    (hreturned : h.phase = .returned) :
    Inserted s.subscriber h.copy.command.correlationId := by
  have hat := (Consistent.of_reachable hs.reachable).handling h hh
  have hseen : h.copy.command.id ∈ s.subscriber.store :=
    hat.seen (by simp [hreturned]) (by simp [hreturned])
  have hclaimed : claimedId s.subscriber = none := claimedId_of_phase hh (by simp [hreturned])
  rw [hs.inserted_iff (hs.provenance.handling hh)]
  by_contra hmissing
  refine hs.kept h.copy.command.id ⟨hseen, hmissing, ?_⟩
  change claimedId s.subscriber ≠ some h.copy.command.id
  rw [hclaimed]
  exact nofun

theorem Sound.subscriberStep (hs : Sound json s) {event : SubscriberEvent}
    {subscriber : Subscriber}
    (hstep : DocumentHandler.step s.subscriber event = some subscriber) :
    Vouched (s.advance event subscriber) := by
  have hcalls := step_calls hstep
  rcases step_sent hstep with hsent | ⟨h, rfl, hh, hreturned, haborted, hsent⟩
  · exact hs.vouched.subscriberStep hcalls (hsent.trans (List.append_nil _).symm) nofun
  · have hat := (Consistent.of_reachable hs.reachable).handling h hh
    have hinserted := hs.inserted_of_returned hh hreturned
    rw [hat.acknowledged hreturned haborted] at hsent
    exact hs.vouched.subscriberStep hcalls hsent
      (List.forall_mem_singleton.mpr fun _ => hinserted.mono hcalls)

theorem Sound.vouched_step (hs : Sound json s) {e : PathEvent}
    (hstep : step json s e = some t) : Vouched t := by
  have hvouched := hs.vouched
  cases e with
  | emitted command =>
      obtain rfl := Option.some.inj hstep
      exact { hvouched with }
  | pushed position outcome =>
      obtain ⟨copy, -, rfl⟩ := Option.map_eq_some_iff.mp hstep
      unfold Path.push
      split <;> exact { hvouched with }
  | throttled position now =>
      obtain ⟨copy, -, rfl⟩ := Option.map_eq_some_iff.mp hstep
      unfold Path.throttle
      split <;> exact { hvouched with }
  | discarded position =>
      obtain ⟨copy, -, rfl⟩ := Option.map_eq_some_iff.mp hstep
      exact { hvouched with }
  | onConnected context env =>
      obtain rfl := Option.some.inj hstep
      have hlog := (onConnected_replayed json context env s.hub).1
      exact { hvouched with completed := hvouched.completed.onlyRetries hlog }
  | onReconnected context env =>
      obtain rfl := Option.some.inj hstep
      apply hvouched.withLog
      rw [(onReconnected_log context env s.hub).1]
      exact hvouched.completed
  | onDisconnected context env =>
      obtain rfl := Option.some.inj hstep
      apply hvouched.withLog
      rw [(onDisconnected_log context env s.hub).1]
      exact hvouched.completed
  | audited position headers =>
      obtain ⟨copy, -, rfl⟩ := Option.map_eq_some_iff.mp hstep
      exact { hvouched with completed := hvouched.completed.insert _ headers }
  | auditDiscarded position =>
      obtain ⟨copy, -, rfl⟩ := Option.map_eq_some_iff.mp hstep
      exact { hvouched with }
  | auditedElsewhere message headers =>
      obtain ⟨-, hstep⟩ := Option.ite_none_left_eq_some.mp hstep
      obtain rfl := Option.some.inj hstep
      exact { hvouched with completed := hvouched.completed.insert message headers }
  | duplicated position =>
      obtain ⟨copy, -, rfl⟩ := Option.map_eq_some_iff.mp hstep
      exact { hvouched with }
  | lost position =>
      obtain rfl := Option.some.inj hstep
      exact { hvouched with }
  | subscriber event =>
      obtain ⟨-, hstep⟩ := Option.ite_none_right_eq_some.mp hstep
      obtain ⟨subscriber, hsubscriber, rfl⟩ := Option.map_eq_some_iff.mp hstep
      exact hs.subscriberStep hsubscriber
  | posted position now outcome =>
      obtain ⟨ack, hack, rfl⟩ := Option.map_eq_some_iff.mp hstep
      exact hvouched.acknowledge (List.mem_of_getElem? hack) now outcome
  | acknowledgementDiscarded position =>
      obtain rfl := Option.some.inj hstep
      exact { hvouched with
        acknowledgements := fun a ha => hvouched.acknowledgements a (List.mem_of_mem_eraseIdx ha) }
  | sagaCompleted position consumed =>
      obtain ⟨correlationId, hcompletion, rfl⟩ := Option.map_eq_some_iff.mp hstep
      exact hvouched.handleCompletion
        (hvouched.completions correlationId (List.mem_of_getElem? hcompletion)) consumed
  | completionDiscarded position =>
      obtain rfl := Option.some.inj hstep
      exact { hvouched with
        completions := fun c hc => hvouched.completions c (List.mem_of_mem_eraseIdx hc) }
  | completionAudited position now consumed =>
      obtain ⟨correlationId, hcompletion, rfl⟩ := Option.map_eq_some_iff.mp hstep
      exact hvouched.auditCompletion
        (hvouched.completionAudits correlationId (List.mem_of_getElem? hcompletion)) now consumed

/-- Nothing is abandoned by a step that inserts what it stores. -/
theorem Sound.kept_step (hs : Sound json s) {e : PathEvent} (hinserts : StoredIsInserted s e)
    (hstep : step json s e = some t) : ∀ i, ¬Abandoned (asReceiver t.subscriber) i := by
  cases step_kind hstep with
  | emitted command _ hresult =>
      rw [hresult]
      exact hs.kept
  | subscriber event hevent hsubscriber _ =>
      rw [hevent] at hinserts
      exact notAbandoned_run hs.kept hinserts.noRelease
        (step_receiver (Consistent.of_reachable hs.reachable) hsubscriber)
  | elsewhere _ hsubscriber =>
      rw [hsubscriber]
      exact hs.kept

theorem Sound.step (hs : Sound json s) {e : PathEvent} (hfresh : Fresh s e)
    (hinserts : StoredIsInserted s e) (hstep : step json s e = some t) : Sound json t := by
  have hprovenance := hs.provenance.step hstep
  have hreachable := subscriber_reachable hs.reachable hstep
  have hkept := hs.kept_step hinserts hstep
  have hvouched := hs.vouched_step hstep
  cases step_kind hstep with
  | emitted command hevent hresult =>
      rw [hevent] at hfresh
      refine ⟨hprovenance, hreachable, hkept, ?_, ?_, hvouched⟩
      · rw [hresult]
        change ((s.emitted ++ [command]).map fun c => c.id).Nodup
        rw [List.map_append]
        exact List.nodup_append_comm.mp (List.nodup_cons.mpr ⟨hfresh.1, hs.ids⟩)
      · rw [hresult]
        change ((s.emitted ++ [command]).map fun c => c.correlationId).Nodup
        rw [List.map_append]
        exact List.nodup_append_comm.mp (List.nodup_cons.mpr ⟨hfresh.2, hs.correlationIds⟩)
  | subscriber event _ _ hresult =>
      have hemitted : t.emitted = s.emitted := by
        rw [hresult]
        rfl
      exact ⟨hprovenance, hreachable, hkept, hemitted ▸ hs.ids, hemitted ▸ hs.correlationIds,
        hvouched⟩
  | elsewhere hemitted _ =>
      exact ⟨hprovenance, hreachable, hkept, hemitted ▸ hs.ids, hemitted ▸ hs.correlationIds,
        hvouched⟩

theorem Sound.initial : Sound json (Path.initial : Path Json) := by
  refine ⟨Provenance.initial, Machine.Reachable.init, fun i habandoned => ?_, List.nodup_nil,
    List.nodup_nil, Vouched.initial⟩
  cases habandoned.1

end Sound

/-- In every run whose commands differ in their identifiers and correlations, no
success is false as long as the subscriber inserts what it stores: from the commit of
an identifier on nothing fails until `InsertDocument` has returned true. -/
theorem no_false_success (json : JsonSerializer Json) (events : List PathEvent)
    (hfresh : (remotePath json).Meets Fresh (remotePath json).init events)
    (hinserts : (remotePath json).Meets StoredIsInserted (remotePath json).init events) :
    (remotePath json).Always NoFalseSuccess (remotePath json).init events := by
  have hsound : (remotePath json).Always (Sound json) (remotePath json).init events :=
    Machine.always_of_meets (fun s e t hs he hstep => hs.step he.1 he.2 hstep) Sound.initial
      (hfresh.and hinserts)
  exact hsound.mono fun s hs => hs.vouched.toNoFalseSuccess

/-- A command is emitted, pushed to a connected broker, audited, queued there and
taken into hand, and its identifier is stored. -/
def storedRun : List PathEvent :=
  [.onConnected ⟨"conn1", principal "123" "0"⟩ (Environment.calm 0),
    .emitted (insertCommand 7 123), .pushed 0 (.ok ()), .throttled 0 0, .audited 0 [],
    .subscriber (.queued ⟨0, insertCommand 7 123⟩), .subscriber (.taken 0),
    .subscriber (.messageExists (.ok ())), .subscriber (.addMessageId true (.ok ()))]

/-- The handler commits; its acknowledgement completes the row and the saga. -/
def acknowledgedRun : List PathEvent :=
  [.subscriber (.send (.ok ())), .subscriber .ended, .posted 0 0 .answered,
    .sagaCompleted 0 true]

/-- The insertion succeeds at once. -/
theorem inserted_document_acknowledged :
    (remotePath JsonSerializer.transparent).Always NoFalseSuccess Path.initial
      (storedRun ++ .subscriber (.insertDocument (.ok true)) :: acknowledgedRun) :=
  no_false_success JsonSerializer.transparent
    (storedRun ++ .subscriber (.insertDocument (.ok true)) :: acknowledgedRun)
    (by decide +kernel) (by decide +kernel)

/-- The insertion throws, and the redelivered message is found in the store. -/
def failedInsertRun : List PathEvent :=
  storedRun ++ [.subscriber (.insertDocument (.error .external)), .subscriber (.taken 0),
    .subscriber (.messageExists (.ok ()))] ++ acknowledgedRun

/-- Success is acknowledged, and the row and the saga of a document that was never
inserted are completed. -/
theorem failed_insert_acknowledged :
    (remotePath JsonSerializer.transparent).Meets Fresh Path.initial failedInsertRun ∧
      ∃ s, (remotePath JsonSerializer.transparent).run Path.initial failedInsertRun = some s ∧
        s.subscriber.sent = [⟨7, true, none⟩] ∧ s.completedSagas = [7] ∧
        (∃ m ∈ s.hub.messageLog.rows, m.messageType = remoteCommandType ∧
          m.correlationId = 7 ∧ m.completionDate = some 0) ∧
        ¬Inserted s.subscriber 7 ∧ ¬NoFalseSuccess s := by
  refine ⟨by decide +kernel, ?_⟩
  have hrun : ((remotePath JsonSerializer.transparent).run Path.initial failedInsertRun).map
      (fun s => decide (s.subscriber.sent = [⟨7, true, none⟩] ∧ s.completedSagas = [7] ∧
        (∃ m ∈ s.hub.messageLog.rows, m.messageType = remoteCommandType ∧
          m.correlationId = 7 ∧ m.completionDate = some 0) ∧
        ¬Inserted s.subscriber 7)) = some true := by
    decide +kernel
  obtain ⟨s, hs, hdecided⟩ := Option.map_eq_some_iff.mp hrun
  obtain ⟨hsent, hsagas, hrow, hmissing⟩ := of_decide_eq_true hdecided
  refine ⟨s, hs, hsent, hsagas, hrow, hmissing, fun h => hmissing ?_⟩
  apply h.sent ⟨7, true, none⟩ _ rfl
  rw [hsent]
  exact List.mem_singleton.mpr rfl

end ReliableSignalR.RemotePath
