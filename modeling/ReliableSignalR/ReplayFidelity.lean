import ReliableSignalR.FailedConnects
import Mathlib.Data.List.Forall2

/-!
# Replays are complete and faithful

The log is written by the audit endpoint and read by the hub, in another process.
Writer and reader have to agree on the type tag, the text of the body and the
broker key of every class of message. What a connecting broker is pushed is stated
from the audited messages: one push for each remote insert command of the broker
whose row is still open, and the command that was audited, not a reconstruction.

Between audit and connect, rows may be completed and their counters changed in any
way; `SameRecords` leaves these two columns free.
-/
namespace ReliableSignalR.ReplayFidelity
open DotNet Messages KeyedTable RetainedEffects EventRuns
open AuditEndpoint BackOfficeHub HubRuns UserKeys FailedConnects

variable {Json : Type}

/-- The log that `SuccessfulMessageHandler` makes of a sequence of messages. -/
def auditAll (json : JsonSerializer Json) (messages : List (StandardAuditMessage × Headers)) :
    AuditTable Json :=
  messages.foldl (fun log m => handleStandardAuditMessage json log m.1 m.2) Table.empty

/-- The logs have the same rows up to completion dates and retry counters. -/
def SameRecords (log log' : AuditTable Json) : Prop := List.Forall₂ SameRecord log.rows log'.rows

/-- The rows were made from the messages, in this order. -/
def StoresAll (json : JsonSerializer Json) (messages : List (StandardAuditMessage × Headers))
    (rows : List (MessageLog Json)) : Prop :=
  List.Forall₂ (fun m row => Stores json row m.1) messages rows

/-- The push that an audited message and its row call for when the broker connects. -/
def replayOf (brokerId : ℤ) (now : DateTime) (m : MessageLog Json) :
    StandardAuditMessage → Option Replay
  | .insertDocumentIntoRemoteBackOfficeCommand command =>
      if command.brokerId = brokerId ∧ m.completionDate = none ∧ m.retries < 10 ∧
          m.createDate ≤ DateTime.addDays (DateTime.today now) 1 then
        some ⟨toString brokerId, m.id, command⟩
      else none
  | _ => none

section Stored
variable {json : JsonSerializer Json} {messages : List (StandardAuditMessage × Headers)}
  {rows : List (MessageLog Json)}

theorem auditAll_concat (message : StandardAuditMessage) (headers : Headers) :
    auditAll json (messages ++ [(message, headers)]) =
      handleStandardAuditMessage json (auditAll json messages) message headers := by
  rw [auditAll, List.foldl_append, List.foldl_cons, List.foldl_nil, auditAll]

theorem forall₂_concat {α β : Type} {R : α → β → Prop} {as : List α} {bs : List β} {a : α} {b : β}
    (h : List.Forall₂ R as bs) (hab : R a b) : List.Forall₂ R (as ++ [a]) (bs ++ [b]) :=
  List.rel_append h (.cons hab .nil)

theorem storesAll_auditAll (json : JsonSerializer Json)
    (messages : List (StandardAuditMessage × Headers)) :
    StoresAll json messages (auditAll json messages).rows := by
  induction messages using List.reverseRecOn with
  | nil => exact .nil
  | append_singleton messages m ih =>
      rw [auditAll_concat]
      exact forall₂_concat ih (create_stores json m.1 m.2 _)

theorem StoresAll.sameRecords {rows' : List (MessageLog Json)} (h : StoresAll json messages rows)
    (hrecords : List.Forall₂ SameRecord rows rows') : StoresAll json messages rows' := by
  induction h generalizing rows' with
  | nil =>
      cases hrecords
      exact .nil
  | cons hstores _ ih =>
      cases hrecords with
      | cons hrecord hrest => exact .cons (hrecord.stores hstores) (ih hrest)

theorem StoresAll.exists_message (h : StoresAll json messages rows) {row : MessageLog Json}
    (hrow : row ∈ rows) : ∃ m ∈ messages, Stores json row m.1 := by
  induction h with
  | nil => cases hrow
  | @cons m _ messages _ hstores _ ih =>
      rcases List.mem_cons.mp hrow with rfl | hrow
      · exact ⟨m, List.mem_cons_self, hstores⟩
      · obtain ⟨m', hm', hstores'⟩ := ih hrow
        exact ⟨m', List.mem_cons_of_mem m hm', hstores'⟩

theorem StoresAll.allStored {log : AuditTable Json} (h : StoresAll json messages log.rows) :
    AllStored json log := by
  intro row hrow
  obtain ⟨m, -, hstores⟩ := h.exists_message hrow
  exact ⟨m.1, hstores⟩

/-- Only a remote insert command of the broker is selected, and it is read back. -/
theorem replayOf_selected {row : MessageLog Json} {message : StandardAuditMessage}
    (h : Stores json row message) {brokerId : ℤ} {now : DateTime}
    (hselected : Unacknowledged brokerId (DateTime.addDays (DateTime.today now) 1) row)
    {command : InsertDocumentIntoRemoteBackOfficeCommand}
    (hread : json.deserialize row.body = .ok command) :
    replayOf brokerId now row message = some ⟨toString brokerId, row.id, command⟩ := by
  obtain ⟨c, rfl, hc, hbroker, -, -⟩ := h.deserialize hselected.messageType
  obtain rfl : c = command := by
    rw [hc] at hread
    exact Except.ok.inj hread
  exact if_pos ⟨hbroker.symm.trans hselected.brokerId, hselected.completionDate,
    hselected.retries, hselected.createDate⟩

theorem replayOf_unselected {row : MessageLog Json} {message : StandardAuditMessage}
    (h : Stores json row message) {brokerId : ℤ} {now : DateTime}
    (hselected : ¬Unacknowledged brokerId (DateTime.addDays (DateTime.today now) 1) row) :
    replayOf brokerId now row message = none := by
  cases message with
  | insertDocumentIntoRemoteBackOfficeCommand c =>
      refine if_neg fun hopen => hselected ?_
      exact ⟨h.brokerId.trans hopen.1, hopen.2.1, hopen.2.2.1, h.messageType, hopen.2.2.2⟩
  | _ => rfl

/-- What the loop pushes for the rows that the query selects. -/
theorem replays_eq (h : StoresAll json messages rows) (brokerId : ℤ) (now : DateTime)
    {read : List (MessageLog Json × InsertDocumentIntoRemoteBackOfficeCommand)}
    (hread : deserializeAll json
      (rows.filter (isUnacknowledged brokerId (DateTime.addDays (DateTime.today now) 1))) =
        .ok read) :
    (read.map fun m => (⟨toString brokerId, m.1.id, m.2⟩ : Replay)) =
      (messages.zip rows).filterMap fun p => replayOf brokerId now p.2 p.1.1 := by
  induction h generalizing read with
  | nil =>
      obtain rfl : [] = read := by simpa [deserializeAll] using hread
      rfl
  | @cons m row messages rows hstores _ ih =>
      rw [List.zip_cons_cons, List.filterMap_cons]
      by_cases hselected :
          isUnacknowledged brokerId (DateTime.addDays (DateTime.today now) 1) row = true
      · rw [List.filter_cons_of_pos hselected] at hread
        obtain ⟨c, rest, hc, hrest, rfl⟩ := deserializeAll_cons hread
        rw [replayOf_selected hstores (isUnacknowledged_iff.mp hselected) hc, List.map_cons,
          ih hrest]
      · rw [List.filter_cons_of_neg hselected] at hread
        rw [replayOf_unselected hstores fun h => hselected (isUnacknowledged_iff.mpr h)]
        exact ih hread

/-- In a log of stored messages every selected text can be read, and every replayed
command finds a row of its broker: only external calls can throw. -/
theorem replayCalm_of_stored {log : AuditTable Json} (hlog : AllStored json log) {brokerId : ℤ}
    {env : Environment} (hquery : env.query.isOk = true)
    (hpush : ∀ i, (env.push i).isOk = true) (hupdate : ∀ i, (env.update i).isOk = true) :
    ReplayCalm json env log brokerId := by
  have hselected : ∀ m ∈ unacknowledged log brokerId env.now, ∃ c,
      json.deserialize m.body = .ok c ∧ m.brokerId = c.brokerId := by
    intro m hm
    obtain ⟨hrow, hm⟩ := mem_unacknowledged.mp hm
    obtain ⟨message, hstores⟩ := hlog m hrow
    obtain ⟨c, -, hc, hbroker, -⟩ := hstores.deserialize hm.messageType
    exact ⟨c, hc, hbroker⟩
  refine ⟨hquery, fun m hm => ?_, fun i _ => hpush i, fun i _ => hupdate i, fun m hm c hc => ?_⟩
  · obtain ⟨c, hc, -⟩ := hselected m hm
    rw [hc]
    rfl
  · obtain ⟨c', hc', hbroker⟩ := hselected m hm
    obtain rfl : c' = c := by
      rw [hc'] at hc
      exact Except.ok.inj hc
    exact ⟨m, (mem_unacknowledged.mp hm).1, hbroker⟩

end Stored

/-- No external call throws, and the claims of the user can be parsed. -/
structure NothingThrows (context : HubCallerContext) (env : Environment) : Prop where
  registers : registers context env = true
  query : env.query.isOk = true
  push : ∀ i, (env.push i).isOk = true
  update : ∀ i, (env.update i).isOk = true

/-- A connect that returns has pushed, row by row, what the open rows call for. -/
theorem onConnected_replays {json : JsonSerializer Json}
    {messages : List (StandardAuditMessage × Headers)} {context : HubCallerContext}
    {env : Environment} {s t : HubState Json} {brokerId : ℤ}
    (hstores : StoresAll json messages s.messageLog.rows)
    (hbroker : context.user.brokerId = .ok brokerId)
    (ht : exec (onConnected json context env) s = (.ok (), t)) :
    t.replayed = s.replayed ++ (messages.zip s.messageLog.rows).filterMap fun p =>
      replayOf brokerId env.now p.2 p.1.1 := by
  obtain ⟨b, read, hb, hread, hreplayed, -⟩ := onConnected_ok hstores.allStored ht
  obtain rfl : brokerId = b := by
    rw [hbroker] at hb
    exact Except.ok.inj hb
  rw [hreplayed, replays_eq hstores brokerId env.now hread]

/-- For every sequence of audited messages, and whatever has happened to the
completion dates and counters of their rows: a connect in which nothing throws
returns, and one that returns has pushed, row by row, the audited commands of the
broker whose rows are open. -/
theorem replay_complete_and_faithful (json : JsonSerializer Json)
    (messages : List (StandardAuditMessage × Headers)) (context : HubCallerContext)
    (env : Environment) (s : HubState Json) (brokerId : ℤ)
    (hlog : SameRecords (auditAll json messages) s.messageLog)
    (hbroker : context.user.brokerId = .ok brokerId) :
    (NothingThrows context env → Returns (onConnected json context env) s) ∧
      ∀ t, exec (onConnected json context env) s = (.ok (), t) →
        t.replayed = s.replayed ++ (messages.zip s.messageLog.rows).filterMap fun p =>
          replayOf brokerId env.now p.2 p.1.1 := by
  have hstores := (storesAll_auditAll json messages).sameRecords hlog
  constructor
  · intro h
    refine onConnected_returns.mpr ⟨h.registers, fun _ _ => ?_⟩
    exact replayCalm_of_stored hstores.allStored h.query h.push h.update
  · exact fun t ht => onConnected_replays hstores hbroker ht

/-- Four messages are audited. The first one is completed, the second has been
replayed nine times, the third is no command, the fourth is another broker's. -/
def fourMessages : List (StandardAuditMessage × Headers) :=
  [(.insertDocumentIntoRemoteBackOfficeCommand (insertCommand 7 123), []),
    (.insertDocumentIntoRemoteBackOfficeCommand (insertCommand 8 123), []),
    (.documentDownloadedEvent ⟨⟨9, 8, 123, 0⟩, [1]⟩, []),
    (.insertDocumentIntoRemoteBackOfficeCommand (insertCommand 10 456), [])]

def fourRows : HubState PropertyText where
  brokerConnections := .empty
  messageLog := addRetries
    (completeCorrelatedMessages (auditAll (JsonSerializer.byProperties 5 99) fourMessages) 7 0) 2 9
  published := []
  replayed := []

theorem one_of_four_replayed :
    ∃ t, exec (onConnected (JsonSerializer.byProperties 5 99) ⟨"conn1", principal "123" "0"⟩
        (Environment.calm 0)) fourRows = (.ok (), t) ∧
      t.replayed = [⟨"123", 2, insertCommand 8 123⟩] := by
  have hrecords : SameRecords (auditAll (JsonSerializer.byProperties 5 99) fourMessages)
      fourRows.messageLog := by
    refine .cons ?_ (.cons ?_ (.cons ?_ (.cons ?_ .nil))) <;>
      exact ⟨rfl, rfl, rfl, rfl, rfl, rfl, rfl, rfl⟩
  have h := replay_complete_and_faithful (JsonSerializer.byProperties 5 99) fourMessages
    ⟨"conn1", principal "123" "0"⟩ (Environment.calm 0) fourRows 123 hrecords rfl
  obtain ⟨_, t, ht⟩ := h.1 ⟨rfl, rfl, fun _ => rfl, fun _ => rfl⟩
  exact ⟨t, ht, h.2 t ht⟩

/-- The messages that the audit endpoint has handled in these events. -/
def auditedIn (events : List HubEvent) : List (StandardAuditMessage × Headers) :=
  events.filterMap fun
    | .audited message headers => some (message, headers)
    | _ => none

section Runs
variable {json : JsonSerializer Json} {messages : List (StandardAuditMessage × Headers)}
  {log log' : AuditTable Json}

theorem StoresAll.onlyRetries (h : StoresAll json messages log.rows) (hlog : OnlyRetries log log') :
    StoresAll json messages log'.rows := by
  have hmap : List.Forall₂ Eq (log.rows.map fun m => { m with retries := 0 })
      (log'.rows.map fun m => { m with retries := 0 }) := by
    rw [List.forall₂_eq_eq_eq]
    exact hlog.2.symm
  refine h.sameRecords ?_
  refine (List.forall₂_map_left_iff.mp (List.forall₂_map_right_iff.mp hmap)).imp ?_
  intro m n hmn
  cases m
  cases n
  simp only [MessageLog.mk.injEq] at hmn
  obtain ⟨rfl, rfl, rfl, rfl, -, rfl, rfl, rfl, -, rfl⟩ := hmn
  exact ⟨rfl, rfl, rfl, rfl, rfl, rfl, rfl, rfl⟩

theorem StoresAll.complete (h : StoresAll json messages log.rows) (correlationId : Guid)
    (now : DateTime) :
    StoresAll json messages (completeCorrelatedMessages log correlationId now).rows := by
  refine h.sameRecords ?_
  rw [completeCorrelatedMessages, Table.rows_update, List.forall₂_map_right_iff]
  exact List.forall₂_same.mpr fun m _ => complete_sameRecord correlationId now m

theorem storesAll_other {es : List HubEvent} {e : HubEvent} (hother : auditedIn [e] = [])
    (h : StoresAll json (auditedIn es) log.rows) :
    StoresAll json (auditedIn (es ++ [e])) log.rows := by
  have happend : auditedIn (es ++ [e]) = auditedIn es ++ auditedIn [e] := List.filterMap_append
  rw [happend, hother, List.append_nil]
  exact h

/-- The log of a run holds the rows of the messages audited in it. -/
theorem storesAll_run {es : List HubEvent} {s : HubRun Json}
    (h : (hub json).run (hub json).init es = some s) :
    StoresAll json (auditedIn es) s.hub.messageLog.rows := by
  have hstart : StoresAll json (auditedIn []) (hub json).init.hub.messageLog.rows := .nil
  refine Machine.run_history (P := fun es s => StoresAll json (auditedIn es) s.hub.messageLog.rows)
    hstart ?_ h
  intro es s e t _ hs hstep
  rw [hub_step_eq_some] at hstep
  subst hstep
  cases e with
  | audited message headers =>
      rw [auditedIn, List.filterMap_append]
      exact forall₂_concat hs (create_stores json message headers _)
  | onConnected context env =>
      exact storesAll_other rfl (hs.onlyRetries (onConnected_replayed json context env s.hub).1)
  | onReconnected context env =>
      refine storesAll_other rfl (hs.onlyRetries ?_)
      rw [HubRuns.step, HubRun.arrive, (onReconnected_log context env s.hub).1]
      exact OnlyRetries.refl _
  | onDisconnected context env =>
      refine storesAll_other rfl (hs.onlyRetries ?_)
      rw [HubRuns.step, HubRun.depart, (onDisconnected_log context env s.hub).1]
      exact OnlyRetries.refl _
  | posted ack now =>
      apply storesAll_other rfl
      cases hsuccess : ack.success with
      | false =>
          simp only [HubRuns.step, post, hsuccess]
          exact hs
      | true =>
          simp only [HubRuns.step, post, hsuccess]
          exact hs.complete ack.correlationId now
  | completed correlationId now => exact storesAll_other rfl (hs.complete correlationId now)

/-- In every run, a connect that returns has pushed the commands that were audited
for its broker in the run and are still open. -/
theorem replay_in_runs {es : List HubEvent} {s : HubRun Json}
    (h : (hub json).run (hub json).init es = some s) {context : HubCallerContext}
    {env : Environment} {t : HubState Json} {brokerId : ℤ}
    (hbroker : context.user.brokerId = .ok brokerId)
    (ht : exec (onConnected json context env) s.hub = (.ok (), t)) :
    t.replayed = s.hub.replayed ++ ((auditedIn es).zip s.hub.messageLog.rows).filterMap fun p =>
      replayOf brokerId env.now p.2 p.1.1 :=
  onConnected_replays (storesAll_run h) hbroker ht

end Runs

end ReliableSignalR.ReplayFidelity
