import ReliableSignalR.EventRuns
import ReliableSignalR.BackOfficeHub

/-!
# What the message log says about its history

The log is written by the audit endpoint and, in its retry counters, by the hub.
A row is completed by the acknowledgements of success and the completion messages
of its correlation that are processed while the row is in the log, and by nothing
else. The state of the machine is the log alone; the statement refers to the
events of the run.
-/
namespace ReliableSignalR.AuditLogRuns
open DotNet Messages KeyedTable RetainedEffects EventRuns
open BrokerConnectionManager AuditEndpoint BackOfficeHub

variable {Json : Type}

/-- One handled message, one request or one transaction of the replay loop. -/
inductive LogEvent
  | audited (message : StandardAuditMessage) (headers : Headers)
  | posted (ack : SendAcknowledgementCommand) (now : DateTime)
  | completed (correlationId : Guid) (now : DateTime)
  | retried (env : Environment) (i : ℕ) (brokerId : ℤ)

def retry (log : AuditTable Json) (env : Environment) (i : ℕ) (brokerId : ℤ) : AuditTable Json :=
  let s : HubState Json := ⟨BrokerConnections.empty, log, [], []⟩
  (exec (updateMessageRetries env i brokerId) s).2.messageLog

def step (json : JsonSerializer Json) (log : AuditTable Json) : LogEvent → AuditTable Json
  | .audited message headers => handleStandardAuditMessage json log message headers
  | .posted ack now => (post log ack now).1
  | .completed correlationId now => handleCompletionAuditMessage log correlationId now
  | .retried env i brokerId => retry log env i brokerId

def auditLog (json : JsonSerializer Json) : Machine (AuditTable Json) LogEvent where
  init := Table.empty
  step log e := some (step json log e)

/-- The events that complete a correlation. -/
def Completes (correlationId : Guid) : LogEvent → Prop
  | .posted ack _ => ack.success = true ∧ ack.correlationId = correlationId
  | .completed c _ => c = correlationId
  | _ => False

def IsRetry : LogEvent → Prop
  | .retried _ _ _ => True
  | _ => False

def HoldsRow (log : AuditTable Json) (id : ℕ) : Prop := ∃ m ∈ log.rows, m.id = id

/-- The row was in the log when an event that completes its correlation came. -/
def CompletedSince (json : JsonSerializer Json) (es : List LogEvent) (m : MessageLog Json) :
    Prop :=
  (auditLog json).Occurs (fun log e => HoldsRow log m.id ∧ Completes m.correlationId e)
    (auditLog json).init es

/-- What an event does to a row: its record stays, it is completed if the event
completes its correlation, and its counter changes in a retry only. -/
structure RowKept (e : LogEvent) (m n : MessageLog Json) : Prop where
  record : SameRecord m n
  completion : n.completionDate ≠ none ↔ m.completionDate ≠ none ∨ Completes m.correlationId e
  retries : ¬IsRetry e → n.retries = m.retries

theorem RowKept.refl {e : LogEvent} (he : ∀ c, ¬Completes c e) (m : MessageLog Json) :
    RowKept e m m where
  record := ⟨rfl, rfl, rfl, rfl, rfl, rfl, rfl, rfl⟩
  completion := by simp only [he, or_false]
  retries _ := rfl

theorem complete_rowKept {e : LogEvent} {correlationId : Guid}
    (he : ∀ c, Completes c e ↔ correlationId = c) (now : DateTime) (m : MessageLog Json) :
    RowKept e m (complete correlationId now m) where
  record := complete_sameRecord correlationId now m
  completion := by
    rw [complete_completionDate, he, eq_comm]
  retries _ := complete_retries correlationId now m

theorem addRetries_rowKept {e : LogEvent} (hretry : IsRetry e) (he : ∀ c, ¬Completes c e)
    (id k : ℕ) (m : MessageLog Json) :
    RowKept e m (if m.id = id then { m with retries := m.retries + k } else m) := by
  have hrefl := RowKept.refl he m
  split
  · exact ⟨⟨rfl, rfl, rfl, rfl, rfl, rfl, rfl, rfl⟩, hrefl.completion,
      fun hnot => absurd hretry hnot⟩
  · exact hrefl

theorem retry_eq (log : AuditTable Json) (env : Environment) (i : ℕ) (brokerId : ℤ) :
    ∃ id k, retry log env i brokerId = addRetries log id k := by
  simp only [retry, updateMessageRetries, exec_bind, exec_call, exec_get]
  cases env.update i with
  | error e => exact ⟨0, 0, (addRetries_zero log 0).symm⟩
  | ok _ =>
      cases hfirst : log.first? fun a => a.brokerId == brokerId with
      | none =>
          simp only [hfirst, exec_throw]
          exact ⟨0, 0, (addRetries_zero log 0).symm⟩
      | some m =>
          simp only [hfirst, exec_modify]
          exact ⟨m.id, 1, rfl⟩

/-- All that a step does to the rows: the old ones are kept in their order, and
what is appended is new and not completed. -/
theorem step_rows (json : JsonSerializer Json) (log : AuditTable Json) (e : LogEvent) :
    ∃ f new, (step json log e).rows = log.rows.map f ++ new ∧ (∀ m, RowKept e m (f m)) ∧
      ∀ n ∈ new, n.id = log.next ∧ n.completionDate = none := by
  cases e with
  | audited message headers =>
      refine ⟨id, [create json message headers log.next], ?_, ?_, ?_⟩
      · rw [List.map_id]
        rfl
      · exact RowKept.refl fun _ h => h
      · intro n hn
        rw [List.mem_singleton.mp hn]
        exact ⟨rfl, rfl⟩
  | posted ack now =>
      cases hsuccess : ack.success with
      | false =>
          refine ⟨id, [], ?_, RowKept.refl ?_, nofun⟩
          · simp only [step, post, hsuccess, Bool.not_false, if_true, List.map_id, List.append_nil]
          · intro c hc
            rw [Completes, hsuccess] at hc
            exact absurd hc.1 Bool.false_ne_true
      | true =>
          refine ⟨complete ack.correlationId now, [], ?_, complete_rowKept ?_ now, nofun⟩
          · simp only [step, post, hsuccess, Bool.not_true, List.append_nil]
            rfl
          · intro c
            exact and_iff_right hsuccess
  | completed correlationId now =>
      refine ⟨complete correlationId now, [], ?_, complete_rowKept (fun _ => Iff.rfl) now, nofun⟩
      rw [List.append_nil]
      rfl
  | retried env i brokerId =>
      obtain ⟨id, k, h⟩ := retry_eq log env i brokerId
      refine ⟨fun m => if m.id = id then { m with retries := m.retries + k } else m, [],
        ?_, ?_, nofun⟩
      · rw [step, h, List.append_nil]
        rfl
      · apply addRetries_rowKept
        · trivial
        · exact fun _ h => h

theorem next_le_step (json : JsonSerializer Json) (log : AuditTable Json) (e : LogEvent) :
    log.next ≤ (step json log e).next := by
  cases e with
  | audited message headers => exact Nat.le_succ _
  | posted ack now =>
      simp only [step, post]
      split <;> exact Nat.le_refl _
  | completed correlationId now => exact Nat.le_refl _
  | retried env i brokerId =>
      obtain ⟨id, k, h⟩ := retry_eq log env i brokerId
      rw [step, h]
      exact Nat.le_refl _

theorem HoldsRow.lt_next {log : AuditTable Json} {id : ℕ} (h : HoldsRow log id) :
    id < log.next := by
  obtain ⟨m, hm, rfl⟩ := h
  exact log.below m hm

/-- What the log says about the events so far: a row is completed exactly if
it was there when its correlation was completed, and keys are never drawn twice. -/
structure Recorded (json : JsonSerializer Json) (es : List LogEvent) (log : AuditTable Json) :
    Prop where
  completion : ∀ m ∈ log.rows, m.completionDate ≠ none ↔ CompletedSince json es m
  drawn : ∀ id, (auditLog json).Occurs (fun log _ => HoldsRow log id) (auditLog json).init es →
    id < log.next

theorem Recorded.start (json : JsonSerializer Json) :
    Recorded json [] (auditLog json).init where
  completion m hm := by cases hm
  drawn _ h := absurd h Machine.not_occurs_nil

theorem completedSince_concat {json : JsonSerializer Json} {es : List LogEvent}
    {log : AuditTable Json} {e : LogEvent} {m : MessageLog Json}
    (hrun : (auditLog json).run (auditLog json).init es = some log) :
    CompletedSince json (es ++ [e]) m ↔
      CompletedSince json es m ∨ HoldsRow log m.id ∧ Completes m.correlationId e := by
  rw [CompletedSince, Machine.occurs_concat, CompletedSince]
  apply or_congr_right
  constructor
  · intro ⟨t, ht, h⟩
    rw [hrun, Option.some.injEq] at ht
    exact ht ▸ h
  · exact fun h => ⟨log, hrun, h⟩

theorem Recorded.step {json : JsonSerializer Json} {es : List LogEvent} {log : AuditTable Json}
    (hrun : (auditLog json).run (auditLog json).init es = some log) (h : Recorded json es log)
    (e : LogEvent) : Recorded json (es ++ [e]) (step json log e) := by
  have hnext := next_le_step json log e
  constructor
  · intro n hn
    obtain ⟨f, new, hrows, hkept, hnew⟩ := step_rows json log e
    rw [completedSince_concat hrun]
    rw [hrows] at hn
    rcases List.mem_append.mp hn with hn | hn
    · obtain ⟨m, hm, rfl⟩ := List.mem_map.mp hn
      have hrecord := (hkept m).record
      have hholds : HoldsRow log m.id := ⟨m, hm, rfl⟩
      rw [(hkept m).completion, h.completion m hm, CompletedSince, CompletedSince, hrecord.id,
        hrecord.correlationId, and_iff_right hholds]
    · obtain ⟨hid, hdate⟩ := hnew n hn
      have hnever : ¬CompletedSince json es n := by
        intro ⟨as, x, bs, t, heq, ht, hholds, _⟩
        have hlt := h.drawn n.id ⟨as, x, bs, t, heq, ht, hholds⟩
        omega
      have hnot : ¬HoldsRow log n.id := fun hholds => by
        have hlt := hholds.lt_next
        omega
      simp only [hdate, hnever, hnot, ne_eq, not_true, false_and, or_self]
  · intro id hoccurs
    rcases Machine.occurs_concat.mp hoccurs with hold | ⟨t, ht, hholds⟩
    · exact Nat.lt_of_lt_of_le (h.drawn id hold) hnext
    · rw [hrun, Option.some.injEq] at ht
      subst ht
      exact Nat.lt_of_lt_of_le hholds.lt_next hnext

/-- No event removes a row or changes its record, and only retries count. -/
def RowsKept (log : AuditTable Json) (e : LogEvent) (log' : AuditTable Json) : Prop :=
  ∀ m ∈ log.rows, ∃ n ∈ log'.rows, SameRecord m n ∧ (¬IsRetry e → n.retries = m.retries)

theorem auditLog_run (json : JsonSerializer Json) (log : AuditTable Json) (es : List LogEvent) :
    (auditLog json).run log es = some (es.foldl (step json) log) := by
  induction es generalizing log with
  | nil => rfl
  | cons e es ih => exact ih (step json log e)

/-- The completion dates of a log say exactly which rows were in it when their
correlation was completed, and no step loses or rewrites a row. -/
theorem completed_exactly (json : JsonSerializer Json) (es : List LogEvent) :
    (∃ log, (auditLog json).run (auditLog json).init es = some log ∧
      ∀ m ∈ log.rows, m.completionDate ≠ none ↔ CompletedSince json es m) ∧
      (auditLog json).Throughout RowsKept (auditLog json).init es := by
  constructor
  · refine ⟨_, auditLog_run json _ es, ?_⟩
    have hrecorded : Recorded json es (es.foldl (step json) (auditLog json).init) := by
      refine Machine.run_history (Recorded.start json) ?_ (auditLog_run json _ es)
      intro es log e log' hrun h hstep
      rw [← Option.some.inj hstep]
      exact h.step hrun e
    exact hrecorded.completion
  · apply Machine.throughout_of_meets (I := fun _ => True) (C := fun _ _ => True)
    · exact fun _ _ _ _ _ _ => trivial
    · intro log e log' _ _ hstep m hm
      rw [← Option.some.inj hstep]
      obtain ⟨f, new, hrows, hkept, -⟩ := step_rows json log e
      refine ⟨f m, ?_, (hkept m).record, (hkept m).retries⟩
      rw [hrows]
      exact List.mem_append_left new (List.mem_map_of_mem hm)
    · trivial
    · exact Machine.meets_true

end ReliableSignalR.AuditLogRuns
