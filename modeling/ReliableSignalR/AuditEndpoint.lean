import ReliableSignalR.KeyedTable
import ReliableSignalR.Messages

/-!
# The audit endpoint and its message log

Every standard message that an endpoint handled without an exception is
forwarded to the audit queue and becomes a row of the log. Completion arrives on
two other ways: an acknowledgement posted to the web API, and a completion
message on the audit queue. Both mark the rows of one correlation that exist at
that moment.

`Stores` says that a row is what the factory made from a message, up to the two
columns that change afterwards.
-/
namespace ReliableSignalR.AuditEndpoint
open DotNet Messages KeyedTable

variable {Json : Type}

/-- The counter `retries` is an `int` in the source. It is taken to stay below 2^31,
where it would start again from the least `int`. -/
structure MessageLog (Json : Type) where
  id : ℕ
  createDate : DateTime
  messageId : Guid
  correlationId : Guid
  completionDate : Option DateTime
  body : Json
  headers : String
  messageType : String
  retries : ℕ
  brokerId : ℤ
deriving DecidableEq, Repr

abbrev AuditTable (Json : Type) := Table (MessageLog Json) MessageLog.id

abbrev Headers := List (String × String)

def extractHeaders (headers : Headers) : String :=
  headers.foldl (fun text header => text ++ (header.1 ++ "=" ++ header.2 ++ "; ")) ""

/-- `MessageLogFactory.Create`; the key is drawn when the row is saved. -/
def create (json : JsonSerializer Json) (message : StandardAuditMessage) (headers : Headers)
    (id : ℕ) : MessageLog Json where
  id := id
  createDate := message.message.createDate
  messageId := message.message.id
  correlationId := message.message.correlationId
  completionDate := none
  body := json.serialize message
  headers := extractHeaders headers
  messageType := message.toString
  retries := 0
  brokerId := message.message.brokerId

@[simp] theorem create_id (json : JsonSerializer Json) (message : StandardAuditMessage)
    (headers : Headers) (id : ℕ) : (create json message headers id).id = id := rfl

/-- `SuccessfulMessageHandler.Handle` -/
def handleStandardAuditMessage (json : JsonSerializer Json) (log : AuditTable Json)
    (message : StandardAuditMessage) (headers : Headers) : AuditTable Json :=
  log.insert (create json message headers) (create_id json message headers)

def complete (correlationId : Guid) (now : DateTime) (m : MessageLog Json) : MessageLog Json :=
  if m.correlationId = correlationId then { m with completionDate := some now } else m

@[simp] theorem complete_id (correlationId : Guid) (now : DateTime) (m : MessageLog Json) :
    (complete correlationId now m).id = m.id := by
  unfold complete
  split <;> rfl

/-- `CompletionService.CompleteCorrelatedMessages` -/
def completeCorrelatedMessages (log : AuditTable Json) (correlationId : Guid) (now : DateTime) :
    AuditTable Json :=
  log.update (complete correlationId now) (complete_id correlationId now)

/-- `AcknowledgementController.Post`: the log after the request and the
correlation ids of the `CompleteAgreementSagaCommand`s that it sends. -/
def post (log : AuditTable Json) (ack : SendAcknowledgementCommand) (now : DateTime) :
    AuditTable Json × List Guid :=
  if !ack.success then (log, [])
  else (completeCorrelatedMessages log ack.correlationId now, [ack.correlationId])

/-- What holds of the log and, if `Success` is posted, of the completed one holds after
the request. -/
theorem post_log {P : AuditTable Json → Prop} {log : AuditTable Json}
    {ack : SendAcknowledgementCommand} {now : DateTime} (hlog : P log)
    (hcomplete : ack.success = true →
      P (completeCorrelatedMessages log ack.correlationId now)) : P (post log ack now).1 := by
  unfold post
  cases hsuccess : ack.success with
  | false => exact hlog
  | true => exact hcomplete hsuccess

/-- The request sends for the completion of the acknowledged correlation only. -/
theorem mem_post_sent {log : AuditTable Json} {ack : SendAcknowledgementCommand} {now : DateTime}
    {c : Guid} : c ∈ (post log ack now).2 ↔ ack.success = true ∧ c = ack.correlationId := by
  unfold post
  cases ack.success <;> simp

/-- `CompletionMessageHandler.Handle` -/
def handleCompletionAuditMessage (log : AuditTable Json) (correlationId : Guid) (now : DateTime) :
    AuditTable Json :=
  completeCorrelatedMessages log correlationId now

/-- `UpdateMessageRetries` saves one row with its counter raised by `k`. -/
def addRetries (log : AuditTable Json) (id k : ℕ) : AuditTable Json :=
  log.update (fun m => if m.id = id then { m with retries := m.retries + k } else m)
    fun m => by split <;> rfl

/-- The row holds the data that the factory took from the message. -/
structure Stores (json : JsonSerializer Json) (m : MessageLog Json)
    (message : StandardAuditMessage) : Prop where
  createDate : m.createDate = message.message.createDate
  messageId : m.messageId = message.message.id
  correlationId : m.correlationId = message.message.correlationId
  body : m.body = json.serialize message
  messageType : m.messageType = message.toString
  brokerId : m.brokerId = message.message.brokerId

theorem create_stores (json : JsonSerializer Json) (message : StandardAuditMessage)
    (headers : Headers) (id : ℕ) : Stores json (create json message headers id) message :=
  ⟨rfl, rfl, rfl, rfl, rfl, rfl⟩

/-- A row tagged as a remote insert command gives that command back. -/
theorem Stores.deserialize {json : JsonSerializer Json} {m : MessageLog Json}
    {message : StandardAuditMessage} (h : Stores json m message)
    (htype : m.messageType = remoteCommandType) :
    ∃ c, message = .insertDocumentIntoRemoteBackOfficeCommand c ∧
      json.deserialize m.body = .ok c ∧ m.brokerId = c.brokerId ∧
      m.correlationId = c.correlationId ∧ m.createDate = c.createDate := by
  obtain ⟨c, rfl⟩ := StandardAuditMessage.toString_eq_remote.mp (h.messageType.symm.trans htype)
  refine ⟨c, rfl, ?_, h.brokerId, h.correlationId, h.createDate⟩
  rw [h.body, json.restores]

/-- The columns that no completion and no replay writes. -/
structure SameRecord (m n : MessageLog Json) : Prop where
  id : n.id = m.id
  createDate : n.createDate = m.createDate
  messageId : n.messageId = m.messageId
  correlationId : n.correlationId = m.correlationId
  body : n.body = m.body
  headers : n.headers = m.headers
  messageType : n.messageType = m.messageType
  brokerId : n.brokerId = m.brokerId

theorem SameRecord.stores {json : JsonSerializer Json} {m n : MessageLog Json}
    {message : StandardAuditMessage} (h : SameRecord m n) (hm : Stores json m message) :
    Stores json n message :=
  ⟨h.createDate.trans hm.createDate, h.messageId.trans hm.messageId,
    h.correlationId.trans hm.correlationId, h.body.trans hm.body,
    h.messageType.trans hm.messageType, h.brokerId.trans hm.brokerId⟩

theorem complete_sameRecord (correlationId : Guid) (now : DateTime) (m : MessageLog Json) :
    SameRecord m (complete correlationId now m) := by
  unfold complete
  split <;> exact ⟨rfl, rfl, rfl, rfl, rfl, rfl, rfl, rfl⟩

@[simp] theorem complete_retries (correlationId : Guid) (now : DateTime) (m : MessageLog Json) :
    (complete correlationId now m).retries = m.retries := by
  unfold complete
  split <;> rfl

/-- A completed row stays completed, and the rows of the correlation become so. -/
theorem complete_completionDate (correlationId : Guid) (now : DateTime) (m : MessageLog Json) :
    (complete correlationId now m).completionDate ≠ none ↔
      m.completionDate ≠ none ∨ m.correlationId = correlationId := by
  unfold complete
  by_cases h : m.correlationId = correlationId
  · simp [h]
  · simp [h]

/-- Every row of the log was made from some audited message. -/
def AllStored (json : JsonSerializer Json) (log : AuditTable Json) : Prop :=
  ∀ m ∈ log.rows, ∃ message, Stores json m message

theorem AllStored.empty (json : JsonSerializer Json) : AllStored json Table.empty := by
  intro m hm
  cases hm

theorem AllStored.insert {json : JsonSerializer Json} {log : AuditTable Json}
    (h : AllStored json log) (message : StandardAuditMessage) (headers : Headers) :
    AllStored json (handleStandardAuditMessage json log message headers) := by
  intro m hm
  rw [handleStandardAuditMessage, Table.rows_insert, List.mem_append] at hm
  rcases hm with hm | hm
  · exact h m hm
  · rw [List.mem_singleton.mp hm]
    exact ⟨message, create_stores json message headers _⟩

theorem AllStored.update {json : JsonSerializer Json} {log : AuditTable Json}
    (h : AllStored json log) {f : MessageLog Json → MessageLog Json}
    (hf : ∀ m, SameRecord m (f m)) (hkey : ∀ m, (f m).id = m.id) :
    AllStored json (log.update f hkey) := by
  intro m hm
  obtain ⟨n, hn, rfl⟩ := List.mem_map.mp hm
  obtain ⟨message, hstores⟩ := h n hn
  exact ⟨message, (hf n).stores hstores⟩

theorem AllStored.complete {json : JsonSerializer Json} {log : AuditTable Json}
    (h : AllStored json log) (correlationId : Guid) (now : DateTime) :
    AllStored json (completeCorrelatedMessages log correlationId now) :=
  h.update (complete_sameRecord correlationId now) _

/-- The logs agree but for the retry counters. -/
def OnlyRetries (before after : AuditTable Json) : Prop :=
  after.next = before.next ∧
    after.rows.map (fun m => { m with retries := 0 }) =
      before.rows.map (fun m => { m with retries := 0 })

theorem OnlyRetries.refl (log : AuditTable Json) : OnlyRetries log log := ⟨rfl, rfl⟩

theorem OnlyRetries.trans {a b c : AuditTable Json} (h : OnlyRetries a b)
    (k : OnlyRetries b c) : OnlyRetries a c :=
  ⟨k.1.trans h.1, k.2.trans h.2⟩

theorem OnlyRetries.symm {a b : AuditTable Json} (h : OnlyRetries a b) : OnlyRetries b a :=
  ⟨h.1.symm, h.2.symm⟩

theorem addRetries_onlyRetries (log : AuditTable Json) (id k : ℕ) :
    OnlyRetries log (addRetries log id k) := by
  refine ⟨rfl, ?_⟩
  rw [addRetries, Table.rows_update, List.map_map]
  refine List.map_congr_left fun m _ => ?_
  simp only [Function.comp_apply]
  split <;> rfl

theorem addRetries_zero (log : AuditTable Json) (id : ℕ) : addRetries log id 0 = log := by
  refine Table.ext_rows ?_ rfl
  rw [addRetries, Table.rows_update]
  refine (List.map_congr_left fun m _ => ?_).trans (List.map_id _)
  split <;> rfl

theorem addRetries_addRetries (log : AuditTable Json) (id j k : ℕ) :
    addRetries (addRetries log id j) id k = addRetries log id (j + k) := by
  refine Table.ext_rows ?_ rfl
  simp only [addRetries, Table.rows_update, List.map_map]
  refine List.map_congr_left fun m _ => ?_
  by_cases h : m.id = id
  · simp [h, Nat.add_assoc]
  · simp [h]

/-- Each row afterwards is a row from before with another counter. -/
theorem OnlyRetries.exists_row {a b : AuditTable Json} (h : OnlyRetries a b)
    {n : MessageLog Json} (hn : n ∈ b.rows) :
    ∃ m ∈ a.rows, n = { m with retries := n.retries } := by
  have hmem : { n with retries := 0 } ∈ a.rows.map fun m => { m with retries := 0 } := by
    rw [← h.2]
    exact List.mem_map_of_mem hn
  obtain ⟨m, hm, heq⟩ := List.mem_map.mp hmem
  refine ⟨m, hm, ?_⟩
  cases m
  cases n
  simpa using heq.symm

theorem OnlyRetries.allStored {json : JsonSerializer Json} {a b : AuditTable Json}
    (h : OnlyRetries a b) (ha : AllStored json a) : AllStored json b := by
  intro n hn
  obtain ⟨m, hm, heq⟩ := h.exists_row hn
  obtain ⟨message, hstores⟩ := ha m hm
  refine ⟨message, ?_⟩
  rw [heq]
  exact ⟨hstores.createDate, hstores.messageId, hstores.correlationId, hstores.body,
    hstores.messageType, hstores.brokerId⟩

end ReliableSignalR.AuditEndpoint
