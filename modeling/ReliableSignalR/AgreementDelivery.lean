import ReliableSignalR.TokenBoard
import ReliableSignalR.AgreementSaga
import ReliableSignalR.RemotePath

/-!
# An agreement on its way through all endpoints

The two buttons of the web site submit an agreement for the one or the other
broker. Its saga has the document downloaded and sends it to the back office of
the broker: to the online one over the bus, to the remote one over the path
through the Hub. Here all endpoints run together in any order.

A bus message is handled in a transaction with its sends and the saga data. It is
consumed when the handler returns and stays in its queue when the handler throws,
until it is forwarded to the error queue of its endpoint. A message for a saga
that does not exist is consumed without effect. So each message of the five queues
below is handled to its end once at most; the remote path, and the completion that
comes back from it, can deliver what they carry more than once.
-/
namespace ReliableSignalR.AgreementDelivery
open DotNet EventRuns Messages TokenBoard AgreementSaga RemotePath AuditEndpoint

variable {Json : Type}

/-- `HomeController.SendCommand`; the agreement id is never set. -/
def sendCommand (brokerId : ℤ) (correlationId : Guid) (drawn : Drawn) : SubmitAgreementCommand :=
  ⟨drawn.message correlationId brokerId,
    "https://upload.wikimedia.org/wikipedia/en/f/f4/The_Best_Best_of_Fela_Kuti.jpg", 0⟩

def submitOnlineAgreement : Guid → Drawn → SubmitAgreementCommand := sendCommand 456

def submitRemoteAgreement : Guid → Drawn → SubmitAgreementCommand := sendCommand 123

/-- The event that `InsertDocumentIntoOnlineBackOfficeCommandHandler` publishes. -/
def onlineDocumentSuccessfullyInserted (command : InsertDocumentIntoOnlineBackOfficeCommand)
    (drawn : Drawn) : OnlineDocumentSuccessfullyInsertedEvent :=
  ⟨drawn.message command.correlationId command.brokerId⟩

/-- The queued kinds of message that carry an agreement, each with one handler. -/
inductive Queue
  | submitAgreement
  | downloadDocument
  | documentDownloaded
  | insertOnline
  | onlineInserted
deriving DecidableEq, Repr

inductive FailedMessage
  | submitAgreement (message : SubmitAgreementCommand)
  | downloadDocument (message : DownloadDocumentCommand)
  | documentDownloaded (message : DocumentDownloadedEvent)
  | insertOnline (message : InsertDocumentIntoOnlineBackOfficeCommand)
  | onlineInserted (message : OnlineDocumentSuccessfullyInsertedEvent)
deriving DecidableEq, Repr

namespace FailedMessage

def message : FailedMessage → Message
  | submitAgreement m => m.toMessage
  | downloadDocument m => m.toMessage
  | documentDownloaded m => m.toMessage
  | insertOnline m => m.toMessage
  | onlineInserted m => m.toMessage

def queue : FailedMessage → Queue
  | submitAgreement _ => .submitAgreement
  | downloadDocument _ => .downloadDocument
  | documentDownloaded _ => .documentDownloaded
  | insertOnline _ => .insertOnline
  | onlineInserted _ => .onlineInserted

end FailedMessage

/-- `agreements` holds the sagas and every message that was ever sent. The queues
hold what has not been handled, `errors` the contents of the error queues.
`insertedOnline` lists the commands whose document was written in the online back
office and `completedOnline` the sagas that its events have completed. -/
structure Delivery (Json : Type) where
  agreements : Agreements
  submitQueue : List SubmitAgreementCommand
  downloadQueue : List DownloadDocumentCommand
  downloadedQueue : List DocumentDownloadedEvent
  onlineQueue : List InsertDocumentIntoOnlineBackOfficeCommand
  insertedQueue : List OnlineDocumentSuccessfullyInsertedEvent
  insertedOnline : List InsertDocumentIntoOnlineBackOfficeCommand
  completedOnline : List Guid
  errors : List FailedMessage
  path : Path Json

inductive DeliveryEvent
  | submitOnlineAgreement (correlationId : Guid) (drawn : Drawn)
  | submitRemoteAgreement (correlationId : Guid) (drawn : Drawn)
  | submitHandled (position : ℕ) (now : DateTime) (drawn : Drawn)
  | downloadHandled (position : ℕ) (response : Except Exception HttpResponse) (drawn : Drawn)
  | documentDownloadedHandled (position : ℕ) (now : DateTime) (drawn : Drawn)
  | insertOnlineHandled (position : ℕ) (drawn : Drawn) (outcome : Except Exception Unit)
  | onlineDocumentInsertedHandled (position : ℕ)
  | completeAgreementSagaHandled (position : ℕ) (consumed : Bool)
  | onlineCompletionAudited (position : ℕ) (now : DateTime)
  | forwarded (queue : Queue) (position : ℕ)
  | path (event : PathEvent)

namespace Delivery

def initial : Delivery Json :=
  ⟨Agreements.initial, [], [], [], [], [], [], [], [], Path.initial⟩

def submit (s : Delivery Json) (command : SubmitAgreementCommand) : Delivery Json :=
  { s with
    agreements := { s.agreements with submitted := s.agreements.submitted ++ [command] }
    submitQueue := s.submitQueue ++ [command] }

def handleSubmit (s : Delivery Json) (position : ℕ) (command : SubmitAgreementCommand)
    (now : DateTime) (drawn : Drawn) : Delivery Json :=
  let data := (s.agreements.sagas command.correlationId).getD AgreementSagaData.created
  { s with
    agreements := s.agreements.submit command now drawn
    submitQueue := s.submitQueue.eraseIdx position
    downloadQueue := s.downloadQueue ++ [(handleSubmitAgreementCommand data command now drawn).2] }

/-- The request was made even if the handler throws because of its answer. -/
def handleDownload (compressWithGzip : List UInt8 → List UInt8) (s : Delivery Json)
    (position : ℕ) (command : DownloadDocumentCommand)
    (response : Except Exception HttpResponse) (drawn : Drawn) : Delivery Json :=
  let s := { s with agreements := s.agreements.download compressWithGzip command response drawn }
  match handleDownloadDocumentCommand compressWithGzip command response drawn with
  | .error _ => s
  | .ok event =>
      { s with
        downloadQueue := s.downloadQueue.eraseIdx position
        downloadedQueue := s.downloadedQueue ++ [event] }

/-- `bus.Send`, by the endpoint mappings of the saga. -/
def send (s : Delivery Json) : InsertDocumentCommand → Delivery Json
  | .remote command => { s with path := s.path.emit command }
  | .online command => { s with onlineQueue := s.onlineQueue ++ [command] }

def handleDocumentDownloaded (s : Delivery Json) (position : ℕ)
    (event : DocumentDownloadedEvent) (now : DateTime) (drawn : Drawn) : Delivery Json :=
  let consumed := { s with
    agreements := s.agreements.sendDocument event now drawn
    downloadedQueue := s.downloadedQueue.eraseIdx position }
  match s.agreements.sagas event.correlationId with
  | none => consumed
  | some data =>
      match handleDocumentDownloadedEvent data event now drawn with
      | .error _ => s
      | .ok (_, command) => consumed.send command

/-- `InsertDocumentIntoOnlineBackOfficeCommandHandler.Handle` writes the document
first, so that the document has been written even if the publishing throws. -/
def handleInsertOnline (s : Delivery Json) (position : ℕ)
    (command : InsertDocumentIntoOnlineBackOfficeCommand) (drawn : Drawn)
    (outcome : Except Exception Unit) : Delivery Json :=
  let s := { s with insertedOnline := s.insertedOnline ++ [command] }
  match outcome with
  | .error _ => s
  | .ok _ =>
      { s with
        onlineQueue := s.onlineQueue.eraseIdx position
        insertedQueue := s.insertedQueue ++ [onlineDocumentSuccessfullyInserted command drawn] }

def handleOnlineInserted (s : Delivery Json) (position : ℕ)
    (event : OnlineDocumentSuccessfullyInsertedEvent) : Delivery Json :=
  { s with
    agreements := s.agreements.markAsComplete event.correlationId
    insertedQueue := s.insertedQueue.eraseIdx position
    completedOnline :=
      if (s.agreements.sagas event.correlationId).isSome then
        event.correlationId :: s.completedOnline
      else s.completedOnline }

def handleCompleteAgreementSaga (s : Delivery Json) (position : ℕ) (consumed : Bool)
    (correlationId : Guid) : Delivery Json :=
  { s with
    agreements := s.agreements.markAsComplete correlationId
    path := s.path.handleCompletion position consumed correlationId }

/-- The saga endpoint's audit of an event that has completed a saga. -/
def auditCompletion (s : Delivery Json) (correlationId : Guid) (now : DateTime) : Delivery Json :=
  { s with
    path := s.path.withLog
      (handleCompletionAuditMessage s.path.hub.messageLog correlationId now) }

/-- A message whose retries are exhausted leaves its queue for the error queue. -/
def forward (s : Delivery Json) (position : ℕ) : Queue → Option (Delivery Json)
  | .submitAgreement =>
      s.submitQueue[position]?.map fun m =>
        { s with
          submitQueue := s.submitQueue.eraseIdx position
          errors := s.errors ++ [.submitAgreement m] }
  | .downloadDocument =>
      s.downloadQueue[position]?.map fun m =>
        { s with
          downloadQueue := s.downloadQueue.eraseIdx position
          errors := s.errors ++ [.downloadDocument m] }
  | .documentDownloaded =>
      s.downloadedQueue[position]?.map fun m =>
        { s with
          downloadedQueue := s.downloadedQueue.eraseIdx position
          errors := s.errors ++ [.documentDownloaded m] }
  | .insertOnline =>
      s.onlineQueue[position]?.map fun m =>
        { s with
          onlineQueue := s.onlineQueue.eraseIdx position
          errors := s.errors ++ [.insertOnline m] }
  | .onlineInserted =>
      s.insertedQueue[position]?.map fun m =>
        { s with
          insertedQueue := s.insertedQueue.eraseIdx position
          errors := s.errors ++ [.onlineInserted m] }

end Delivery

/-- The saga endpoint's part in the remote path is played by the saga itself. -/
def ofPathOnly : PathEvent → Bool
  | .emitted _ | .sagaCompleted .. => false
  | _ => true

def step (json : JsonSerializer Json) (compressWithGzip : List UInt8 → List UInt8)
    (s : Delivery Json) : DeliveryEvent → Option (Delivery Json)
  | .submitOnlineAgreement correlationId drawn =>
      some (s.submit (submitOnlineAgreement correlationId drawn))
  | .submitRemoteAgreement correlationId drawn =>
      some (s.submit (submitRemoteAgreement correlationId drawn))
  | .submitHandled position now drawn =>
      s.submitQueue[position]?.map fun command => s.handleSubmit position command now drawn
  | .downloadHandled position response drawn =>
      s.downloadQueue[position]?.map fun command =>
        s.handleDownload compressWithGzip position command response drawn
  | .documentDownloadedHandled position now drawn =>
      s.downloadedQueue[position]?.map fun event =>
        s.handleDocumentDownloaded position event now drawn
  | .insertOnlineHandled position drawn outcome =>
      s.onlineQueue[position]?.map fun command =>
        s.handleInsertOnline position command drawn outcome
  | .onlineDocumentInsertedHandled position =>
      s.insertedQueue[position]?.map fun event => s.handleOnlineInserted position event
  | .completeAgreementSagaHandled position consumed =>
      s.path.completions[position]?.map (s.handleCompleteAgreementSaga position consumed)
  | .onlineCompletionAudited position now =>
      s.completedOnline[position]?.map fun correlationId => s.auditCompletion correlationId now
  | .forwarded queue position => s.forward position queue
  | .path event =>
      if ofPathOnly event then
        (RemotePath.step json s.path event).map fun path => { s with path }
      else none

def delivery (json : JsonSerializer Json) (compressWithGzip : List UInt8 → List UInt8) :
    Machine (Delivery Json) DeliveryEvent where
  init := Delivery.initial
  step := step json compressWithGzip

/-- What is assumed of `Guid.NewGuid`: the correlation id of a submitted agreement
and the id of an insert command were not drawn before. -/
def NewGuids (s : Delivery Json) : DeliveryEvent → Prop
  | .submitOnlineAgreement correlationId _ | .submitRemoteAgreement correlationId _ =>
      correlationId ∉ s.agreements.submitted.map fun a => a.correlationId
  | .documentDownloadedHandled _ _ drawn => drawn.id ∉ s.path.emitted.map fun c => c.id
  | _ => True

instance (s : Delivery Json) : ∀ e, Decidable (NewGuids s e)
  | .submitOnlineAgreement .. | .submitRemoteAgreement .. | .documentDownloadedHandled .. =>
      inferInstanceAs (Decidable (¬_ ∈ _))
  | .submitHandled .. | .downloadHandled .. | .insertOnlineHandled ..
  | .onlineDocumentInsertedHandled _ | .completeAgreementSagaHandled ..
  | .onlineCompletionAudited .. | .forwarded .. | .path _ => isTrue trivial

end ReliableSignalR.AgreementDelivery
