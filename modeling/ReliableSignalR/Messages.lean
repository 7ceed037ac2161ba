import ReliableSignalR.DotNet

/-!
# Messages on the bus and on the hub connection

`Message` holds the four properties that every message inherits. The audit
endpoint treats a message by its abstract class: a `StandardAuditMessage` becomes
a row of the message log, a `CompletionAuditMessage` completes rows, and a
`SignalRAuditMessage` is neither.

JSON is the work of a library outside the repository. `JsonSerializer` names the
two calls made to it together with the one behaviour that is relied upon: the
runtime type is written and every public settable property is restored. The
text is an abstract type, since no code of the repository looks into it.
-/
namespace ReliableSignalR.Messages
open DotNet

structure Message where
  id : Guid
  correlationId : Guid
  brokerId : ℤ
  createDate : DateTime
deriving DecidableEq, Repr

structure InsertDocumentIntoBackOfficeCommand extends Message where
  agreementId : ℤ
  document : List UInt8
deriving DecidableEq, Repr

structure InsertDocumentIntoRemoteBackOfficeCommand
  extends InsertDocumentIntoBackOfficeCommand
deriving DecidableEq, Repr

structure InsertDocumentIntoOnlineBackOfficeCommand
  extends InsertDocumentIntoBackOfficeCommand
deriving DecidableEq, Repr

structure DownloadDocumentCommand extends Message where
  attachmentUrl : String
deriving DecidableEq, Repr

structure DocumentDownloadedEvent extends Message where
  compressedDocument : List UInt8
deriving DecidableEq, Repr

structure SubmitAgreementCommand extends Message where
  agreementDocumentUrl : String
  agreementId : ℤ
deriving DecidableEq, Repr

structure AgreementPlacedEvent extends Message where
  agreementDocumentUrl : String
  agreementId : ℤ
deriving DecidableEq, Repr

/-- A `CompletionAuditMessage`, like `CompleteAgreementSagaCommand`. -/
structure OnlineDocumentSuccessfullyInsertedEvent extends Message
deriving DecidableEq, Repr

/-- The concrete classes derived from `StandardAuditMessage`. -/
inductive StandardAuditMessage
  | downloadDocumentCommand (m : DownloadDocumentCommand)
  | insertDocumentIntoRemoteBackOfficeCommand (m : InsertDocumentIntoRemoteBackOfficeCommand)
  | insertDocumentIntoOnlineBackOfficeCommand (m : InsertDocumentIntoOnlineBackOfficeCommand)
  | documentDownloadedEvent (m : DocumentDownloadedEvent)
  | agreementPlacedEvent (m : AgreementPlacedEvent)
deriving DecidableEq, Repr

/-- The inherited properties. -/
def StandardAuditMessage.message : StandardAuditMessage → Message
  | .downloadDocumentCommand m => m.toMessage
  | .insertDocumentIntoRemoteBackOfficeCommand m => m.toMessage
  | .insertDocumentIntoOnlineBackOfficeCommand m => m.toMessage
  | .documentDownloadedEvent m => m.toMessage
  | .agreementPlacedEvent m => m.toMessage

/-- `typeof(InsertDocumentIntoRemoteBackOfficeCommand).ToString()` -/
def remoteCommandType : String :=
  "Messages.Commands.InsertDocumentIntoRemoteBackOfficeCommand"

/-- `ToString`, which no message class overrides: the full name of the type. -/
def StandardAuditMessage.toString : StandardAuditMessage → String
  | .downloadDocumentCommand _ => "Messages.Commands.DownloadDocumentCommand"
  | .insertDocumentIntoRemoteBackOfficeCommand _ => remoteCommandType
  | .insertDocumentIntoOnlineBackOfficeCommand _ =>
      "Messages.Commands.InsertDocumentIntoOnlineBackOfficeCommand"
  | .documentDownloadedEvent _ => "Messages.Events.DocumentDownloadedEvent"
  | .agreementPlacedEvent _ => "Messages.Events.AgreementPlacedEvent"

/-- The type tag singles out the remote insert commands. -/
theorem StandardAuditMessage.toString_eq_remote {m : StandardAuditMessage} :
    m.toString = remoteCommandType ↔
      ∃ c, m = .insertDocumentIntoRemoteBackOfficeCommand c := by
  cases m with
  | insertDocumentIntoRemoteBackOfficeCommand c => exact ⟨fun _ => ⟨c, rfl⟩, fun _ => rfl⟩
  | downloadDocumentCommand c => simp [toString, remoteCommandType]
  | insertDocumentIntoOnlineBackOfficeCommand c => simp [toString, remoteCommandType]
  | documentDownloadedEvent c => simp [toString, remoteCommandType]
  | agreementPlacedEvent c => simp [toString, remoteCommandType]

structure SendAcknowledgementCommand where
  correlationId : Guid
  success : Bool
  errorMessage : Option String
deriving DecidableEq, Repr

structure HubConnectionEvent where
  brokerId : ℤ
  connectionEventType : String
  connectionId : String
deriving DecidableEq, Repr

/-- The serializer at the type the hub reads back. -/
structure JsonSerializer (Json : Type) where
  serialize : StandardAuditMessage → Json
  deserialize : Json → Except Exception InsertDocumentIntoRemoteBackOfficeCommand
  restores : ∀ c, deserialize (serialize (.insertDocumentIntoRemoteBackOfficeCommand c)) = .ok c

/-- A serializer whose text is the message itself. -/
def JsonSerializer.transparent : JsonSerializer StandardAuditMessage where
  serialize m := m
  deserialize
    | .insertDocumentIntoRemoteBackOfficeCommand c => .ok c
    | _ => .error .external
  restores _ := rfl

/-- The value of a public property. The serializer writes the properties of the runtime
type under their names. The deserializer calls the constructor, which draws a fresh id
and date, and then sets each settable property that the text names; other names are
ignored. -/
inductive PropertyValue
  | guid (value : Guid)
  | dateTime (value : DateTime)
  | int (value : ℤ)
  | bytes (value : List UInt8)
  | text (value : String)
deriving DecidableEq, Repr

abbrev PropertyText := List (String × PropertyValue)

def Message.properties (m : Message) : PropertyText :=
  [("CreateDate", .dateTime m.createDate), ("Id", .guid m.id),
    ("CorrelationId", .guid m.correlationId), ("BrokerId", .int m.brokerId)]

def InsertDocumentIntoBackOfficeCommand.properties (m : InsertDocumentIntoBackOfficeCommand) :
    PropertyText :=
  ("AgreementId", .int m.agreementId) :: ("Document", .bytes m.document) :: m.toMessage.properties

def StandardAuditMessage.properties : StandardAuditMessage → PropertyText
  | .downloadDocumentCommand m =>
      ("AttachmentUrl", .text m.attachmentUrl) :: m.toMessage.properties
  | .insertDocumentIntoRemoteBackOfficeCommand m =>
      m.toInsertDocumentIntoBackOfficeCommand.properties
  | .insertDocumentIntoOnlineBackOfficeCommand m =>
      m.toInsertDocumentIntoBackOfficeCommand.properties
  | .documentDownloadedEvent m =>
      ("CompressedDocument", .bytes m.compressedDocument) :: m.toMessage.properties
  | .agreementPlacedEvent m =>
      ("AgreementDocumentUrl", .text m.agreementDocumentUrl) ::
        ("AgreementId", .int m.agreementId) :: m.toMessage.properties

/-- The object as the constructor of `Message` leaves it. -/
def constructed (id : Guid) (createDate : DateTime) : InsertDocumentIntoRemoteBackOfficeCommand :=
  ⟨⟨⟨id, 0, 0, createDate⟩, 0, []⟩⟩

/-- A value of another kind than the property's is an error. -/
def setProperty (c : InsertDocumentIntoRemoteBackOfficeCommand) :
    String × PropertyValue → Except Exception InsertDocumentIntoRemoteBackOfficeCommand
  | ("CreateDate", .dateTime createDate) => .ok { c with createDate }
  | ("Id", .guid id) => .ok { c with id }
  | ("CorrelationId", .guid correlationId) => .ok { c with correlationId }
  | ("BrokerId", .int brokerId) => .ok { c with brokerId }
  | ("AgreementId", .int agreementId) => .ok { c with agreementId }
  | ("Document", .bytes document) => .ok { c with document }
  | (name, _) =>
      if name ∈ ["CreateDate", "Id", "CorrelationId", "BrokerId", "AgreementId", "Document"] then
        .error .external
      else .ok c

def setProperties : InsertDocumentIntoRemoteBackOfficeCommand → PropertyText →
    Except Exception InsertDocumentIntoRemoteBackOfficeCommand
  | c, [] => .ok c
  | c, p :: ps => (setProperty c p).bind fun c => setProperties c ps

/-- What the constructor has drawn is overwritten, whatever it was. -/
theorem setProperties_properties (drawn c : InsertDocumentIntoRemoteBackOfficeCommand) :
    setProperties drawn c.properties = .ok c := rfl

def JsonSerializer.byProperties (id : Guid) (createDate : DateTime) :
    JsonSerializer PropertyText where
  serialize := StandardAuditMessage.properties
  deserialize := setProperties (constructed id createDate)
  restores := setProperties_properties (constructed id createDate)

end ReliableSignalR.Messages
