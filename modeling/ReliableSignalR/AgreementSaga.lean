import Mathlib.Logic.Function.Basic
import Mathlib.Data.List.Nodup
import ReliableSignalR.EventRuns
import ReliableSignalR.Messages

/-!
# The agreement saga and the document downloader

A submitted agreement starts a saga, which has its document downloaded and sends
it on with a command of the kind that its broker needs. The bus gives a message
to the saga instance with the correlation of the message and drops a message that
starts no saga and finds none. A message that was sent stays, so that it can be
delivered any number of times and in any order. A handler that throws is rolled
back, and nothing remains of its run.

`responses` records the answers to the downloader's requests and
`handledDownloads` the events that a saga has handled. No code reads either.
-/
namespace ReliableSignalR.AgreementSaga
open DotNet EventRuns Messages

structure AgreementSagaData where
  brokerId : ℤ
  agreementId : ℤ
  correlationId : Guid
  createDate : DateTime
  documentDownloaded : Option DateTime
deriving DecidableEq, Repr

/-- What the constructor of `Message` draws. -/
structure Drawn where
  id : Guid
  createDate : DateTime
deriving DecidableEq, Repr

def Drawn.message (drawn : Drawn) (correlationId : Guid) (brokerId : ℤ) : Message :=
  ⟨drawn.id, correlationId, brokerId, drawn.createDate⟩

inductive InsertDocumentCommand
  | remote (command : InsertDocumentIntoRemoteBackOfficeCommand)
  | online (command : InsertDocumentIntoOnlineBackOfficeCommand)
deriving DecidableEq, Repr

def InsertDocumentCommand.command : InsertDocumentCommand → InsertDocumentIntoBackOfficeCommand
  | .remote c => c.toInsertDocumentIntoBackOfficeCommand
  | .online c => c.toInsertDocumentIntoBackOfficeCommand

/-- The broker that a kind of command is for. -/
def InsertDocumentCommand.broker : InsertDocumentCommand → ℤ
  | .remote _ => 123
  | .online _ => 456

structure BackOfficeStrategy where
  isApplicable : ℤ → Bool
  sendDocument : Drawn → List UInt8 → Guid → ℤ → ℤ → InsertDocumentCommand

def insertDocument (drawn : Drawn) (document : List UInt8) (correlationId : Guid)
    (brokerId agreementId : ℤ) : InsertDocumentIntoBackOfficeCommand :=
  ⟨drawn.message correlationId brokerId, agreementId, document⟩

def onlineStrategy : BackOfficeStrategy where
  isApplicable brokerId := brokerId == 456
  sendDocument drawn document correlationId brokerId agreementId :=
    .online ⟨insertDocument drawn document correlationId brokerId agreementId⟩

def remoteStrategy : BackOfficeStrategy where
  isApplicable brokerId := brokerId == 123
  sendDocument drawn document correlationId brokerId agreementId :=
    .remote ⟨insertDocument drawn document correlationId brokerId agreementId⟩

/-- At most one of them applies, so their order does not matter to `First`. -/
def backOfficeStrategies : List BackOfficeStrategy := [onlineStrategy, remoteStrategy]

/-- The data of an instance that has just been created. -/
def AgreementSagaData.created : AgreementSagaData := ⟨0, 0, 0, 0, none⟩

def saveSagaData (data : AgreementSagaData) (command : SubmitAgreementCommand) (now : DateTime) :
    AgreementSagaData :=
  { data with
    brokerId := command.brokerId
    correlationId := command.correlationId
    agreementId := command.agreementId
    createDate := now }

def handleSubmitAgreementCommand (data : AgreementSagaData) (command : SubmitAgreementCommand)
    (now : DateTime) (drawn : Drawn) : AgreementSagaData × DownloadDocumentCommand :=
  (saveSagaData data command now,
    ⟨drawn.message command.correlationId command.brokerId, command.agreementDocumentUrl⟩)

def handleDocumentDownloadedEvent (data : AgreementSagaData) (event : DocumentDownloadedEvent)
    (now : DateTime) (drawn : Drawn) :
    Except Exception (AgreementSagaData × InsertDocumentCommand) :=
  match backOfficeStrategies.find? fun b => b.isApplicable data.brokerId with
  | none => .error .invalidOperationException
  | some backOfficeStrategy =>
      .ok ({ data with documentDownloaded := some now },
        backOfficeStrategy.sendDocument drawn event.compressedDocument event.correlationId
          data.brokerId data.agreementId)

structure HttpResponse where
  isSuccessStatusCode : Bool
  content : List UInt8
deriving DecidableEq, Repr

section Downloader
variable (compressWithGzip : List UInt8 → List UInt8)

def downloadDocument (response : Except Exception HttpResponse) :
    Except Exception (List UInt8) :=
  match response with
  | .error e => .error e
  | .ok r =>
      if !r.isSuccessStatusCode then
        .error (.applicationException "Could not download document")
      else .ok (compressWithGzip r.content)

def handleDownloadDocumentCommand (command : DownloadDocumentCommand)
    (response : Except Exception HttpResponse) (drawn : Drawn) :
    Except Exception DocumentDownloadedEvent :=
  match downloadDocument compressWithGzip response with
  | .error e => .error e
  | .ok documentBytes =>
      .ok ⟨drawn.message command.correlationId command.brokerId, documentBytes⟩

end Downloader

structure Agreements where
  submitted : List SubmitAgreementCommand
  sagas : Guid → Option AgreementSagaData
  downloadCommands : List DownloadDocumentCommand
  responses : List (String × HttpResponse)
  downloadedEvents : List DocumentDownloadedEvent
  handledDownloads : List DocumentDownloadedEvent
  emitted : List InsertDocumentCommand

inductive AgreementEvent
  | submitted (command : SubmitAgreementCommand)
  | submitHandled (position : ℕ) (now : DateTime) (drawn : Drawn)
  | downloadHandled (position : ℕ) (response : Except Exception HttpResponse) (drawn : Drawn)
  | documentDownloadedHandled (position : ℕ) (now : DateTime) (drawn : Drawn)
  | completeAgreementSagaHandled (correlationId : Guid)
  | onlineDocumentInsertedHandled (correlationId : Guid)

namespace Agreements

def initial : Agreements := ⟨[], fun _ => none, [], [], [], [], []⟩

def save (s : Agreements) (correlationId : Guid) (data : AgreementSagaData) : Agreements :=
  { s with sagas := Function.update s.sagas correlationId (some data) }

def submit (s : Agreements) (command : SubmitAgreementCommand) (now : DateTime) (drawn : Drawn) :
    Agreements :=
  let data := (s.sagas command.correlationId).getD AgreementSagaData.created
  let handled := handleSubmitAgreementCommand data command now drawn
  { s.save command.correlationId handled.1 with
    downloadCommands := s.downloadCommands ++ [handled.2] }

def download (compressWithGzip : List UInt8 → List UInt8) (s : Agreements)
    (command : DownloadDocumentCommand) (response : Except Exception HttpResponse)
    (drawn : Drawn) : Agreements :=
  let s := { s with
    responses := s.responses ++ response.toOption.toList.map fun r => (command.attachmentUrl, r) }
  match handleDownloadDocumentCommand compressWithGzip command response drawn with
  | .error _ => s
  | .ok event => { s with downloadedEvents := s.downloadedEvents ++ [event] }

/-- The saga of the event's correlation sends the document on; without a saga the
event is dropped. -/
def sendDocument (s : Agreements) (event : DocumentDownloadedEvent) (now : DateTime)
    (drawn : Drawn) : Agreements :=
  match s.sagas event.correlationId with
  | none => s
  | some data =>
      match handleDocumentDownloadedEvent data event now drawn with
      | .error _ => s
      | .ok (data, command) =>
          { s.save event.correlationId data with
            handledDownloads := s.handledDownloads ++ [event]
            emitted := s.emitted ++ [command] }

/-- `MarkAsComplete` by the saga of the correlation, if there is one. -/
def markAsComplete (s : Agreements) (correlationId : Guid) : Agreements :=
  { s with sagas := Function.update s.sagas correlationId none }

end Agreements

def step (compressWithGzip : List UInt8 → List UInt8) (s : Agreements) :
    AgreementEvent → Option Agreements
  | .submitted command => some { s with submitted := s.submitted ++ [command] }
  | .submitHandled position now drawn =>
      s.submitted[position]?.map fun command => s.submit command now drawn
  | .downloadHandled position response drawn =>
      s.downloadCommands[position]?.map fun command =>
        s.download compressWithGzip command response drawn
  | .documentDownloadedHandled position now drawn =>
      s.downloadedEvents[position]?.map fun event => s.sendDocument event now drawn
  | .completeAgreementSagaHandled correlationId => some (s.markAsComplete correlationId)
  | .onlineDocumentInsertedHandled correlationId => some (s.markAsComplete correlationId)

def agreements (compressWithGzip : List UInt8 → List UInt8) :
    Machine Agreements AgreementEvent where
  init := Agreements.initial
  step := step compressWithGzip

theorem find_strategy {brokerId : ℤ} {b : BackOfficeStrategy}
    (h : (backOfficeStrategies.find? fun b => b.isApplicable brokerId) = some b) :
    brokerId = 456 ∧ b = onlineStrategy ∨ brokerId = 123 ∧ b = remoteStrategy := by
  have hmem := List.mem_of_find?_eq_some h
  have happlies := List.find?_some h
  rw [backOfficeStrategies, List.mem_cons, List.mem_singleton] at hmem
  rcases hmem with rfl | rfl
  · exact Or.inl ⟨by simpa [onlineStrategy] using happlies, rfl⟩
  · exact Or.inr ⟨by simpa [remoteStrategy] using happlies, rfl⟩

theorem handleDocumentDownloadedEvent_ok {data data' : AgreementSagaData}
    {event : DocumentDownloadedEvent} {now : DateTime} {drawn : Drawn}
    {command : InsertDocumentCommand}
    (h : handleDocumentDownloadedEvent data event now drawn = .ok (data', command)) :
    data' = { data with documentDownloaded := some now } ∧
      command.command = insertDocument drawn event.compressedDocument event.correlationId
        data.brokerId data.agreementId ∧ command.broker = data.brokerId := by
  unfold handleDocumentDownloadedEvent at h
  split at h
  · cases h
  · next b hfind =>
    obtain ⟨rfl, rfl⟩ := Prod.mk.inj (Except.ok.inj h)
    rcases find_strategy hfind with ⟨hbroker, rfl⟩ | ⟨hbroker, rfl⟩
    · exact ⟨rfl, rfl, hbroker.symm⟩
    · exact ⟨rfl, rfl, hbroker.symm⟩

section Downloader
variable {compressWithGzip : List UInt8 → List UInt8}

theorem handleDownloadDocumentCommand_ok {command : DownloadDocumentCommand}
    {response : Except Exception HttpResponse} {drawn : Drawn} {event : DocumentDownloadedEvent}
    (h : handleDownloadDocumentCommand compressWithGzip command response drawn = .ok event) :
    event.correlationId = command.correlationId ∧
      ∃ r, response = .ok r ∧ r.isSuccessStatusCode = true ∧
        event.compressedDocument = compressWithGzip r.content := by
  unfold handleDownloadDocumentCommand downloadDocument at h
  cases response with
  | error e => cases h
  | ok r =>
      cases hsuccess : r.isSuccessStatusCode with
      | false => simp [hsuccess] at h
      | true =>
          simp only [hsuccess, Bool.not_true, Bool.false_eq_true, if_false, Except.ok.injEq] at h
          rw [← h]
          exact ⟨rfl, r, rfl, hsuccess, rfl⟩

end Downloader

/-- The document was downloaded from the address and compressed. -/
def DownloadedFrom (compressWithGzip : List UInt8 → List UInt8)
    (responses : List (String × HttpResponse)) (url : String) (document : List UInt8) : Prop :=
  ∃ r, (url, r) ∈ responses ∧ r.isSuccessStatusCode = true ∧ document = compressWithGzip r.content

/-- The command is the one for the agreement. -/
structure Carries (compressWithGzip : List UInt8 → List UInt8)
    (responses : List (String × HttpResponse)) (a : SubmitAgreementCommand)
    (c : InsertDocumentCommand) : Prop where
  correlationId : c.command.correlationId = a.correlationId
  brokerId : c.command.brokerId = a.brokerId
  agreementId : c.command.agreementId = a.agreementId
  document : DownloadedFrom compressWithGzip responses a.agreementDocumentUrl c.command.document
  kind : c.broker = a.brokerId

/-- Every emitted command is that of exactly one submitted agreement. -/
def AgreementsDoNotMix (compressWithGzip : List UInt8 → List UInt8) (s : Agreements) : Prop :=
  ∀ c ∈ s.emitted, ∃ a ∈ s.submitted, Carries compressWithGzip s.responses a c ∧
    ∀ a' ∈ s.submitted, a'.correlationId = c.command.correlationId → a' = a

/-- The assumption on submitted agreements: their correlation ids differ. -/
def NewCorrelation (s : Agreements) : AgreementEvent → Prop
  | .submitted command => command.correlationId ∉ s.submitted.map fun a => a.correlationId
  | _ => True

instance (s : Agreements) : ∀ e, Decidable (NewCorrelation s e)
  | .submitted _ => inferInstanceAs (Decidable (¬_ ∈ _))
  | .submitHandled _ _ _ | .downloadHandled _ _ _ | .documentDownloadedHandled _ _ _
  | .completeAgreementSagaHandled _ | .onlineDocumentInsertedHandled _ => isTrue trivial

structure SagaOf (s : Agreements) (c : Guid) (data : AgreementSagaData)
    (a : SubmitAgreementCommand) : Prop where
  submitted : a ∈ s.submitted
  correlationId : a.correlationId = c
  mapped : data.correlationId = c
  brokerId : data.brokerId = a.brokerId
  agreementId : data.agreementId = a.agreementId

structure DownloadOf (s : Agreements) (m : DownloadDocumentCommand)
    (a : SubmitAgreementCommand) : Prop where
  submitted : a ∈ s.submitted
  correlationId : m.correlationId = a.correlationId
  attachmentUrl : m.attachmentUrl = a.agreementDocumentUrl

structure DocumentOf (compressWithGzip : List UInt8 → List UInt8) (s : Agreements)
    (event : DocumentDownloadedEvent) (a : SubmitAgreementCommand) : Prop where
  submitted : a ∈ s.submitted
  correlationId : event.correlationId = a.correlationId
  document : DownloadedFrom compressWithGzip s.responses a.agreementDocumentUrl
    event.compressedDocument

/-- Whatever holds data of an agreement can be traced to its submission. -/
structure Traced (compressWithGzip : List UInt8 → List UInt8) (s : Agreements) : Prop where
  distinct : (s.submitted.map fun a => a.correlationId).Nodup
  saga : ∀ c data, s.sagas c = some data → ∃ a, SagaOf s c data a
  download : ∀ m ∈ s.downloadCommands, ∃ a, DownloadOf s m a
  document : ∀ event ∈ s.downloadedEvents, ∃ a, DocumentOf compressWithGzip s event a
  emitted : ∀ c ∈ s.emitted, ∃ a ∈ s.submitted, Carries compressWithGzip s.responses a c

section Traced
variable {compressWithGzip : List UInt8 → List UInt8} {s t : Agreements}

theorem DownloadedFrom.extend {responses responses' : List (String × HttpResponse)}
    {url : String} {document : List UInt8}
    (h : DownloadedFrom compressWithGzip responses url document)
    (hresponses : responses ⊆ responses') :
    DownloadedFrom compressWithGzip responses' url document := by
  obtain ⟨r, hr, hsuccess, hdocument⟩ := h
  exact ⟨r, hresponses hr, hsuccess, hdocument⟩

theorem Traced.agreement_unique (h : Traced compressWithGzip s) {a a' : SubmitAgreementCommand}
    (ha : a ∈ s.submitted) (ha' : a' ∈ s.submitted) (heq : a.correlationId = a'.correlationId) :
    a = a' :=
  List.inj_on_of_nodup_map h.distinct ha ha' heq

/-- A step keeps the traces if it forgets no submission and no response, and each
thing that it adds can be traced. -/
theorem Traced.extend (h : Traced compressWithGzip s)
    (hdistinct : (t.submitted.map fun a => a.correlationId).Nodup)
    (hsubmitted : s.submitted ⊆ t.submitted) (hresponses : s.responses ⊆ t.responses)
    (hsaga : ∀ c data, t.sagas c = some data → s.sagas c = some data ∨ ∃ a, SagaOf t c data a)
    (hdownload : ∀ m ∈ t.downloadCommands, m ∈ s.downloadCommands ∨ ∃ a, DownloadOf t m a)
    (hdocument : ∀ event ∈ t.downloadedEvents,
      event ∈ s.downloadedEvents ∨ ∃ a, DocumentOf compressWithGzip t event a)
    (hemitted : ∀ c ∈ t.emitted,
      c ∈ s.emitted ∨ ∃ a ∈ t.submitted, Carries compressWithGzip t.responses a c) :
    Traced compressWithGzip t := by
  constructor
  · exact hdistinct
  · intro c data hdata
    rcases hsaga c data hdata with hold | hnew
    · obtain ⟨a, ha⟩ := h.saga c data hold
      exact ⟨a, hsubmitted ha.submitted, ha.correlationId, ha.mapped, ha.brokerId, ha.agreementId⟩
    · exact hnew
  · intro m hm
    rcases hdownload m hm with hold | hnew
    · obtain ⟨a, ha⟩ := h.download m hold
      exact ⟨a, hsubmitted ha.submitted, ha.correlationId, ha.attachmentUrl⟩
    · exact hnew
  · intro event hevent
    rcases hdocument event hevent with hold | hnew
    · obtain ⟨a, ha⟩ := h.document event hold
      exact ⟨a, hsubmitted ha.submitted, ha.correlationId, ha.document.extend hresponses⟩
    · exact hnew
  · intro c hc
    rcases hemitted c hc with hold | hnew
    · obtain ⟨a, ha, hcarries⟩ := h.emitted c hold
      exact ⟨a, hsubmitted ha, hcarries.correlationId, hcarries.brokerId, hcarries.agreementId,
        hcarries.document.extend hresponses, hcarries.kind⟩
    · exact hnew

theorem Traced.submitted (h : Traced compressWithGzip s) {command : SubmitAgreementCommand}
    (hnew : command.correlationId ∉ s.submitted.map fun a => a.correlationId) :
    Traced compressWithGzip { s with submitted := s.submitted ++ [command] } := by
  refine h.extend ?_ (List.subset_append_left _ _) (List.Subset.refl _) (fun _ _ => Or.inl)
    (fun _ => Or.inl) (fun _ => Or.inl) (fun _ => Or.inl)
  rw [List.map_append]
  exact h.distinct.append (List.nodup_singleton _) (List.disjoint_singleton.mpr hnew)

/-- The saga is made from the message itself, whatever it held before. -/
theorem Traced.submit (h : Traced compressWithGzip s) {command : SubmitAgreementCommand}
    (hcommand : command ∈ s.submitted) (now : DateTime) (drawn : Drawn) :
    Traced compressWithGzip (s.submit command now drawn) := by
  refine h.extend h.distinct (List.Subset.refl _) (List.Subset.refl _) ?_ ?_ (fun _ => Or.inl)
    (fun _ => Or.inl)
  · intro c data hdata
    by_cases hc : c = command.correlationId
    · right
      subst hc
      simp only [Agreements.submit, Agreements.save, Function.update_self,
        Option.some.injEq] at hdata
      rw [← hdata]
      exact ⟨command, hcommand, rfl, rfl, rfl, rfl⟩
    · left
      simpa only [Agreements.submit, Agreements.save, Function.update_of_ne hc] using hdata
  · intro m hm
    rcases List.mem_append.mp hm with hold | hnew
    · exact Or.inl hold
    · rw [List.mem_singleton.mp hnew]
      exact Or.inr ⟨command, hcommand, rfl, rfl⟩

theorem Traced.downloaded (h : Traced compressWithGzip s) {command : DownloadDocumentCommand}
    (hcommand : command ∈ s.downloadCommands) (response : Except Exception HttpResponse)
    (drawn : Drawn) :
    Traced compressWithGzip (s.download compressWithGzip command response drawn) := by
  unfold Agreements.download
  cases hhandled : handleDownloadDocumentCommand compressWithGzip command response drawn with
  | error e =>
      exact h.extend h.distinct (List.Subset.refl _) (List.subset_append_left _ _)
        (fun _ _ => Or.inl) (fun _ => Or.inl) (fun _ => Or.inl) (fun _ => Or.inl)
  | ok event =>
      refine h.extend h.distinct (List.Subset.refl _) (List.subset_append_left _ _)
        (fun _ _ => Or.inl) (fun _ => Or.inl) ?_ (fun _ => Or.inl)
      intro e he
      rcases List.mem_append.mp he with hold | hnew
      · exact Or.inl hold
      · right
        rw [List.mem_singleton.mp hnew]
        obtain ⟨a, ha⟩ := h.download command hcommand
        obtain ⟨hcorrelation, r, rfl, hsuccess, hdocument⟩ :=
          handleDownloadDocumentCommand_ok hhandled
        refine ⟨a, ha.submitted, hcorrelation.trans ha.correlationId, r, ?_, hsuccess, hdocument⟩
        apply List.mem_append_right
        rw [← ha.attachmentUrl]
        exact List.mem_singleton.mpr rfl

/-- The saga's data and the event are of the same agreement, since its
correlation id is submitted once. -/
theorem Traced.carries (h : Traced compressWithGzip s) {event : DocumentDownloadedEvent}
    (hevent : event ∈ s.downloadedEvents) {data data' : AgreementSagaData}
    (hdata : s.sagas event.correlationId = some data) {now : DateTime} {drawn : Drawn}
    {command : InsertDocumentCommand}
    (hhandled : handleDocumentDownloadedEvent data event now drawn = .ok (data', command)) :
    ∃ a, SagaOf s event.correlationId data a ∧ Carries compressWithGzip s.responses a command := by
  obtain ⟨a, ha⟩ := h.saga _ _ hdata
  obtain ⟨a', ha'⟩ := h.document event hevent
  have hsame : a = a' := h.agreement_unique ha.submitted ha'.submitted
    (ha.correlationId.trans ha'.correlationId)
  subst hsame
  obtain ⟨-, hcommand, hbroker⟩ := handleDocumentDownloadedEvent_ok hhandled
  refine ⟨a, ha, ?_, ?_, ?_, ?_, hbroker.trans ha.brokerId⟩
  · rw [hcommand]
    exact ha'.correlationId
  · rw [hcommand]
    exact ha.brokerId
  · rw [hcommand]
    exact ha.agreementId
  · rw [hcommand]
    exact ha'.document

theorem Traced.sent (h : Traced compressWithGzip s) {event : DocumentDownloadedEvent}
    (hevent : event ∈ s.downloadedEvents) (now : DateTime) (drawn : Drawn) :
    Traced compressWithGzip (s.sendDocument event now drawn) := by
  unfold Agreements.sendDocument
  split
  · exact h
  · next data hdata =>
    split
    · exact h
    · next data' command hhandled =>
      obtain ⟨a, ha, hcarries⟩ := h.carries hevent hdata hhandled
      obtain ⟨hdata', -, -⟩ := handleDocumentDownloadedEvent_ok hhandled
      refine h.extend h.distinct (List.Subset.refl _) (List.Subset.refl _) ?_ (fun _ => Or.inl)
        (fun _ => Or.inl) ?_
      · intro c d hd
        by_cases hc : c = event.correlationId
        · right
          subst hc
          simp only [Agreements.save, Function.update_self, Option.some.injEq] at hd
          rw [← hd, hdata']
          exact ⟨a, ha.submitted, ha.correlationId, ha.mapped, ha.brokerId, ha.agreementId⟩
        · left
          simpa only [Agreements.save, Function.update_of_ne hc] using hd
      · intro c hc
        rcases List.mem_append.mp hc with hold | hnew
        · exact Or.inl hold
        · rw [List.mem_singleton.mp hnew]
          exact Or.inr ⟨a, ha.submitted, hcarries⟩

theorem Traced.completed (h : Traced compressWithGzip s) (correlationId : Guid) :
    Traced compressWithGzip (s.markAsComplete correlationId) := by
  refine h.extend h.distinct (List.Subset.refl _) (List.Subset.refl _) ?_ (fun _ => Or.inl)
    (fun _ => Or.inl) (fun _ => Or.inl)
  intro c data hdata
  left
  by_cases hc : c = correlationId
  · subst hc
    simp [Agreements.markAsComplete] at hdata
  · simpa only [Agreements.markAsComplete, Function.update_of_ne hc] using hdata

theorem Traced.step (h : Traced compressWithGzip s) {e : AgreementEvent}
    (hnew : NewCorrelation s e) (hstep : step compressWithGzip s e = some t) :
    Traced compressWithGzip t := by
  cases e with
  | submitted command =>
      obtain rfl := Option.some.inj hstep
      exact h.submitted hnew
  | submitHandled position now drawn =>
      obtain ⟨command, hcommand, rfl⟩ := Option.map_eq_some_iff.mp hstep
      exact h.submit (List.mem_of_getElem? hcommand) now drawn
  | downloadHandled position response drawn =>
      obtain ⟨command, hcommand, rfl⟩ := Option.map_eq_some_iff.mp hstep
      exact h.downloaded (List.mem_of_getElem? hcommand) response drawn
  | documentDownloadedHandled position now drawn =>
      obtain ⟨event, hevent, rfl⟩ := Option.map_eq_some_iff.mp hstep
      exact h.sent (List.mem_of_getElem? hevent) now drawn
  | completeAgreementSagaHandled correlationId =>
      obtain rfl := Option.some.inj hstep
      exact h.completed correlationId
  | onlineDocumentInsertedHandled correlationId =>
      obtain rfl := Option.some.inj hstep
      exact h.completed correlationId

theorem Traced.initial : Traced compressWithGzip Agreements.initial :=
  ⟨List.nodup_nil, nofun, nofun, nofun, nofun⟩

theorem Traced.doNotMix (h : Traced compressWithGzip s) :
    AgreementsDoNotMix compressWithGzip s := by
  intro c hc
  obtain ⟨a, ha, hcarries⟩ := h.emitted c hc
  refine ⟨a, ha, hcarries, fun a' ha' heq => ?_⟩
  exact h.agreement_unique ha' ha (heq.trans hcarries.correlationId)

end Traced

/-- The correlation of a completion message. -/
def completes : AgreementEvent → Option Guid
  | .completeAgreementSagaHandled correlationId => some correlationId
  | .onlineDocumentInsertedHandled correlationId => some correlationId
  | _ => none

/-- A saga ends by a completion message of its own correlation, which ends no other
saga and changes none. -/
structure ClosesOwnSaga (s : Agreements) (e : AgreementEvent) (t : Agreements) : Prop where
  own : ∀ c, (s.sagas c).isSome → t.sagas c = none → completes e = some c
  others : ∀ c, completes e = some c → ∀ c' ≠ c, t.sagas c' = s.sagas c'

theorem save_isSome {s : Agreements} {c c' : Guid} {data : AgreementSagaData}
    (h : (s.sagas c').isSome) : ((s.save c data).sagas c').isSome := by
  by_cases hc : c' = c
  · subst hc
    simp [Agreements.save]
  · simpa only [Agreements.save, Function.update_of_ne hc] using h

/-- A message that completes nothing leaves every saga running. -/
theorem ClosesOwnSaga.of_running {s t : Agreements} {e : AgreementEvent}
    (hcompletes : completes e = none)
    (hrunning : ∀ c, (s.sagas c).isSome → (t.sagas c).isSome) : ClosesOwnSaga s e t := by
  constructor
  · intro c hs ht
    have hsome := hrunning c hs
    rw [ht] at hsome
    cases hsome
  · intro c hc
    rw [hcompletes] at hc
    cases hc

theorem ClosesOwnSaga.of_complete {s : Agreements} {e : AgreementEvent} {c : Guid}
    (hcompletes : completes e = some c) : ClosesOwnSaga s e (s.markAsComplete c) := by
  have hothers : ∀ c' ≠ c, (s.markAsComplete c).sagas c' = s.sagas c' :=
    fun c' hne => Function.update_of_ne hne _ _
  constructor
  · intro c' hs ht
    by_cases hc : c' = c
    · rw [hcompletes, hc]
    · rw [hothers c' hc] at ht
      rw [ht] at hs
      cases hs
  · intro d hd c' hne
    rw [hcompletes, Option.some.injEq] at hd
    exact hothers c' (hd ▸ hne)

theorem sendDocument_running {s : Agreements} (event : DocumentDownloadedEvent) (now : DateTime)
    (drawn : Drawn) (c : Guid) (h : (s.sagas c).isSome) :
    ((s.sendDocument event now drawn).sagas c).isSome := by
  unfold Agreements.sendDocument
  split
  · exact h
  · split
    · exact h
    · exact save_isSome h

theorem step_closesOwnSaga {compressWithGzip : List UInt8 → List UInt8} {s t : Agreements}
    {e : AgreementEvent} (hstep : step compressWithGzip s e = some t) : ClosesOwnSaga s e t := by
  cases e with
  | submitted command =>
      obtain rfl := Option.some.inj hstep
      exact .of_running rfl fun _ h => h
  | submitHandled position now drawn =>
      obtain ⟨command, -, rfl⟩ := Option.map_eq_some_iff.mp hstep
      exact .of_running rfl fun _ h => save_isSome h
  | downloadHandled position response drawn =>
      obtain ⟨command, -, rfl⟩ := Option.map_eq_some_iff.mp hstep
      apply ClosesOwnSaga.of_running rfl
      intro c h
      unfold Agreements.download
      cases handleDownloadDocumentCommand compressWithGzip command response drawn with
      | error e => exact h
      | ok event => exact h
  | documentDownloadedHandled position now drawn =>
      obtain ⟨event, -, rfl⟩ := Option.map_eq_some_iff.mp hstep
      exact .of_running rfl fun c h => sendDocument_running event now drawn c h
  | completeAgreementSagaHandled correlationId =>
      obtain rfl := Option.some.inj hstep
      exact .of_complete rfl
  | onlineDocumentInsertedHandled correlationId =>
      obtain rfl := Option.some.inj hstep
      exact .of_complete rfl

/-- In every run over agreements with different correlation ids, whatever is
delivered again and in whichever order, each emitted command is that of one
agreement, and a completion message ends the saga of its own correlation only. -/
theorem agreements_do_not_mix (compressWithGzip : List UInt8 → List UInt8)
    (events : List AgreementEvent)
    (hnew : (agreements compressWithGzip).Meets NewCorrelation
      (agreements compressWithGzip).init events) :
    (agreements compressWithGzip).Always (AgreementsDoNotMix compressWithGzip)
        (agreements compressWithGzip).init events ∧
      (agreements compressWithGzip).Throughout ClosesOwnSaga
        (agreements compressWithGzip).init events := by
  constructor
  · have htraced : (agreements compressWithGzip).Always (Traced compressWithGzip)
        (agreements compressWithGzip).init events := by
      apply Machine.always_of_meets (C := NewCorrelation)
      · exact fun s e t hs he hstep => hs.step he hstep
      · exact Traced.initial
      · exact hnew
    exact htraced.mono fun s hs => hs.doNotMix
  · apply Machine.throughout_of_meets (I := fun _ => True) (C := NewCorrelation)
    · exact fun _ _ _ _ _ _ => trivial
    · exact fun s e t _ _ hstep => step_closesOwnSaga hstep
    · trivial
    · exact hnew

/-- Two agreements of different brokers under way at once, one of them delivered
twice. -/
def twoAgreements : List AgreementEvent :=
  [.submitted ⟨⟨1, 7, 123, 0⟩, "a", 1⟩, .submitted ⟨⟨2, 8, 456, 0⟩, "b", 2⟩,
    .submitHandled 1 0 ⟨3, 0⟩, .submitHandled 0 0 ⟨4, 0⟩, .submitHandled 1 0 ⟨5, 0⟩,
    .downloadHandled 0 (.ok ⟨true, [2]⟩) ⟨6, 0⟩, .downloadHandled 1 (.ok ⟨true, [1]⟩) ⟨7, 0⟩,
    .documentDownloadedHandled 1 0 ⟨8, 0⟩, .documentDownloadedHandled 0 0 ⟨9, 0⟩,
    .onlineDocumentInsertedHandled 8, .completeAgreementSagaHandled 7]

theorem two_agreements_do_not_mix :
    (agreements id).Always (AgreementsDoNotMix id) (agreements id).init twoAgreements ∧
      (agreements id).Throughout ClosesOwnSaga (agreements id).init twoAgreements :=
  agreements_do_not_mix id twoAgreements (by decide +kernel)

example : ((agreements id).run (agreements id).init twoAgreements).map (fun s => s.emitted) =
    some [.remote ⟨⟨⟨8, 7, 123, 0⟩, 1, [1]⟩⟩, .online ⟨⟨⟨9, 8, 456, 0⟩, 2, [2]⟩⟩] := by
  decide +kernel

end ReliableSignalR.AgreementSaga
