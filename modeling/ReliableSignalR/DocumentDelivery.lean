import ReliableSignalR.AgreementLifeCycle

/-!
# Documents from the web site to the back offices

What the two back offices are asked to write is the document of a submitted
agreement, and each of them gets only the agreements of its broker. The remote
one writes the document of an agreement at most once. The online one is called
again when the event about its writing could not be published.

A saga ends when the event or the acknowledgement of its back office arrives. For
the online back office this is always after the document was written; for the
remote one it is so as long as the document handler inserts what it stores.
-/
namespace ReliableSignalR.DocumentDelivery
open DotNet EventRuns Messages TokenBoard AgreementSaga RemotePath AuditEndpoint
open DocumentHandler IdempotentReceiver AgreementDelivery AgreementPlaces RemoteSagas
open RemoteStations AgreementLifeCycle

variable {Json : Type}

/-- The command is for the agreement, which is the only one of its correlation. -/
def IsFor (compressWithGzip : List UInt8 → List UInt8) (s : Delivery Json)
    (c : InsertDocumentCommand) (brokerId : ℤ) : Prop :=
  ∃ a ∈ s.agreements.submitted, a.brokerId = brokerId ∧
    Carries compressWithGzip s.agreements.responses a c ∧
    ∀ a' ∈ s.agreements.submitted, a'.correlationId = c.command.correlationId → a' = a

/-- The successful calls of the remote back office for a correlation. -/
def insertionsFor (s : Delivery Json) (c : Guid) : ℕ :=
  s.path.subscriber.calls.countP fun call =>
    call.1.command.correlationId == c && inserted call

structure DocumentsReachTheirBroker (compressWithGzip : List UInt8 → List UInt8)
    (s : Delivery Json) : Prop where
  remote : ∀ call ∈ s.path.subscriber.calls,
    IsFor compressWithGzip s (.remote call.1.command) 123
  online : ∀ m ∈ s.insertedOnline, IsFor compressWithGzip s (.online m) 456
  once : ∀ c, insertionsFor s c ≤ 1

section Lawful
variable {json : JsonSerializer Json} {compressWithGzip : List UInt8 → List UInt8}
  {s t : Delivery Json}

theorem isFor_of_emitted (hs : Lawful json compressWithGzip s) {c : InsertDocumentCommand}
    (hc : c ∈ s.agreements.emitted) : IsFor compressWithGzip s c c.broker := by
  obtain ⟨a, ha, hcarries, hunique⟩ := hs.traced.doNotMix c hc
  exact ⟨a, ha, hcarries.kind.symm, hcarries, hunique⟩

/-- The calls for one correlation are for copies of one emission, so they have one
identifier, and no identifier is inserted twice. -/
theorem insertionsFor_le_one (hs : Lawful json compressWithGzip s) (c : Guid) :
    insertionsFor s c ≤ 1 := by
  have hcommand : ∀ call ∈ s.path.subscriber.calls, call.1.command ∈ s.path.emitted :=
    fun call hcall => List.mem_of_getElem? (hs.remote.provenance.call hcall)
  by_cases hany : ∃ call ∈ s.path.subscriber.calls, call.1.command.correlationId = c
  · obtain ⟨call, hcall, hc⟩ := hany
    apply countP_le_one_of_nodup (k := call.1.command.id) (insertedIds_nodup hs.remote.reachable)
    intro call' hcall' hc'
    rw [List.inj_on_of_nodup_map hs.remote.distinct (hcommand call' hcall')
      (hcommand call hcall) ((beq_iff_eq.mp hc').trans hc.symm)]
  · have hzero : insertionsFor s c = 0 := by
      apply List.countP_eq_zero.mpr
      intro call hcall hboth
      exact hany ⟨call, hcall, beq_iff_eq.mp (Bool.and_eq_true _ _ |>.mp hboth).1⟩
    rw [hzero]
    exact Nat.zero_le 1

theorem documentsReachTheirBroker_of_lawful (hs : Lawful json compressWithGzip s) :
    DocumentsReachTheirBroker compressWithGzip s where
  remote _ hcall :=
    isFor_of_emitted hs
      (hs.recorded.remote _ (List.mem_of_getElem? (hs.remote.provenance.call hcall)))
  online m hm := isFor_of_emitted hs (hs.recorded.insertedOnline m hm)
  once := insertionsFor_le_one hs

end Lawful

/-- In every run of all endpoints, a back office is called only for submitted
agreements of its broker, with the number of the agreement and the compressed
document that was downloaded from its address, and for each agreement at most one
call of the remote back office returns true. -/
theorem documents_reach_their_broker (json : JsonSerializer Json)
    (compressWithGzip : List UInt8 → List UInt8) (events : List DeliveryEvent)
    (hnew : (delivery json compressWithGzip).Meets NewGuids (delivery json compressWithGzip).init
      events) :
    (delivery json compressWithGzip).Always (DocumentsReachTheirBroker compressWithGzip)
      (delivery json compressWithGzip).init events :=
  (always_lawful json compressWithGzip hnew).mono fun _ hs =>
    documentsReachTheirBroker_of_lawful hs

/-- The command of the remote agreement in `insertedRun`. -/
def remoteInsert : InsertDocumentIntoRemoteBackOfficeCommand := ⟨⟨⟨8, 8, 123, 0⟩, 0, [1]⟩⟩

/-- After the online agreement, the remote one goes through the Hub to its broker,
whose acknowledgement completes the saga. -/
def deliveredRun : List DeliveryEvent :=
  submittedRun ++ insertedRun ++ loggedRun ++
    [.path (.subscriber (.queued ⟨0, remoteInsert⟩)), .path (.subscriber (.taken 0)),
      .path (.subscriber (.messageExists (.ok ()))),
      .path (.subscriber (.addMessageId true (.ok ()))),
      .path (.subscriber (.insertDocument (.ok true))), .path (.subscriber (.send (.ok ()))),
      .path (.subscriber .ended), .path (.posted 0 0 .answered),
      .completeAgreementSagaHandled 0 true]

theorem two_documents_reach_their_brokers :
    (delivery JsonSerializer.transparent id).Always (DocumentsReachTheirBroker id)
      Delivery.initial deliveredRun :=
  documents_reach_their_broker JsonSerializer.transparent id deliveredRun (by decide +kernel)

example : ((delivery JsonSerializer.transparent id).run Delivery.initial deliveredRun).any
    (fun s => s.insertedOnline.length = 2 ∧ insertionsFor s 8 = 1 ∧
      stage s 8 = some .completed) = true := by
  decide +kernel

/-- From the commit of an identifier on nothing fails until its document is inserted. -/
def InsertsStored (s : Delivery Json) : DeliveryEvent → Prop
  | .path event => StoredIsInserted s.path event
  | _ => True

instance (s : Delivery Json) : ∀ e, Decidable (InsertsStored s e)
  | .path event => inferInstanceAs (Decidable (StoredIsInserted s.path event))
  | .submitOnlineAgreement .. | .submitRemoteAgreement .. | .submitHandled ..
  | .downloadHandled .. | .documentDownloadedHandled .. | .insertOnlineHandled ..
  | .onlineDocumentInsertedHandled _ | .completeAgreementSagaHandled ..
  | .onlineCompletionAudited .. | .forwarded .. => isTrue trivial

section Sound
variable {json : JsonSerializer Json} {compressWithGzip : List UInt8 → List UInt8}
  {s t : Delivery Json}

/-- A completed agreement of the online broker was never on the remote path. -/
theorem not_emitted_of_completedOnline (hs : Lawful json compressWithGzip s) {c : Guid}
    (hc : c ∈ s.completedOnline) : ¬Emitted s.path c := by
  have hcompleted := (hs.onePlace.places.mem .completed c).mp (List.mem_append_right _ hc)
  intro hemitted
  rcases hs.remote.emitted_iff.mp hemitted with hopen | hclosed
  · obtain ⟨p, hp⟩ := hs.remote.openCommand hopen
    have hremote := (hs.onePlace.places.mem (.remote p) c).mp hp
    rw [hcompleted] at hremote
    cases hremote
  · exact (List.nodup_append.mp (hs.onePlace.places.nodup .completed)).2.2 c hclosed c hc rfl

/-- Completing the rows of another correlation completes no remote row. -/
theorem vouched_completeOther {path : Path Json} (hs : Vouched path)
    (hprovenance : Provenance json path) {c : Guid} (hother : ¬Emitted path c) (now : DateTime) :
    Vouched (path.withLog (handleCompletionAuditMessage path.hub.messageLog c now)) := by
  refine hs.withLog fun n hn htype hcompleted => ?_
  obtain ⟨m, hm, rfl⟩ := List.mem_map.mp hn
  have hsame := complete_sameRecord c now m
  rw [hsame.messageType] at htype
  rw [hsame.correlationId]
  rcases (complete_completionDate c now m).mp hcompleted with hold | hnew
  · exact hs.completed m hm htype hold
  · obtain ⟨command, hcommand, hstores⟩ := hprovenance.rows m hm htype
    exact absurd ⟨command, List.mem_of_getElem? hcommand, hstores.correlationId.symm.trans hnew⟩
      hother

/-- The emission of a saga is fresh on the remote path. -/
theorem fresh_emission (hs : Lawful json compressWithGzip s) {event : DocumentDownloadedEvent}
    (hevent : event ∈ s.downloadedQueue)
    {command : InsertDocumentIntoRemoteBackOfficeCommand}
    (hcorrelation : command.correlationId = event.correlationId)
    (hid : command.id ∉ s.path.emitted.map fun c => c.id) :
    Fresh s.path (.emitted command) := by
  refine ⟨hid, fun hmem => ?_⟩
  rw [hcorrelation] at hmem
  exact hs.not_emitted hevent (emitted_iff_mem.mpr hmem)

theorem sound_step (hs : Lawful json compressWithGzip s) (hsound : Sound json s.path)
    {e : DeliveryEvent} (hnew : NewGuids s e) (hinserts : InsertsStored s e)
    (hstep : AgreementDelivery.step json compressWithGzip s e = some t) : Sound json t.path := by
  cases e with
  | documentDownloadedHandled position now drawn =>
      obtain ⟨event, hevent, rfl⟩ := Option.map_eq_some_iff.mp hstep
      have hmem := List.mem_of_getElem? hevent
      obtain ⟨data, data', command, hdata, hhandled⟩ := hs.handles hmem now drawn
      obtain ⟨-, hcommand, -⟩ := handleDocumentDownloadedEvent_ok hhandled
      rw [handleDocumentDownloaded_eq hdata hhandled]
      cases command with
      | online command => exact hsound
      | remote command =>
          have hid : command.id = drawn.id := congrArg (fun c => c.id) hcommand
          have hcorrelation : command.correlationId = event.correlationId :=
            congrArg (fun c => c.correlationId) hcommand
          have hemit : RemotePath.step json s.path (.emitted command) =
            some (s.path.emit command) := rfl
          exact hsound.step (fresh_emission hs hmem hcorrelation (hid ▸ hnew)) trivial hemit
  | completeAgreementSagaHandled position consumed =>
      obtain ⟨c, hc, rfl⟩ := Option.map_eq_some_iff.mp hstep
      have hpath : RemotePath.step json s.path (.sagaCompleted position consumed) =
          some (s.path.handleCompletion position consumed c) := by
        simp only [RemotePath.step, hc, Option.map_some]
      exact hsound.step (e := .sagaCompleted position consumed) trivial trivial hpath
  | onlineCompletionAudited position now =>
      obtain ⟨c, hc, rfl⟩ := Option.map_eq_some_iff.mp hstep
      have hother := not_emitted_of_completedOnline hs (List.mem_of_getElem? hc)
      exact { hsound with
        provenance := (hs.remote.auditCompletion c now).provenance
        vouched := vouched_completeOther hsound.vouched hsound.provenance hother now }
  | path event =>
      obtain ⟨honly, hstep⟩ := Option.ite_none_right_eq_some.mp hstep
      obtain ⟨path, hpath, rfl⟩ := Option.map_eq_some_iff.mp hstep
      have hfresh : Fresh s.path event := by
        cases event with
        | emitted command => cases honly
        | _ => trivial
      exact hsound.step hfresh hinserts hpath
  | forwarded queue position =>
      obtain ⟨_, hforwarded⟩ := forward_cases hstep
      have hpath := hforwarded.rest.1
      rw [hpath]
      exact hsound
  | submitOnlineAgreement correlationId drawn =>
      obtain rfl := Option.some.inj hstep
      exact hsound
  | submitRemoteAgreement correlationId drawn =>
      obtain rfl := Option.some.inj hstep
      exact hsound
  | submitHandled position now drawn =>
      obtain ⟨command, -, rfl⟩ := Option.map_eq_some_iff.mp hstep
      exact hsound
  | downloadHandled position response drawn =>
      obtain ⟨command, -, rfl⟩ := Option.map_eq_some_iff.mp hstep
      unfold Delivery.handleDownload
      cases handleDownloadDocumentCommand compressWithGzip command response drawn <;> exact hsound
  | insertOnlineHandled position drawn outcome =>
      obtain ⟨command, -, rfl⟩ := Option.map_eq_some_iff.mp hstep
      cases outcome <;> exact hsound
  | onlineDocumentInsertedHandled position =>
      obtain ⟨event, -, rfl⟩ := Option.map_eq_some_iff.mp hstep
      exact hsound

end Sound

end ReliableSignalR.DocumentDelivery
