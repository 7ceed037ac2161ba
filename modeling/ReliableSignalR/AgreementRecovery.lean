import Mathlib.Data.FinEnum
import ReliableSignalR.CommandRecovery
import ReliableSignalR.DocumentDelivery

/-!
# Which agreements can still be completed

Endpoints crash, calls throw, connections break and messages go to error queues.
From every state that the endpoints can get into, an agreement that waits in a queue
can still be completed, and so can an agreement on the remote path of whose command
something is left. An agreement in an error queue, or on the remote path with nothing
left of its command, is not completed in any continuation.
-/
namespace ReliableSignalR.AgreementRecovery
open DotNet EventRuns Messages TokenBoard AgreementSaga RemotePath AuditEndpoint
open AgreementDelivery AgreementPlaces RemoteSagas RemoteStations AgreementLifeCycle
open DocumentDelivery CommandRecovery

variable {Json : Type}

/-- The runs of the endpoints in which `Guid.NewGuid` draws new identifiers. -/
def endpoints (json : JsonSerializer Json) (compressWithGzip : List UInt8 → List UInt8) :
    Machine (Delivery Json) DeliveryEvent :=
  (delivery json compressWithGzip).under NewGuids

def Completed (c : Guid) (s : Delivery Json) : Prop := stage s c = some .completed

/-- The invariant of the endpoints: every text in the message log was written by the
factory. -/
structure Kept (json : JsonSerializer Json) (compressWithGzip : List UInt8 → List UInt8)
    (s : Delivery Json) : Prop where
  lawful : Lawful json compressWithGzip s
  stored : AllStored json s.path.hub.messageLog

/-- What a step of the endpoints does to the remote path. -/
inductive PathChange (json : JsonSerializer Json) (s t : Delivery Json) : Prop
  | stayed (path : t.path = s.path)
  | emitted (event : DocumentDownloadedEvent) (mem : event ∈ s.downloadedQueue)
      (command : InsertDocumentIntoRemoteBackOfficeCommand) (path : t.path = s.path.emit command)
      (correlationId : command.correlationId = event.correlationId)
  | completed (position : ℕ) (consumed : Bool) (c : Guid) (mem : c ∈ s.path.completions)
      (path : t.path = s.path.handleCompletion position consumed c)
  | audited (c : Guid) (now : DateTime)
      (path : t.path = s.path.withLog (handleCompletionAuditMessage s.path.hub.messageLog c now))
  | stepped (event : PathEvent) (only : ofPathOnly event = true)
      (step : RemotePath.step json s.path event = some t.path)

section Kept
variable {json : JsonSerializer Json} {compressWithGzip : List UInt8 → List UInt8}
  {s t : Delivery Json} {c : Guid}

theorem path_change {e : DeliveryEvent}
    (hstep : AgreementDelivery.step json compressWithGzip s e = some t) : PathChange json s t := by
  cases e with
  | submitOnlineAgreement correlationId drawn =>
      obtain rfl := Option.some.inj hstep
      exact .stayed rfl
  | submitRemoteAgreement correlationId drawn =>
      obtain rfl := Option.some.inj hstep
      exact .stayed rfl
  | submitHandled position now drawn =>
      obtain ⟨command, -, rfl⟩ := Option.map_eq_some_iff.mp hstep
      exact .stayed rfl
  | downloadHandled position response drawn =>
      obtain ⟨command, -, rfl⟩ := Option.map_eq_some_iff.mp hstep
      unfold Delivery.handleDownload
      split <;> exact .stayed rfl
  | documentDownloadedHandled position now drawn =>
      obtain ⟨event, hevent, rfl⟩ := Option.map_eq_some_iff.mp hstep
      cases hdata : s.agreements.sagas event.correlationId with
      | none =>
          unfold Delivery.handleDocumentDownloaded
          rw [hdata]
          exact .stayed rfl
      | some data =>
          cases hhandled : handleDocumentDownloadedEvent data event now drawn with
          | error x =>
              unfold Delivery.handleDocumentDownloaded
              rw [hdata]
              simp only [hhandled]
              exact .stayed rfl
          | ok sent =>
              obtain ⟨data', command⟩ := sent
              rw [handleDocumentDownloaded_eq hdata hhandled]
              obtain ⟨-, hcommand, -⟩ := handleDocumentDownloadedEvent_ok hhandled
              cases command with
              | online command => exact .stayed rfl
              | remote command =>
                  exact .emitted event (List.mem_of_getElem? hevent) command rfl
                    (congrArg (fun c => c.correlationId) hcommand)
  | insertOnlineHandled position drawn outcome =>
      obtain ⟨command, -, rfl⟩ := Option.map_eq_some_iff.mp hstep
      cases outcome <;> exact .stayed rfl
  | onlineDocumentInsertedHandled position =>
      obtain ⟨event, -, rfl⟩ := Option.map_eq_some_iff.mp hstep
      exact .stayed rfl
  | completeAgreementSagaHandled position consumed =>
      obtain ⟨c, hc, rfl⟩ := Option.map_eq_some_iff.mp hstep
      exact .completed position consumed c (List.mem_of_getElem? hc) rfl
  | onlineCompletionAudited position now =>
      obtain ⟨c, -, rfl⟩ := Option.map_eq_some_iff.mp hstep
      exact .audited c now rfl
  | forwarded queue position =>
      obtain ⟨_, hforwarded⟩ := forward_cases hstep
      have hpath := hforwarded.rest.1
      exact .stayed hpath
  | path event =>
      obtain ⟨honly, hstep⟩ := Option.ite_none_right_eq_some.mp hstep
      obtain ⟨path, hpath, rfl⟩ := Option.map_eq_some_iff.mp hstep
      exact .stepped event honly hpath

theorem allStored_delivery (h : AllStored json s.path.hub.messageLog)
    (hchange : PathChange json s t) : AllStored json t.path.hub.messageLog := by
  cases hchange with
  | stayed hpath =>
      rw [hpath]
      exact h
  | emitted event _ command hpath _ =>
      rw [hpath]
      exact h
  | completed position consumed c _ hpath =>
      rw [hpath]
      exact h
  | audited c now hpath =>
      rw [hpath]
      exact h.complete c now
  | stepped event _ hstep => exact allStored_step h hstep

theorem Kept.step (hs : Kept json compressWithGzip s) {e : DeliveryEvent}
    (hstep : (endpoints json compressWithGzip).step s e = some t) :
    Kept json compressWithGzip t := by
  obtain ⟨hnew, hstep⟩ := Machine.under_step.mp hstep
  exact ⟨(hs.lawful.step hnew hstep).1, allStored_delivery hs.stored (path_change hstep)⟩

theorem Kept.keep (s : Delivery Json) (e : DeliveryEvent) (t : Delivery Json)
    (hs : Kept json compressWithGzip s)
    (hstep : (endpoints json compressWithGzip).step s e = some t) :
    Kept json compressWithGzip t := hs.step hstep

theorem Kept.grounded (hs : Kept json compressWithGzip s) : Grounded json s.path := by
  refine ⟨hs.lawful.remote.toSagasOfEmissions, hs.stored, fun command hcommand => ?_⟩
  obtain ⟨a, -, hbroker, hcarries, -⟩ :=
    isFor_of_emitted hs.lawful (hs.lawful.recorded.remote command hcommand)
  exact hcarries.brokerId.trans hbroker

theorem Kept.initial : Kept json compressWithGzip (Delivery.initial : Delivery Json) :=
  ⟨Lawful.initial, AllStored.empty json⟩

/-- The board says where an agreement goes. -/
theorem Kept.moves (hs : Kept json compressWithGzip s) {e : DeliveryEvent} {p q : Place}
    (hp : stage s c = some p) (hfollows : Follows p q) (hnew : NewGuids s e)
    (hstep : AgreementDelivery.step json compressWithGzip s e = some t)
    (hevents : boardEvents compressWithGzip s e = [.moved c q]) : stage t c = some q := by
  obtain ⟨-, hrun⟩ := hs.lawful.step hnew hstep
  rw [hevents] at hrun
  obtain ⟨b, hb, hrest⟩ := (Machine.run_cons_eq_some _).mp hrun
  rw [step_moved hp hfollows, Option.some.injEq] at hb
  obtain rfl := Option.some.inj hrest
  rw [← hb, Function.update_self]

end Kept

section Forward
variable {json : JsonSerializer Json} {compressWithGzip : List UInt8 → List UInt8}
  {s t : Delivery Json} {c : Guid}

/-- An event moves the agreement to a place from which it can be completed. -/
theorem Kept.advance (hs : Kept json compressWithGzip s) (e : DeliveryEvent) {p q : Place}
    (hp : stage s c = some p) (hfollows : Follows p q) (hnew : NewGuids s e)
    (hstep : AgreementDelivery.step json compressWithGzip s e = some t)
    (hevents : boardEvents compressWithGzip s e = [.moved c q])
    (next : Kept json compressWithGzip t → stage t c = some q →
      (endpoints json compressWithGzip).CanReach (Completed c) t) :
    (endpoints json compressWithGzip).CanReach (Completed c) s := by
  have hunder : (endpoints json compressWithGzip).step s e = some t :=
    Machine.under_step.mpr ⟨hnew, hstep⟩
  exact .step hunder (next (hs.step hunder) (hs.moves hp hfollows hnew hstep hevents))

end Forward

/-- The agreement is on the remote path, and nothing is left of its command. -/
def Lost (c : Guid) (s : Delivery Json) : Prop := c ∈ s.path.openSagas ∧ ¬Alive s.path c

section Backward
variable {json : JsonSerializer Json} {compressWithGzip : List UInt8 → List UInt8}
  {s t : Delivery Json} {c : Guid}

theorem alive_emit {path : Path Json} {command : InsertDocumentIntoRemoteBackOfficeCommand}
    (h : Alive (path.emit command) c) (hother : command.correlationId ≠ c) : Alive path c := by
  cases h with
  | carried copy hcarried hc =>
      refine .carried copy ?_ hc
      cases hcarried with
      | hubQueue hmem =>
          rcases List.mem_append.mp hmem with hold | hnew
          · exact .hubQueue hold
          · rw [List.mem_singleton.mp hnew] at hc
            exact absurd hc hother
      | pushed hmem => exact .pushed hmem
      | auditQueue hmem => exact .auditQueue hmem
      | channel hmem => exact .channel hmem
      | subscriber hheld => exact .subscriber hheld
  | row m hm hreplayable hc => exact .row m hm hreplayable hc
  | acknowledged ack hack hsuccess hc => exact .acknowledged ack hack hsuccess hc
  | completing hmem => exact .completing hmem

theorem alive_handleCompletion {path : Path Json} {position : ℕ} {consumed : Bool} {c' : Guid}
    (h : Alive (path.handleCompletion position consumed c') c) : Alive path c :=
  h.of_copies rfl rfl (fun _ => id) (fun _ => mem_consumed) (carried_hubQueue path)
    (carried_pushed path) (carried_auditQueue path) (carried_channel path)

theorem Lost.step (hs : Kept json compressWithGzip s) (hlost : Lost c s)
    (hchange : PathChange json s t) : Lost c t := by
  obtain ⟨hopen, hdead⟩ := hlost
  unfold Lost
  cases hchange with
  | stayed hpath =>
      rw [hpath]
      exact ⟨hopen, hdead⟩
  | emitted event hevent command hpath hcorrelation =>
      have hother : command.correlationId ≠ c := by
        rintro rfl
        rw [hcorrelation] at hopen
        exact hs.lawful.not_emitted hevent (hs.lawful.remote.emitted_iff.mpr (Or.inl hopen))
      rw [hpath]
      exact ⟨List.mem_cons_of_mem _ hopen, fun h => hdead (alive_emit h hother)⟩
  | completed position consumed c' hc' hpath =>
      have hother : c ≠ c' := by
        rintro rfl
        exact hdead (.completing hc')
      rw [hpath]
      exact ⟨(List.mem_erase_of_ne hother).mpr hopen,
        fun h => hdead (alive_handleCompletion h)⟩
  | audited c' now hpath =>
      rw [hpath]
      exact ⟨hopen, fun h => hdead h.of_complete⟩
  | stepped event honly hstep =>
      rw [(step_ofPathOnly honly hstep).2.1]
      exact ⟨hopen, fun h => hdead (h.of_step hs.grounded honly hstep)⟩

end Backward

end ReliableSignalR.AgreementRecovery
