import Mathlib.Data.List.Perm.Basic
import ReliableSignalR.AgreementDelivery

/-!
# The sagas of the remote path

An emission opens a saga and a completion closes it, once. Completions come from
acknowledgements, and the subscriber acknowledges only copies of emitted
commands. So the emitted commands, counted by their correlation ids, are at every
moment those of the open sagas and those of the completed ones.
-/
namespace ReliableSignalR.RemoteSagas
open DotNet EventRuns Messages AgreementSaga RemotePath AuditEndpoint
open DocumentHandler AgreementDelivery

variable {Json : Type}

def Emitted (s : Path Json) (c : Guid) : Prop := ∃ command ∈ s.emitted, command.correlationId = c

/-- The sagas of the remote path are those of its emissions, and only these are
acknowledged and completed. -/
structure SagasOfEmissions (json : JsonSerializer Json) (s : Path Json) : Prop where
  provenance : Provenance json s
  reachable : DocumentHandler.subscriber.Reachable s.subscriber
  sagas : (s.emitted.map fun c => c.correlationId).Perm (s.openSagas ++ s.completedSagas)
  acknowledged : ∀ ack ∈ s.acknowledgements, Emitted s ack.correlationId
  completions : ∀ c ∈ s.completions, Emitted s c

section SagasOfEmissions
variable {json : JsonSerializer Json} {s t : Path Json}

theorem SagasOfEmissions.initial : SagasOfEmissions json (Path.initial : Path Json) := by
  refine ⟨Provenance.initial, Machine.Reachable.init, .nil, ?_, ?_⟩
  · intro ack hack
    cases hack
  · intro c hc
    cases hc

theorem emitted_iff_mem {c : Guid} :
    Emitted s c ↔ c ∈ s.emitted.map fun command => command.correlationId := List.mem_map.symm

theorem SagasOfEmissions.emitted_iff (hs : SagasOfEmissions json s) {c : Guid} :
    Emitted s c ↔ c ∈ s.openSagas ∨ c ∈ s.completedSagas := by
  rw [emitted_iff_mem, hs.sagas.mem_iff, List.mem_append]

theorem SagasOfEmissions.emit (hs : SagasOfEmissions json s)
    (command : InsertDocumentIntoRemoteBackOfficeCommand) :
    SagasOfEmissions json (s.emit command) := by
  have hmore : ∀ c, Emitted s c → Emitted (s.emit command) c := by
    rintro c ⟨command', hmem, rfl⟩
    exact ⟨command', List.mem_append_left _ hmem, rfl⟩
  refine ⟨hs.provenance.emit command, hs.reachable, ?_,
    fun ack hack => hmore _ (hs.acknowledged ack hack), fun c hc => hmore c (hs.completions c hc)⟩
  change ((s.emitted ++ [command]).map fun c => c.correlationId).Perm
    (command.correlationId :: (s.openSagas ++ s.completedSagas))
  rw [List.map_append]
  exact (List.perm_append_singleton _ _).trans (hs.sagas.cons _)

/-- A step that emits nothing keeps the sagas if no saga appears or disappears and
every new acknowledgement and completion is of an emission. -/
theorem SagasOfEmissions.extend (hs : SagasOfEmissions json s) (hprovenance : Provenance json t)
    (hreachable : DocumentHandler.subscriber.Reachable t.subscriber)
    (hemitted : t.emitted = s.emitted)
    (hsagas : (t.openSagas ++ t.completedSagas).Perm (s.openSagas ++ s.completedSagas))
    (hacknowledged : ∀ ack ∈ t.acknowledgements,
      ack ∈ s.acknowledgements ∨ Emitted s ack.correlationId)
    (hcompletions : ∀ c ∈ t.completions, c ∈ s.completions ∨ Emitted s c) :
    SagasOfEmissions json t := by
  have hsame : ∀ c, Emitted s c → Emitted t c := by
    intro c hc
    unfold Emitted
    rw [hemitted]
    exact hc
  refine ⟨hprovenance, hreachable, ?_, ?_, ?_⟩
  · rw [hemitted]
    exact hs.sagas.trans hsagas.symm
  · exact fun ack hack => hsame _ ((hacknowledged ack hack).elim (hs.acknowledged ack) id)
  · exact fun c hc => hsame c ((hcompletions c hc).elim (hs.completions c) id)

theorem Emitted.of_descends {copy : Copy} (h : Descends s.emitted copy) :
    Emitted s copy.command.correlationId :=
  ⟨copy.command, List.mem_of_getElem? h, rfl⟩

/-- What the subscriber newly sends is the acknowledgement of the copy in hand. -/
theorem mem_acknowledgements_advance (hreachable : subscriber.Reachable s.subscriber)
    {event : SubscriberEvent} {v : Subscriber}
    (hstep : DocumentHandler.step s.subscriber event = some v)
    {ack : SendAcknowledgementCommand} (hack : ack ∈ (s.advance event v).acknowledgements) :
    ack ∈ s.acknowledgements ∨ ∃ h, s.subscriber.handling = some h ∧
      ack = successAcknowledgement h.copy.command := by
  change ack ∈ s.acknowledgements ++ v.sent.drop s.subscriber.sent.length at hack
  rcases step_sent hstep with hsent | ⟨h, -, hh, hreturned, haborted, hsent⟩
  · rw [hsent, List.drop_length, List.append_nil] at hack
    exact Or.inl hack
  · have hat := (Consistent.of_reachable hreachable).handling h hh
    rw [hsent, List.drop_left, hat.acknowledged hreturned haborted] at hack
    rcases List.mem_append.mp hack with hold | hnew
    · exact Or.inl hold
    · exact Or.inr ⟨h, hh, List.mem_singleton.mp hnew⟩

theorem SagasOfEmissions.sent (hs : SagasOfEmissions json s) {event : SubscriberEvent}
    {v : Subscriber} (hstep : DocumentHandler.step s.subscriber event = some v) :
    ∀ ack ∈ (s.advance event v).acknowledgements,
      ack ∈ s.acknowledgements ∨ Emitted s ack.correlationId := by
  intro ack hack
  refine (mem_acknowledgements_advance hs.reachable hstep hack).imp_right ?_
  rintro ⟨h, hh, rfl⟩
  exact .of_descends (hs.provenance.handling hh)

theorem SagasOfEmissions.acknowledge (hs : SagasOfEmissions json s) {position : ℕ}
    {ack : SendAcknowledgementCommand} (hack : ack ∈ s.acknowledgements) (now : DateTime)
    (outcome : PostOutcome) :
    SagasOfEmissions json (s.acknowledge position ack now outcome) := by
  have hprovenance : Provenance json (s.acknowledge position ack now outcome) :=
    hs.provenance.acknowledge ack now outcome
  have hcompletions : ∀ c ∈ s.completions ++ (post s.hub.messageLog ack now).2,
      c ∈ s.completions ∨ Emitted s c := by
    intro c hc
    refine (List.mem_append.mp hc).imp_right fun hnew => ?_
    obtain ⟨-, rfl⟩ := mem_post_sent.mp hnew
    exact hs.acknowledged ack hack
  cases outcome with
  | answered =>
      exact hs.extend hprovenance hs.reachable rfl (.refl _)
        (fun a ha => Or.inl (List.mem_of_mem_eraseIdx ha)) hcompletions
  | unanswered =>
      exact hs.extend hprovenance hs.reachable rfl (.refl _) (fun _ => Or.inl) hcompletions
  | sendThrew =>
      exact hs.extend hprovenance hs.reachable rfl (.refl _) (fun _ => Or.inl) (fun _ => Or.inl)

/-- Completing moves a saga from the open ones to the completed ones. -/
theorem markAsComplete_sagas (s : Path Json) (correlationId : Guid) :
    ((s.markAsComplete correlationId).openSagas ++
        (s.markAsComplete correlationId).completedSagas).Perm
      (s.openSagas ++ s.completedSagas) := by
  unfold Path.markAsComplete
  by_cases hmem : correlationId ∈ s.openSagas
  · simp only [List.contains_iff_mem.mpr hmem, if_true]
    exact List.perm_middle.trans ((List.perm_cons_erase hmem).symm.append_right s.completedSagas)
  · simp only [List.erase_of_not_mem hmem, List.contains_iff_mem, hmem, if_false]
    exact .refl _

theorem SagasOfEmissions.handleCompletion (hs : SagasOfEmissions json s) (position : ℕ)
    (consumed : Bool) (correlationId : Guid) :
    SagasOfEmissions json (s.handleCompletion position consumed correlationId) :=
  hs.extend { hs.provenance with } hs.reachable rfl (markAsComplete_sagas s correlationId)
    (fun _ => Or.inl) fun _ hc => Or.inl (mem_consumed hc)

theorem SagasOfEmissions.step (hs : SagasOfEmissions json s) {e : PathEvent}
    (hstep : RemotePath.step json s e = some t) : SagasOfEmissions json t := by
  have hprovenance := hs.provenance.step hstep
  have hreachable := subscriber_reachable hs.reachable hstep
  cases e with
  | emitted command =>
      obtain rfl := Option.some.inj hstep
      exact hs.emit command
  | pushed position outcome =>
      obtain ⟨copy, -, rfl⟩ := Option.map_eq_some_iff.mp hstep
      unfold Path.push at hprovenance ⊢
      split at hprovenance
      · exact hs.extend hprovenance hs.reachable rfl (.refl _) (fun _ => Or.inl)
          (fun _ => Or.inl)
      · exact hs
  | throttled position now =>
      obtain ⟨copy, -, rfl⟩ := Option.map_eq_some_iff.mp hstep
      unfold Path.throttle at hprovenance ⊢
      split at hprovenance
      · exact hs.extend hprovenance hs.reachable rfl (.refl _) (fun _ => Or.inl)
          (fun _ => Or.inl)
      · exact hs.extend hprovenance hs.reachable rfl (.refl _) (fun _ => Or.inl)
          (fun _ => Or.inl)
  | discarded position | audited position headers | auditDiscarded position
  | duplicated position =>
      obtain ⟨copy, -, rfl⟩ := Option.map_eq_some_iff.mp hstep
      exact hs.extend hprovenance hreachable rfl (.refl _) (fun _ => Or.inl)
        (fun _ => Or.inl)
  | auditedElsewhere message headers =>
      obtain ⟨-, hstep⟩ := Option.ite_none_left_eq_some.mp hstep
      obtain rfl := Option.some.inj hstep
      exact hs.extend hprovenance hreachable rfl (.refl _) (fun _ => Or.inl)
        (fun _ => Or.inl)
  | subscriber event =>
      obtain ⟨-, hstep⟩ := Option.ite_none_right_eq_some.mp hstep
      obtain ⟨subscriber, hsubscriber, rfl⟩ := Option.map_eq_some_iff.mp hstep
      exact hs.extend hprovenance hreachable rfl (.refl _) (hs.sent hsubscriber)
        (fun _ => Or.inl)
  | posted position now outcome =>
      obtain ⟨ack, hack, rfl⟩ := Option.map_eq_some_iff.mp hstep
      exact hs.acknowledge (List.mem_of_getElem? hack) now outcome
  | acknowledgementDiscarded position =>
      obtain rfl := Option.some.inj hstep
      exact hs.extend hprovenance hreachable rfl (.refl _)
        (fun _ ha => Or.inl (List.mem_of_mem_eraseIdx ha)) (fun _ => Or.inl)
  | sagaCompleted position consumed =>
      obtain ⟨correlationId, -, rfl⟩ := Option.map_eq_some_iff.mp hstep
      exact hs.handleCompletion position consumed correlationId
  | completionDiscarded position =>
      obtain rfl := Option.some.inj hstep
      exact hs.extend hprovenance hreachable rfl (.refl _) (fun _ => Or.inl)
        fun _ hc => Or.inl (List.mem_of_mem_eraseIdx hc)
  | completionAudited position now consumed =>
      obtain ⟨correlationId, -, rfl⟩ := Option.map_eq_some_iff.mp hstep
      exact hs.extend hprovenance hreachable rfl (.refl _) (fun _ => Or.inl)
        (fun _ => Or.inl)
  | _ =>
      obtain rfl := Option.some.inj hstep
      exact hs.extend hprovenance hreachable rfl (.refl _) (fun _ => Or.inl)
        (fun _ => Or.inl)

theorem SagasOfEmissions.auditCompletion (hs : SagasOfEmissions json s) (c : Guid)
    (now : DateTime) :
    SagasOfEmissions json (s.withLog (handleCompletionAuditMessage s.hub.messageLog c now)) := by
  refine hs.extend { hs.provenance with rows := hs.provenance.rows.complete c now } hs.reachable
    rfl (.refl _) (fun _ => Or.inl) (fun _ => Or.inl)

theorem ne_emitted {e : PathEvent} (he : ofPathOnly e = true)
    (command : InsertDocumentIntoRemoteBackOfficeCommand) : e ≠ .emitted command := by
  rintro rfl
  cases he

/-- Only the saga endpoint starts and completes sagas and emits commands. -/
theorem step_ofPathOnly {e : PathEvent} (he : ofPathOnly e = true)
    (hstep : RemotePath.step json s e = some t) :
    t.emitted = s.emitted ∧ t.openSagas = s.openSagas ∧ t.completedSagas = s.completedSagas := by
  cases e with
  | emitted command => cases he
  | sagaCompleted position consumed => cases he
  | pushed position outcome =>
      obtain ⟨copy, -, rfl⟩ := Option.map_eq_some_iff.mp hstep
      unfold Path.push
      split <;> exact ⟨rfl, rfl, rfl⟩
  | throttled position now =>
      obtain ⟨copy, -, rfl⟩ := Option.map_eq_some_iff.mp hstep
      unfold Path.throttle
      split <;> exact ⟨rfl, rfl, rfl⟩
  | discarded position | audited position headers | auditDiscarded position
  | duplicated position =>
      obtain ⟨copy, -, rfl⟩ := Option.map_eq_some_iff.mp hstep
      exact ⟨rfl, rfl, rfl⟩
  | auditedElsewhere message headers =>
      obtain ⟨-, hstep⟩ := Option.ite_none_left_eq_some.mp hstep
      obtain rfl := Option.some.inj hstep
      exact ⟨rfl, rfl, rfl⟩
  | subscriber event =>
      obtain ⟨-, hstep⟩ := Option.ite_none_right_eq_some.mp hstep
      obtain ⟨subscriber, -, rfl⟩ := Option.map_eq_some_iff.mp hstep
      exact ⟨rfl, rfl, rfl⟩
  | posted position now outcome =>
      obtain ⟨ack, -, rfl⟩ := Option.map_eq_some_iff.mp hstep
      cases outcome <;> exact ⟨rfl, rfl, rfl⟩
  | completionAudited position now consumed =>
      obtain ⟨correlationId, -, rfl⟩ := Option.map_eq_some_iff.mp hstep
      exact ⟨rfl, rfl, rfl⟩
  | _ =>
      obtain rfl := Option.some.inj hstep
      exact ⟨rfl, rfl, rfl⟩

end SagasOfEmissions

end ReliableSignalR.RemoteSagas
