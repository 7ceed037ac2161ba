import ReliableSignalR.AgreementSaga

/-!
# How often a saga emits its insert command

Each command that the saga emits gets an id of its own, and the subscriber knows
a command again by that id only. The saga writes down when the document was
downloaded, but it asks for that nowhere: every downloaded event that reaches a
saga emits one more command. So a correlation has one command id exactly as long
as its sagas handle one such event.
-/
namespace ReliableSignalR.SagaEmissions
open DotNet EventRuns Messages AgreementSaga

/-- All commands emitted for one correlation have one id. -/
def OneIdPerAgreement (s : Agreements) : Prop :=
  ∀ c ∈ s.emitted, ∀ c' ∈ s.emitted, c.command.correlationId = c'.command.correlationId →
    c.command.id = c'.command.id

/-- Some strategy applies to the broker, so that the handler gets as far as its send. -/
def HasStrategy (brokerId : ℤ) : Prop := ∃ b ∈ backOfficeStrategies, b.isApplicable brokerId = true

instance (brokerId : ℤ) : Decidable (HasStrategy brokerId) :=
  inferInstanceAs (Decidable (∃ b ∈ backOfficeStrategies, _))

/-- The condition on a step: a downloaded event that a saga sends on is the first
one of its correlation that a saga has handled. -/
def FirstHandledDownload (s : Agreements) : AgreementEvent → Prop
  | .documentDownloadedHandled position _ _ =>
      ∀ event ∈ s.downloadedEvents[position]?, ∀ data ∈ s.sagas event.correlationId,
        HasStrategy data.brokerId →
          ∀ handled ∈ s.handledDownloads, handled.correlationId ≠ event.correlationId
  | _ => True

instance (s : Agreements) : ∀ e, Decidable (FirstHandledDownload s e)
  | .documentDownloadedHandled _ _ _ =>
      inferInstanceAs (Decidable (∀ event ∈ _, ∀ data ∈ _, _ → ∀ handled ∈ _, _))
  | .submitted _ | .submitHandled _ _ _ | .downloadHandled _ _ _
  | .completeAgreementSagaHandled _ | .onlineDocumentInsertedHandled _ => isTrue trivial

/-- What is assumed of `Guid.NewGuid`: it draws no id that a command already has. -/
def DrawsNewId (s : Agreements) : AgreementEvent → Prop
  | .documentDownloadedHandled _ _ drawn => ∀ c ∈ s.emitted, c.command.id ≠ drawn.id
  | _ => True

instance (s : Agreements) : ∀ e, Decidable (DrawsNewId s e)
  | .documentDownloadedHandled _ _ _ => inferInstanceAs (Decidable (∀ c ∈ s.emitted, _))
  | .submitted _ | .submitHandled _ _ _ | .downloadHandled _ _ _
  | .completeAgreementSagaHandled _ | .onlineDocumentInsertedHandled _ => isTrue trivial

/-- The emitted commands answer the handled events one by one. -/
def Answered (s : Agreements) : Prop :=
  s.emitted.map (fun c => c.command.correlationId) =
    s.handledDownloads.map fun event => event.correlationId

/-- The event is dropped or its handling rolled back, or one command is emitted for it. -/
inductive Sent (s : Agreements) (event : DocumentDownloadedEvent) (drawn : Drawn) :
    Agreements → Prop
  | nothing (none : ∀ data, s.sagas event.correlationId = some data → ¬HasStrategy data.brokerId) :
      Sent s event drawn s
  | command (t : Agreements) (data : AgreementSagaData) (c : InsertDocumentCommand)
      (saga : s.sagas event.correlationId = some data) (strategy : HasStrategy data.brokerId)
      (id : c.command.id = drawn.id) (correlationId : c.command.correlationId = event.correlationId)
      (emitted : t.emitted = s.emitted ++ [c])
      (handled : t.handledDownloads = s.handledDownloads ++ [event]) : Sent s event drawn t

section Steps
variable {s t : Agreements} {event : DocumentDownloadedEvent} {now : DateTime} {drawn : Drawn}

theorem handleDocumentDownloadedEvent_error {data : AgreementSagaData} {x : Exception}
    (h : handleDocumentDownloadedEvent data event now drawn = .error x) :
    ¬HasStrategy data.brokerId := by
  intro ⟨b, hb, happlies⟩
  unfold handleDocumentDownloadedEvent at h
  split at h
  · next hnone => exact List.find?_eq_none.mp hnone b hb happlies
  · cases h

theorem sendDocument_sent (s : Agreements) (event : DocumentDownloadedEvent) (now : DateTime)
    (drawn : Drawn) : Sent s event drawn (s.sendDocument event now drawn) := by
  unfold Agreements.sendDocument
  split
  · next hnone =>
    apply Sent.nothing
    intro data hdata
    rw [hnone] at hdata
    cases hdata
  · next data hdata =>
    split
    · next x herror =>
      apply Sent.nothing
      intro data' hdata'
      obtain rfl := Option.some.inj (hdata.symm.trans hdata')
      exact handleDocumentDownloadedEvent_error herror
    · next data' command hok =>
      obtain ⟨-, hcommand, hbroker⟩ := handleDocumentDownloadedEvent_ok hok
      have hstrategy : HasStrategy data.brokerId := by
        rw [← hbroker]
        cases command with
        | remote c => exact ⟨remoteStrategy, by simp [backOfficeStrategies], rfl⟩
        | online c => exact ⟨onlineStrategy, by simp [backOfficeStrategies], rfl⟩
      apply Sent.command _ data command hdata hstrategy
      · rw [hcommand]
        rfl
      · rw [hcommand]
        rfl
      · rfl
      · rfl

/-- Only a downloaded event can emit a command. -/
theorem step_emitted {compressWithGzip : List UInt8 → List UInt8} {e : AgreementEvent}
    (hstep : step compressWithGzip s e = some t) :
    (∀ position now drawn, e ≠ .documentDownloadedHandled position now drawn) ∧
        t.emitted = s.emitted ∧ t.handledDownloads = s.handledDownloads ∨
      ∃ position now drawn event, e = .documentDownloadedHandled position now drawn ∧
        s.downloadedEvents[position]? = some event ∧ Sent s event drawn t := by
  cases e with
  | submitted command =>
      obtain rfl := Option.some.inj hstep
      exact Or.inl ⟨nofun, rfl, rfl⟩
  | submitHandled position now drawn =>
      obtain ⟨command, -, rfl⟩ := Option.map_eq_some_iff.mp hstep
      exact Or.inl ⟨nofun, rfl, rfl⟩
  | downloadHandled position response drawn =>
      obtain ⟨command, -, rfl⟩ := Option.map_eq_some_iff.mp hstep
      refine Or.inl ⟨nofun, ?_⟩
      unfold Agreements.download
      cases handleDownloadDocumentCommand compressWithGzip command response drawn with
      | error e => exact ⟨rfl, rfl⟩
      | ok event => exact ⟨rfl, rfl⟩
  | documentDownloadedHandled position now drawn =>
      obtain ⟨event, hevent, rfl⟩ := Option.map_eq_some_iff.mp hstep
      exact Or.inr ⟨position, now, drawn, event, rfl, hevent, sendDocument_sent s event now drawn⟩
  | completeAgreementSagaHandled correlationId =>
      obtain rfl := Option.some.inj hstep
      exact Or.inl ⟨nofun, rfl, rfl⟩
  | onlineDocumentInsertedHandled correlationId =>
      obtain rfl := Option.some.inj hstep
      exact Or.inl ⟨nofun, rfl, rfl⟩

theorem Answered.step (hs : Answered s) {compressWithGzip : List UInt8 → List UInt8}
    {e : AgreementEvent} (hstep : step compressWithGzip s e = some t) : Answered t := by
  unfold Answered at hs ⊢
  rcases step_emitted hstep with ⟨-, hemitted, hhandled⟩ | ⟨_, _, _, event, _, _, hsent⟩
  · rw [hemitted, hhandled]
    exact hs
  · cases hsent with
    | nothing _ => exact hs
    | command _ _ c _ _ _ hcorrelation hemitted hhandled =>
        rw [hemitted, hhandled, List.map_append, List.map_append, hs]
        simp only [List.map_cons, List.map_nil, hcorrelation]

/-- A command of a handled event's correlation has been emitted. -/
theorem Answered.emitted_iff (hs : Answered s) {correlationId : Guid} :
    (∃ c ∈ s.emitted, c.command.correlationId = correlationId) ↔
      ∃ event ∈ s.handledDownloads, event.correlationId = correlationId := by
  have hmem : correlationId ∈ s.emitted.map (fun c => c.command.correlationId) ↔
      correlationId ∈ s.handledDownloads.map fun event => event.correlationId := by
    rw [hs]
  simpa only [List.mem_map] using hmem

/-- One more command leaves one id per agreement exactly if it is the first of its
correlation. -/
theorem oneId_append {emitted : List InsertDocumentCommand} {c : InsertDocumentCommand}
    (hs : ∀ d ∈ emitted, ∀ d' ∈ emitted, d.command.correlationId = d'.command.correlationId →
      d.command.id = d'.command.id)
    (hnew : ∀ d ∈ emitted, d.command.id ≠ c.command.id) :
    (∀ d ∈ emitted ++ [c], ∀ d' ∈ emitted ++ [c],
      d.command.correlationId = d'.command.correlationId → d.command.id = d'.command.id) ↔
      ¬∃ d ∈ emitted, d.command.correlationId = c.command.correlationId := by
  have hlast : c ∈ emitted ++ [c] := List.mem_append_right _ (List.mem_singleton.mpr rfl)
  constructor
  · intro h ⟨d, hd, heq⟩
    exact hnew d hd (h d (List.mem_append_left _ hd) c hlast heq)
  · intro hfirst d hd d' hd' heq
    rcases List.mem_append.mp hd with hold | hlast
    · rcases List.mem_append.mp hd' with hold' | hlast'
      · exact hs d hold d' hold' heq
      · rw [List.mem_singleton.mp hlast'] at heq
        exact absurd ⟨d, hold, heq⟩ hfirst
    · rw [List.mem_singleton.mp hlast] at heq ⊢
      rcases List.mem_append.mp hd' with hold' | hlast'
      · exact absurd ⟨d', hold', heq.symm⟩ hfirst
      · rw [List.mem_singleton.mp hlast']

theorem oneId_step (hs : Answered s) (hone : OneIdPerAgreement s)
    {compressWithGzip : List UInt8 → List UInt8} {e : AgreementEvent} (hnew : DrawsNewId s e)
    (hstep : step compressWithGzip s e = some t) :
    OneIdPerAgreement t ↔ FirstHandledDownload s e := by
  rcases step_emitted hstep with ⟨hquiet, hemitted, -⟩ |
    ⟨position, now, drawn, event, rfl, hevent, hsent⟩
  · have hcondition : FirstHandledDownload s e := by
      cases e with
      | documentDownloadedHandled position now drawn => exact absurd rfl (hquiet position now drawn)
      | _ => trivial
    unfold OneIdPerAgreement
    rw [hemitted]
    exact ⟨fun _ => hcondition, fun _ => hone⟩
  · have hcondition : FirstHandledDownload s (.documentDownloadedHandled position now drawn) ↔
        ∀ data, s.sagas event.correlationId = some data → HasStrategy data.brokerId →
          ¬∃ handled ∈ s.handledDownloads, handled.correlationId = event.correlationId := by
      simp only [FirstHandledDownload, hevent, Option.mem_def, Option.some.injEq, forall_eq',
        not_exists, not_and, ne_eq]
    rw [hcondition]
    cases hsent with
    | nothing hnone =>
        exact ⟨fun _ data hdata hstrategy => absurd hstrategy (hnone data hdata), fun _ => hone⟩
    | command _ data c hsaga hstrategy hid hcorrelation hemitted hhandled =>
        unfold OneIdPerAgreement
        rw [hemitted, oneId_append hone (fun d hd => hid ▸ hnew d hd), hcorrelation,
          hs.emitted_iff]
        constructor
        · exact fun hfirst _ _ _ => hfirst
        · exact fun h => h data hsaga hstrategy

end Steps

/-- In every run, whatever is delivered again and in whichever order: each
correlation has one command id precisely if each downloaded event that a saga
sends on is the first of its correlation to be handled. -/
theorem one_id_per_agreement_exactly_when (compressWithGzip : List UInt8 → List UInt8)
    (events : List AgreementEvent)
    (hnew : (agreements compressWithGzip).Meets DrawsNewId (agreements compressWithGzip).init
      events) :
    (agreements compressWithGzip).Always OneIdPerAgreement (agreements compressWithGzip).init
        events ↔
      (agreements compressWithGzip).Meets FirstHandledDownload (agreements compressWithGzip).init
        events := by
  apply Machine.always_iff_meets_under (B := Answered) (F := DrawsNewId)
  · exact fun s e t hs _ hstep => hs.step hstep
  · exact fun s e t hs hone he hstep => oneId_step hs hone he hstep
  · rfl
  · exact fun c hc => by cases hc
  · exact hnew

theorem two_agreements_one_id_each :
    (agreements id).Always OneIdPerAgreement (agreements id).init twoAgreements :=
  (one_id_per_agreement_exactly_when id twoAgreements (by decide +kernel)).mpr
    (by decide +kernel)

/-- The downloaded event is delivered a second time before the saga completes, and
a second command with another id goes out. -/
theorem redelivered_download_counterexample :
    ∃ s, (agreements id).run (agreements id).init
        [.submitted ⟨⟨1, 7, 123, 0⟩, "a", 1⟩, .submitHandled 0 0 ⟨2, 0⟩,
          .downloadHandled 0 (.ok ⟨true, [1]⟩) ⟨3, 0⟩, .documentDownloadedHandled 0 0 ⟨4, 0⟩,
          .documentDownloadedHandled 0 0 ⟨5, 0⟩] = some s ∧
      s.emitted = [.remote ⟨⟨⟨4, 7, 123, 0⟩, 1, [1]⟩⟩, .remote ⟨⟨⟨5, 7, 123, 0⟩, 1, [1]⟩⟩] ∧
      ¬OneIdPerAgreement s := by
  have hrun : ((agreements id).run (agreements id).init
      [.submitted ⟨⟨1, 7, 123, 0⟩, "a", 1⟩, .submitHandled 0 0 ⟨2, 0⟩,
        .downloadHandled 0 (.ok ⟨true, [1]⟩) ⟨3, 0⟩, .documentDownloadedHandled 0 0 ⟨4, 0⟩,
        .documentDownloadedHandled 0 0 ⟨5, 0⟩]).map (fun s => s.emitted) =
      some [.remote ⟨⟨⟨4, 7, 123, 0⟩, 1, [1]⟩⟩, .remote ⟨⟨⟨5, 7, 123, 0⟩, 1, [1]⟩⟩] := by
    decide +kernel
  obtain ⟨s, hs, hemitted⟩ := Option.map_eq_some_iff.mp hrun
  refine ⟨s, hs, hemitted, fun h => ?_⟩
  unfold OneIdPerAgreement at h
  rw [hemitted] at h
  revert h
  decide

end ReliableSignalR.SagaEmissions
