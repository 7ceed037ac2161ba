import ReliableSignalR.AgreementPlaces
import ReliableSignalR.RemoteSagas
import ReliableSignalR.SagaEmissions

/-!
# The life cycle of an agreement

Every submitted agreement is at one place: in one queue, in one error queue, at one
station of the remote path, or completed. The places follow one another as
`Follows` says, so that no agreement is lost, none is under way twice, and none
comes back to a place that it has left. Its saga runs exactly from the handling of
its submission to its completion, wherever in between it is.

The abstract level is a board with one token for each agreement, and the system
of endpoints refines it.
-/
namespace ReliableSignalR.AgreementLifeCycle
open DotNet EventRuns Messages TokenBoard AgreementSaga RemotePath AuditEndpoint
open DocumentHandler AgreementDelivery AgreementPlaces RemoteSagas RemoteStations
open SagaEmissions (HasStrategy handleDocumentDownloadedEvent_error)

variable {Json : Type}

/-- The document of the agreement was written in the online back office. -/
def WrittenOnline (s : Delivery Json) (c : Guid) : Prop :=
  ∃ m ∈ s.insertedOnline, m.correlationId = c

/-- Whatever is queued was sent before, and an event of the online back office is
of a document that it wrote. -/
structure Recorded (s : Delivery Json) : Prop where
  submitQueue : ∀ m ∈ s.submitQueue, m ∈ s.agreements.submitted
  downloadQueue : ∀ m ∈ s.downloadQueue, m ∈ s.agreements.downloadCommands
  downloadedQueue : ∀ m ∈ s.downloadedQueue, m ∈ s.agreements.downloadedEvents
  onlineQueue : ∀ m ∈ s.onlineQueue, .online m ∈ s.agreements.emitted
  insertedOnline : ∀ m ∈ s.insertedOnline, .online m ∈ s.agreements.emitted
  insertedQueue : ∀ m ∈ s.insertedQueue, WrittenOnline s m.correlationId
  completedOnline : ∀ c ∈ s.completedOnline, WrittenOnline s c
  remote : ∀ m ∈ s.path.emitted, .remote m ∈ s.agreements.emitted

structure Lawful (json : JsonSerializer Json) (compressWithGzip : List UInt8 → List UInt8)
    (s : Delivery Json) : Prop where
  onePlace : InOnePlace s
  traced : Traced compressWithGzip s.agreements
  brokers : ∀ a ∈ s.agreements.submitted, a.brokerId = 123 ∨ a.brokerId = 456
  recorded : Recorded s
  remote : CommandsTracked json s.path

/-- The step of the life cycle that an event is. -/
def boardEvents (compressWithGzip : List UInt8 → List UInt8) (s : Delivery Json) :
    DeliveryEvent → List (BoardEvent Guid Place)
  | .submitOnlineAgreement correlationId _ | .submitRemoteAgreement correlationId _ =>
      [.minted correlationId]
  | .submitHandled position _ _ =>
      s.submitQueue[position]?.toList.map fun m =>
        .moved m.correlationId (.waiting .downloadDocument)
  | .downloadHandled position response drawn =>
      s.downloadQueue[position]?.toList.flatMap fun m =>
        (handleDownloadDocumentCommand compressWithGzip m response drawn).toOption.toList.map
          fun event => .moved event.correlationId (.waiting .documentDownloaded)
  | .documentDownloadedHandled position now drawn =>
      s.downloadedQueue[position]?.toList.flatMap fun event =>
        (s.agreements.sagas event.correlationId).toList.flatMap fun data =>
          (handleDocumentDownloadedEvent data event now drawn).toOption.toList.map fun sent =>
            .moved event.correlationId
              (match sent.2 with
                | .remote _ => .remote .hub
                | .online _ => .waiting .insertOnline)
  | .insertOnlineHandled position _ outcome =>
      s.onlineQueue[position]?.toList.flatMap fun m =>
        outcome.toOption.toList.map fun _ => .moved m.correlationId (.waiting .onlineInserted)
  | .onlineDocumentInsertedHandled position =>
      s.insertedQueue[position]?.toList.map fun m => .moved m.correlationId .completed
  | .completeAgreementSagaHandled position _ =>
      (s.path.completions[position]?.toList.filter fun c => s.path.openSagas.contains c).map
        fun c => .moved c .completed
  | .forwarded queue position =>
      (agreementsAt s (.waiting queue))[position]?.toList.map fun c => .moved c (.failed queue)
  | .path event =>
      ((stationMove s.path event).filter fun move =>
        !s.path.completedSagas.contains move.1).toList.map fun move =>
          .moved move.1 (.remote move.2)
  | .onlineCompletionAudited .. => []

section Steps
variable {json : JsonSerializer Json} {compressWithGzip : List UInt8 → List UInt8}
  {s t : Delivery Json} {position : ℕ}

theorem save_sagas_self (a : Agreements) (c : Guid) (data : AgreementSagaData) :
    ((a.save c data).sagas c).isSome = true := by
  simp [Agreements.save]

theorem moved_submit (hs : InOnePlace s) {command : SubmitAgreementCommand}
    (hnew : command.correlationId ∉ s.agreements.submitted.map fun a => a.correlationId) :
    Moved s (s.submit command) [.minted command.correlationId] := by
  have hunborn : stage s command.correlationId = none := by
    rw [hs.submitted] at hnew
    exact Option.not_isSome_iff_eq_none.mp hnew
  refine .minted command hunborn ?_ ?_ rfl rfl
  · exact perm_put s.submitQueue command fun m => m.correlationId
  · intro p hp
    cases p with
    | waiting queue => cases queue <;> first | exact absurd rfl hp | exact .refl _
    | _ => exact .refl _

theorem moved_handleSubmit {command : SubmitAgreementCommand}
    (hcommand : s.submitQueue[position]? = some command) (now : DateTime) (drawn : Drawn) :
    Moved s (s.handleSubmit position command now drawn)
      [.moved command.correlationId (.waiting .downloadDocument)] := by
  refine .moved _ (.waiting .submitAgreement) _ rfl ⟨?_, ?_, ?_⟩ rfl ?_ ?_
  · exact perm_take (fun m => m.correlationId) hcommand
  · exact perm_put s.downloadQueue _ fun m => m.correlationId
  · intro r hp hq
    cases r with
    | waiting queue =>
        cases queue <;> first | exact absurd rfl hp | exact absurd rfl hq | exact .refl _
    | _ => exact .refl _
  · exact save_sagas_self _ _ _
  · exact fun c hc => Function.update_of_ne hc _ _

theorem download_sagas (compressWithGzip : List UInt8 → List UInt8) (a : Agreements)
    (command : DownloadDocumentCommand) (response : Except Exception HttpResponse)
    (drawn : Drawn) :
    (a.download compressWithGzip command response drawn).sagas = a.sagas ∧
      (a.download compressWithGzip command response drawn).submitted = a.submitted := by
  unfold Agreements.download
  cases handleDownloadDocumentCommand compressWithGzip command response drawn <;> exact ⟨rfl, rfl⟩

theorem moved_handleDownload (hs : InOnePlace s) {command : DownloadDocumentCommand}
    (hcommand : s.downloadQueue[position]? = some command)
    (response : Except Exception HttpResponse) (drawn : Drawn) :
    Moved s (s.handleDownload compressWithGzip position command response drawn)
      ((handleDownloadDocumentCommand compressWithGzip command response drawn).toOption.toList.map
        fun event => .moved event.correlationId (.waiting .documentDownloaded)) := by
  obtain ⟨hsagas, hsubmitted⟩ :=
    download_sagas compressWithGzip s.agreements command response drawn
  have hrunning := hs.running (p := .waiting .downloadDocument)
    (List.mem_map_of_mem (List.mem_of_getElem? hcommand))
  unfold Delivery.handleDownload
  cases hhandled : handleDownloadDocumentCommand compressWithGzip command response drawn with
  | error x =>
      exact .stayed (fun p => by cases p with
        | waiting queue => cases queue <;> exact .refl _
        | _ => exact .refl _) hsubmitted (fun c => by rw [hsagas])
  | ok event =>
      obtain ⟨hcorrelation, -⟩ := handleDownloadDocumentCommand_ok hhandled
      refine .moved _ (.waiting .downloadDocument) _ rfl ⟨?_, ?_, ?_⟩ hsubmitted ?_ ?_
      · rw [hcorrelation]
        exact perm_take (fun m => m.correlationId) hcommand
      · exact perm_put s.downloadedQueue event fun m => m.correlationId
      · intro r hp hq
        cases r with
        | waiting queue =>
            cases queue <;> first | exact absurd rfl hp | exact absurd rfl hq | exact .refl _
        | _ => exact .refl _
      · rw [hcorrelation]
        exact (congrArg (fun sagas => (sagas command.correlationId).isSome) hsagas).trans hrunning
      · exact fun c _ => congrFun hsagas c

/-- The saga of a downloaded document is there and has a strategy. -/
theorem Lawful.handles (hs : Lawful json compressWithGzip s) {event : DocumentDownloadedEvent}
    (hevent : event ∈ s.downloadedQueue) (now : DateTime) (drawn : Drawn) :
    ∃ data data' command, s.agreements.sagas event.correlationId = some data ∧
      handleDocumentDownloadedEvent data event now drawn = .ok (data', command) := by
  have hrunning := hs.onePlace.running (p := .waiting .documentDownloaded)
    (List.mem_map_of_mem hevent)
  obtain ⟨data, hdata⟩ := Option.isSome_iff_exists.mp hrunning
  obtain ⟨a, ha⟩ := hs.traced.saga _ _ hdata
  have hbroker : data.brokerId = 123 ∨ data.brokerId = 456 := by
    rw [ha.brokerId]
    exact hs.brokers a ha.submitted
  have hstrategy : HasStrategy data.brokerId := by
    rcases hbroker with hbroker | hbroker <;> rw [hbroker] <;> decide
  cases hhandled : handleDocumentDownloadedEvent data event now drawn with
  | error x => exact absurd hstrategy (handleDocumentDownloadedEvent_error hhandled)
  | ok sent => exact ⟨data, sent.1, sent.2, hdata, hhandled⟩

/-- What remains of a handled downloaded event: it has left its queue, its saga
has written the time, and the command is on its way. -/
theorem handleDocumentDownloaded_eq {event : DocumentDownloadedEvent} {now : DateTime}
    {drawn : Drawn} {data data' : AgreementSagaData} {command : InsertDocumentCommand}
    (hdata : s.agreements.sagas event.correlationId = some data)
    (hhandled : handleDocumentDownloadedEvent data event now drawn = .ok (data', command)) :
    s.handleDocumentDownloaded position event now drawn =
      { s with
        agreements :=
          { s.agreements.save event.correlationId data' with
            handledDownloads := s.agreements.handledDownloads ++ [event]
            emitted := s.agreements.emitted ++ [command] }
        downloadedQueue := s.downloadedQueue.eraseIdx position : Delivery Json }.send command := by
  unfold Delivery.handleDocumentDownloaded Agreements.sendDocument
  simp only [hdata, hhandled]

theorem moved_handleDocumentDownloaded (hs : Lawful json compressWithGzip s)
    {event : DocumentDownloadedEvent} (hevent : s.downloadedQueue[position]? = some event)
    (now : DateTime) (drawn : Drawn) :
    Moved s (s.handleDocumentDownloaded position event now drawn)
      ((s.agreements.sagas event.correlationId).toList.flatMap fun data =>
        (handleDocumentDownloadedEvent data event now drawn).toOption.toList.map fun sent =>
          .moved event.correlationId
            (match sent.2 with
              | .remote _ => .remote .hub
              | .online _ => .waiting .insertOnline)) := by
  obtain ⟨data, data', command, hdata, hhandled⟩ :=
    hs.handles (List.mem_of_getElem? hevent) now drawn
  obtain ⟨-, hcommand, -⟩ := handleDocumentDownloadedEvent_ok hhandled
  have hcorrelation : command.command.correlationId = event.correlationId := by
    rw [hcommand]
    rfl
  rw [handleDocumentDownloaded_eq hdata hhandled]
  simp only [hdata, hhandled, Except.toOption, Option.toList_some, List.flatMap_cons,
    List.flatMap_nil, List.append_nil, List.map_cons, List.map_nil]
  cases command with
  | remote command =>
      have hnew : (!s.path.completedSagas.contains event.correlationId) = true := by
        have hopen := hs.onePlace.not_completed (p := .waiting .documentDownloaded) nofun
          (List.mem_map_of_mem (List.mem_of_getElem? hevent))
        simpa using hopen
      obtain ⟨hhub, hothers⟩ := commandsAt_emit s.path command
      rw [show command.correlationId = event.correlationId from hcorrelation] at hhub
      refine .moved _ (.waiting .documentDownloaded) _ rfl ⟨?_, ?_, ?_⟩ rfl ?_ ?_
      · exact perm_take (fun m => m.correlationId) hevent
      · have hput := hhub.filter fun c => !s.path.completedSagas.contains c
        simp only [List.filter_cons, hnew, if_true] at hput
        exact hput
      · intro r hp hq
        cases r with
        | waiting queue => cases queue <;> first | exact absurd rfl hp | exact .refl _
        | remote station =>
            have hstation : station ≠ .hub := fun heq => hq (congrArg Place.remote heq)
            exact openCommandsAt_perm (s := s.path) (t := s.path.emit command) rfl
              (.of_eq (hothers station hstation))
        | _ => exact .refl _
      · exact save_sagas_self _ _ _
      · exact fun c hc => Function.update_of_ne hc _ _
  | online command =>
      refine .moved _ (.waiting .documentDownloaded) _ rfl ⟨?_, ?_, ?_⟩ rfl ?_ ?_
      · exact perm_take (fun m => m.correlationId) hevent
      · rw [← show command.correlationId = event.correlationId from hcorrelation]
        exact perm_put s.onlineQueue command fun m => m.correlationId
      · intro r hp hq
        cases r with
        | waiting queue =>
            cases queue <;> first | exact absurd rfl hp | exact absurd rfl hq | exact .refl _
        | _ => exact .refl _
      · exact save_sagas_self _ _ _
      · exact fun c hc => Function.update_of_ne hc _ _

theorem moved_handleInsertOnline (hs : InOnePlace s)
    {command : InsertDocumentIntoOnlineBackOfficeCommand}
    (hcommand : s.onlineQueue[position]? = some command) (drawn : Drawn)
    (outcome : Except Exception Unit) :
    Moved s (s.handleInsertOnline position command drawn outcome)
      (outcome.toOption.toList.map fun _ =>
        .moved command.correlationId (.waiting .onlineInserted)) := by
  cases outcome with
  | error x =>
      refine .stayed (fun p => ?_) rfl (fun _ => rfl)
      cases p with
      | waiting queue => cases queue <;> exact .refl _
      | _ => exact .refl _
  | ok _ =>
      refine .moved _ (.waiting .insertOnline) _ rfl ⟨?_, ?_, ?_⟩ rfl ?_ (fun _ _ => rfl)
      · exact perm_take (fun m => m.correlationId) hcommand
      · exact perm_put s.insertedQueue _ fun m => m.correlationId
      · intro r hp hq
        cases r with
        | waiting queue =>
            cases queue <;> first | exact absurd rfl hp | exact absurd rfl hq | exact .refl _
        | _ => exact .refl _
      · exact hs.running (p := .waiting .insertOnline)
          (List.mem_map_of_mem (List.mem_of_getElem? hcommand))

theorem moved_handleOnlineInserted (hs : InOnePlace s)
    {event : OnlineDocumentSuccessfullyInsertedEvent}
    (hevent : s.insertedQueue[position]? = some event) :
    Moved s (s.handleOnlineInserted position event)
      [.moved event.correlationId .completed] := by
  have hrunning : (s.agreements.sagas event.correlationId).isSome = true :=
    hs.running (p := .waiting .onlineInserted)
      (List.mem_map_of_mem (List.mem_of_getElem? hevent))
  unfold Delivery.handleOnlineInserted
  rw [if_pos hrunning]
  refine .moved _ (.waiting .onlineInserted) _ rfl ⟨?_, ?_, ?_⟩ rfl ?_ ?_
  · exact perm_take (fun m => m.correlationId) hevent
  · exact List.perm_middle
  · intro r hp hq
    cases r with
    | waiting queue => cases queue <;> first | exact absurd rfl hp | exact .refl _
    | completed => exact absurd rfl hq
    | _ => exact .refl _
  · simp [Agreements.markAsComplete, Place.hasSaga]
  · exact fun c hc => Function.update_of_ne hc _ _

/-- A completion completes the saga of an emission once; a repeated one finds none. -/
theorem Lawful.moved_handleCompleteAgreementSaga (hs : Lawful json compressWithGzip s)
    (consumed : Bool) {c : Guid} (hc : c ∈ s.path.completions) :
    Moved s (s.handleCompleteAgreementSaga position consumed c)
      ((some c).toList.filter (fun c => s.path.openSagas.contains c) |>.map
        fun c => .moved c .completed) := by
  by_cases hopen : c ∈ s.path.openSagas
  · have hcontains : s.path.openSagas.contains c = true := List.contains_iff_mem.mpr hopen
    simp only [hcontains, Option.toList_some, List.filter_cons_of_pos, List.filter_nil,
      List.map_cons, List.map_nil]
    have hcompleted : (s.path.handleCompletion position consumed c).completedSagas =
        c :: s.path.completedSagas := if_pos hcontains
    have hcommands : ∀ p, commandsAt (s.path.handleCompletion position consumed c) p =
        commandsAt s.path p := by
      intro p
      cases p <;> rfl
    obtain ⟨p, hp⟩ := hs.remote.openCommand hopen
    have hstage := (hs.onePlace.places.mem (.remote p) c).mp hp
    refine .moved _ (.remote p) _ rfl ⟨?_, ?_, ?_⟩ rfl ?_ ?_
    · have hnodup : (openCommandsAt s.path p).Nodup := hs.onePlace.places.nodup (.remote p)
      exact openCommandsAt_completed_self hcommands hcompleted hnodup hp
    · change ((s.path.handleCompletion position consumed c).completedSagas ++
        s.completedOnline).Perm _
      rw [hcompleted]
      exact .refl _
    · intro r hr hq
      cases r with
      | waiting queue => cases queue <;> exact .refl _
      | remote station =>
          have habsent : c ∉ openCommandsAt s.path station := by
            intro hmem
            have hstage' := (hs.onePlace.places.mem (.remote station) c).mp hmem
            exact hr (Option.some.inj (hstage'.symm.trans hstage))
          change (openCommandsAt (s.path.handleCompletion position consumed c) station).Perm _
          rw [openCommandsAt_completed_other hcommands hcompleted habsent]
          exact .refl _
      | completed => exact absurd rfl hq
      | failed queue => exact .refl _
    · simp [Delivery.handleCompleteAgreementSaga, Agreements.markAsComplete, Place.hasSaga]
    · exact fun c' hc' => Function.update_of_ne hc' _ _
  · have hcontains : ¬s.path.openSagas.contains c = true :=
      fun h => hopen (List.contains_iff_mem.mp h)
    have hcompleted : c ∈ s.path.completedSagas :=
      (hs.remote.emitted_iff.mp (hs.remote.completions c hc)).resolve_left hopen
    have hnone : (s.agreements.sagas c).isSome = false :=
      hs.onePlace.running (p := .completed) (List.mem_append_left _ hcompleted)
    have hsame : (s.path.handleCompletion position consumed c).completedSagas =
        s.path.completedSagas := if_neg hcontains
    simp only [hcontains, Option.toList_some, Bool.false_eq_true, List.filter_cons,
      List.filter_nil, List.map_nil, if_false]
    refine .stayed (fun p => ?_) rfl fun c' => ?_
    · cases p with
      | waiting queue => cases queue <;> exact .refl _
      | remote station => exact openCommandsAt_perm hsame (by cases station <;> exact .refl _)
      | completed =>
          change ((s.path.handleCompletion position consumed c).completedSagas ++
            s.completedOnline).Perm _
          rw [hsame]
          exact .refl _
      | failed queue => exact .refl _
    · by_cases hc' : c' = c
      · subst hc'
        rw [hnone]
        simp [Delivery.handleCompleteAgreementSaga, Agreements.markAsComplete]
      · change (Function.update s.agreements.sagas c none c').isSome = _
        rw [Function.update_of_ne hc']

/-- Forwarding takes a message out of its queue into the errors, with its correlation. -/
structure Forwarded (s t : Delivery Json) (queue : Queue) (position : ℕ) (m : FailedMessage) :
    Prop where
  origin : m.queue = queue
  waited : (agreementsAt s (.waiting queue))[position]? = some m.message.correlationId
  taken : (agreementsAt s (.waiting queue)).Perm
    (m.message.correlationId :: agreementsAt t (.waiting queue))
  others : ∀ queue' ≠ queue, agreementsAt t (.waiting queue') = agreementsAt s (.waiting queue')
  errors : t.errors = s.errors ++ [m]
  rest : t.path = s.path ∧ t.agreements = s.agreements ∧ t.completedOnline = s.completedOnline

theorem forwarded_take {α : Type} {queue : Queue} {waiting : List α} {f : α → Guid} {x : α}
    (hx : waiting[position]? = some x) {m : FailedMessage} (hqueue : m.queue = queue)
    (hm : m.message.correlationId = f x) (hs : agreementsAt s (.waiting queue) = waiting.map f)
    (ht : agreementsAt t (.waiting queue) = (waiting.eraseIdx position).map f)
    (hothers : ∀ queue' ≠ queue,
      agreementsAt t (.waiting queue') = agreementsAt s (.waiting queue'))
    (herrors : t.errors = s.errors ++ [m])
    (hrest : t.path = s.path ∧ t.agreements = s.agreements ∧
      t.completedOnline = s.completedOnline) : Forwarded s t queue position m where
  origin := hqueue
  waited := by
    rw [hs, hm, List.getElem?_map, hx]
    rfl
  taken := by
    rw [hs, ht, hm]
    exact perm_take f hx
  others := hothers
  errors := herrors
  rest := hrest

theorem forward_cases {queue : Queue} (hstep : s.forward position queue = some t) :
    ∃ m, Forwarded s t queue position m := by
  cases queue with
  | submitAgreement =>
      obtain ⟨m, hm, rfl⟩ := Option.map_eq_some_iff.mp hstep
      refine ⟨.submitAgreement m, forwarded_take hm rfl rfl rfl rfl ?_ rfl ⟨rfl, rfl, rfl⟩⟩
      intro queue' hne
      cases queue' <;> first | exact absurd rfl hne | rfl
  | downloadDocument =>
      obtain ⟨m, hm, rfl⟩ := Option.map_eq_some_iff.mp hstep
      refine ⟨.downloadDocument m, forwarded_take hm rfl rfl rfl rfl ?_ rfl ⟨rfl, rfl, rfl⟩⟩
      intro queue' hne
      cases queue' <;> first | exact absurd rfl hne | rfl
  | documentDownloaded =>
      obtain ⟨m, hm, rfl⟩ := Option.map_eq_some_iff.mp hstep
      refine ⟨.documentDownloaded m, forwarded_take hm rfl rfl rfl rfl ?_ rfl ⟨rfl, rfl, rfl⟩⟩
      intro queue' hne
      cases queue' <;> first | exact absurd rfl hne | rfl
  | insertOnline =>
      obtain ⟨m, hm, rfl⟩ := Option.map_eq_some_iff.mp hstep
      refine ⟨.insertOnline m, forwarded_take hm rfl rfl rfl rfl ?_ rfl ⟨rfl, rfl, rfl⟩⟩
      intro queue' hne
      cases queue' <;> first | exact absurd rfl hne | rfl
  | onlineInserted =>
      obtain ⟨m, hm, rfl⟩ := Option.map_eq_some_iff.mp hstep
      refine ⟨.onlineInserted m, forwarded_take hm rfl rfl rfl rfl ?_ rfl ⟨rfl, rfl, rfl⟩⟩
      intro queue' hne
      cases queue' <;> first | exact absurd rfl hne | rfl

theorem moved_forward (hs : InOnePlace s) {queue : Queue}
    (hstep : s.forward position queue = some t) :
    Moved s t ((agreementsAt s (.waiting queue))[position]?.toList.map fun c =>
      .moved c (.failed queue)) := by
  obtain ⟨m, hqueue, hat, htaken, hothers, herrors, hpath, hagreements, hcompleted⟩ :=
    forward_cases hstep
  have hrunning := hs.running (List.mem_of_getElem? hat)
  have hfailed : ∀ queue', agreementsAt t (.failed queue') =
      agreementsAt s (.failed queue') ++
        if m.queue = queue' then [m.message.correlationId] else [] := by
    intro queue'
    simp only [agreementsAt, herrors, List.filter_append, List.map_append]
    by_cases heq : m.queue = queue' <;> simp [heq]
  rw [hat]
  refine .moved _ (.waiting queue) _ ?_ ⟨htaken, ?_, ?_⟩ (by rw [hagreements]) ?_ ?_
  · simp [Follows, Place.follows]
  · rw [hfailed, if_pos hqueue]
    exact List.perm_append_singleton _ _
  · intro r hp hq
    cases r with
    | waiting queue' =>
        rw [hothers queue' fun heq => hp (by rw [heq])]
    | failed queue' =>
        have hne : m.queue ≠ queue' := fun heq => hq (by rw [← hqueue, heq])
        rw [hfailed, if_neg hne, List.append_nil]
    | remote station => rw [agreementsAt, agreementsAt, hpath]
    | completed => rw [agreementsAt, agreementsAt, hpath, hcompleted]
  · rw [hagreements, hrunning]
    cases queue <;> rfl
  · intro c _
    rw [hagreements]

/-- A step inside the remote path moves an agreement as it moves its command. -/
theorem moved_path (hs : InOnePlace s) {path : Path Json} {move : Option (Guid × Station)}
    (hmove : StationMove s.path path move)
    (hcompleted : path.completedSagas = s.path.completedSagas) :
    Moved s { s with path } ((move.filter fun move =>
      !s.path.completedSagas.contains move.1).toList.map fun move =>
        .moved move.1 (.remote move.2)) := by
  have hothers : ∀ p, (∀ station, p ≠ .remote station) →
      (agreementsAt { s with path } p).Perm (agreementsAt s p) := by
    intro p hp
    cases p with
    | waiting queue => cases queue <;> exact .refl _
    | failed queue => exact .refl _
    | remote station => exact absurd rfl (hp station)
    | completed => rw [agreementsAt, agreementsAt, hcompleted]
  have hstayed : (∀ station,
      (openCommandsAt path station).Perm (openCommandsAt s.path station)) →
      Moved s { s with path } [] := by
    intro hstations
    refine .stayed (fun p => ?_) rfl fun _ => rfl
    cases p with
    | remote station => exact hstations station
    | _ => exact hothers _ nofun
  cases hmove with
  | stayed hsame => exact hstayed fun station => openCommandsAt_perm hcompleted (hsame station)
  | moved c p q hfollows htransfer =>
      by_cases hc : c ∈ s.path.completedSagas
      · simp only [Option.filter_some, List.contains_iff_mem.mpr hc, Bool.not_true,
          Bool.false_eq_true, if_false, Option.toList_none, List.map_nil]
        exact hstayed (openCommandsAt_of_completed hcompleted htransfer hc)
      · have hkeep : (!s.path.completedSagas.contains c) = true := by simpa using hc
        obtain ⟨htaken, hput, hrest⟩ := openCommandsAt_transfer hcompleted htransfer hc
        have hat : c ∈ agreementsAt s (.remote p) := htaken.mem_iff.mpr List.mem_cons_self
        simp only [Option.filter_some, hkeep, if_true, Option.toList_some, List.map_cons,
          List.map_nil]
        have hrunning : (s.agreements.sagas c).isSome = true := hs.running hat
        refine .moved c (.remote p) (.remote q) hfollows ⟨htaken, hput, ?_⟩ rfl hrunning
          fun _ _ => rfl
        intro r hp hq
        cases r with
        | remote station =>
            exact hrest station (fun heq => hp (congrArg Place.remote heq))
              fun heq => hq (congrArg Place.remote heq)
        | _ => exact hothers _ nofun

theorem Lawful.moved (hs : Lawful json compressWithGzip s) {e : DeliveryEvent}
    (hnew : NewGuids s e) (hstep : AgreementDelivery.step json compressWithGzip s e = some t) :
    Moved s t (boardEvents compressWithGzip s e) := by
  cases e with
  | submitOnlineAgreement correlationId drawn =>
      obtain rfl := Option.some.inj hstep
      exact moved_submit hs.onePlace hnew
  | submitRemoteAgreement correlationId drawn =>
      obtain rfl := Option.some.inj hstep
      exact moved_submit hs.onePlace hnew
  | submitHandled position now drawn =>
      obtain ⟨command, hcommand, rfl⟩ := Option.map_eq_some_iff.mp hstep
      simp only [boardEvents, hcommand, Option.toList_some, List.map_cons, List.map_nil]
      exact moved_handleSubmit hcommand now drawn
  | downloadHandled position response drawn =>
      obtain ⟨command, hcommand, rfl⟩ := Option.map_eq_some_iff.mp hstep
      simp only [boardEvents, hcommand, Option.toList_some, List.flatMap_cons, List.flatMap_nil,
        List.append_nil]
      exact moved_handleDownload hs.onePlace hcommand response drawn
  | documentDownloadedHandled position now drawn =>
      obtain ⟨event, hevent, rfl⟩ := Option.map_eq_some_iff.mp hstep
      simp only [boardEvents, hevent, Option.toList_some, List.flatMap_cons, List.flatMap_nil,
        List.append_nil]
      exact moved_handleDocumentDownloaded hs hevent now drawn
  | insertOnlineHandled position drawn outcome =>
      obtain ⟨command, hcommand, rfl⟩ := Option.map_eq_some_iff.mp hstep
      simp only [boardEvents, hcommand, Option.toList_some, List.flatMap_cons, List.flatMap_nil,
        List.append_nil]
      exact moved_handleInsertOnline hs.onePlace hcommand drawn outcome
  | onlineDocumentInsertedHandled position =>
      obtain ⟨event, hevent, rfl⟩ := Option.map_eq_some_iff.mp hstep
      simp only [boardEvents, hevent, Option.toList_some, List.map_cons, List.map_nil]
      exact moved_handleOnlineInserted hs.onePlace hevent
  | completeAgreementSagaHandled position consumed =>
      obtain ⟨c, hc, rfl⟩ := Option.map_eq_some_iff.mp hstep
      simp only [boardEvents, hc]
      exact hs.moved_handleCompleteAgreementSaga consumed (List.mem_of_getElem? hc)
  | onlineCompletionAudited position now =>
      obtain ⟨c, -, rfl⟩ := Option.map_eq_some_iff.mp hstep
      exact moved_path hs.onePlace (station_auditCompletion s.path c now) rfl
  | forwarded queue position => exact moved_forward hs.onePlace hstep
  | path event =>
      obtain ⟨honly, hstep⟩ := Option.ite_none_right_eq_some.mp hstep
      obtain ⟨path, hpath, rfl⟩ := Option.map_eq_some_iff.mp hstep
      obtain ⟨-, -, hcompleted⟩ := step_ofPathOnly honly hpath
      exact moved_path hs.onePlace (step_station (ne_emitted honly) hpath) hcompleted

/-- A submission is recorded, and so is what the handler of a queued message sends. -/
theorem Recorded.handleDownload (hs : Recorded s) {command : DownloadDocumentCommand}
    (response : Except Exception HttpResponse) (drawn : Drawn) :
    Recorded (s.handleDownload compressWithGzip position command response drawn) := by
  unfold Delivery.handleDownload Agreements.download
  cases handleDownloadDocumentCommand compressWithGzip command response drawn with
  | error x => exact { hs with }
  | ok event =>
      refine { hs with downloadQueue := ?_, downloadedQueue := ?_ }
      · exact fun m hm => hs.downloadQueue m (List.mem_of_mem_eraseIdx hm)
      · intro m hm
        rcases List.mem_append.mp hm with hold | hnew
        · exact List.mem_append_left _ (hs.downloadedQueue m hold)
        · exact List.mem_append_right _ hnew

theorem Recorded.handleDocumentDownloaded (hs : Recorded s) {event : DocumentDownloadedEvent}
    {now : DateTime} {drawn : Drawn} {data data' : AgreementSagaData}
    {command : InsertDocumentCommand}
    (hdata : s.agreements.sagas event.correlationId = some data)
    (hhandled : handleDocumentDownloadedEvent data event now drawn = .ok (data', command)) :
    Recorded (s.handleDocumentDownloaded position event now drawn) := by
  have hlast : command ∈ s.agreements.emitted ++ [command] :=
    List.mem_append_right _ (List.mem_singleton.mpr rfl)
  have hold : ∀ c ∈ s.agreements.emitted, c ∈ s.agreements.emitted ++ [command] :=
    fun c hc => List.mem_append_left _ hc
  have hqueue : ∀ m ∈ s.downloadedQueue.eraseIdx position, m ∈ s.agreements.downloadedEvents :=
    fun m hm => hs.downloadedQueue m (List.mem_of_mem_eraseIdx hm)
  rw [handleDocumentDownloaded_eq hdata hhandled]
  cases command with
  | remote command =>
      refine ⟨hs.submitQueue, hs.downloadQueue, hqueue, fun m hm => hold _ (hs.onlineQueue m hm),
        fun m hm => hold _ (hs.insertedOnline m hm), hs.insertedQueue, hs.completedOnline,
        fun m hm => ?_⟩
      rcases List.mem_append.mp hm with hm | hm
      · exact hold _ (hs.remote m hm)
      · rw [List.mem_singleton.mp hm]
        exact hlast
  | online command =>
      refine ⟨hs.submitQueue, hs.downloadQueue, hqueue, fun m hm => ?_,
        fun m hm => hold _ (hs.insertedOnline m hm), hs.insertedQueue, hs.completedOnline,
        fun m hm => hold _ (hs.remote m hm)⟩
      rcases List.mem_append.mp hm with hm | hm
      · exact hold _ (hs.onlineQueue m hm)
      · rw [List.mem_singleton.mp hm]
        exact hlast

theorem Recorded.handleInsertOnline (hs : Recorded s)
    {command : InsertDocumentIntoOnlineBackOfficeCommand}
    (hcommand : s.onlineQueue[position]? = some command) (drawn : Drawn)
    (outcome : Except Exception Unit) :
    Recorded (s.handleInsertOnline position command drawn outcome) := by
  have hmore : ∀ c, WrittenOnline s c →
      ∃ m ∈ s.insertedOnline ++ [command], m.correlationId = c := by
    rintro c ⟨m, hm, rfl⟩
    exact ⟨m, List.mem_append_left _ hm, rfl⟩
  have hinserted : ∀ m ∈ s.insertedOnline ++ [command], .online m ∈ s.agreements.emitted := by
    intro m hm
    rcases List.mem_append.mp hm with hold | hlast
    · exact hs.insertedOnline m hold
    · rw [List.mem_singleton.mp hlast]
      exact hs.onlineQueue command (List.mem_of_getElem? hcommand)
  cases outcome with
  | error x =>
      exact ⟨hs.submitQueue, hs.downloadQueue, hs.downloadedQueue, hs.onlineQueue, hinserted,
        fun m hm => hmore _ (hs.insertedQueue m hm), fun c hc => hmore c (hs.completedOnline c hc),
        hs.remote⟩
  | ok _ =>
      refine ⟨hs.submitQueue, hs.downloadQueue, hs.downloadedQueue,
        fun m hm => hs.onlineQueue m (List.mem_of_mem_eraseIdx hm), hinserted, ?_,
        fun c hc => hmore c (hs.completedOnline c hc), hs.remote⟩
      intro m hm
      rcases List.mem_append.mp hm with hold | hlast
      · exact hmore _ (hs.insertedQueue m hold)
      · rw [List.mem_singleton.mp hlast]
        exact ⟨command, List.mem_append_right _ (List.mem_singleton.mpr rfl), rfl⟩

theorem Recorded.handleOnlineInserted (hs : Recorded s)
    {event : OnlineDocumentSuccessfullyInsertedEvent}
    (hevent : s.insertedQueue[position]? = some event) :
    Recorded (s.handleOnlineInserted position event) := by
  refine { hs with insertedQueue := ?_, completedOnline := ?_ }
  · exact fun m hm => hs.insertedQueue m (List.mem_of_mem_eraseIdx hm)
  · intro c hc
    unfold Delivery.handleOnlineInserted at hc
    simp only at hc
    split at hc
    · rcases List.mem_cons.mp hc with rfl | hold
      · exact hs.insertedQueue event (List.mem_of_getElem? hevent)
      · exact hs.completedOnline c hold
    · exact hs.completedOnline c hc

theorem Recorded.forward (hs : Recorded s) {queue : Queue}
    (hstep : s.forward position queue = some t) : Recorded t := by
  cases queue with
  | submitAgreement =>
      obtain ⟨m, -, rfl⟩ := Option.map_eq_some_iff.mp hstep
      exact { hs with
        submitQueue := fun m hm => hs.submitQueue m (List.mem_of_mem_eraseIdx hm) }
  | downloadDocument =>
      obtain ⟨m, -, rfl⟩ := Option.map_eq_some_iff.mp hstep
      exact { hs with
        downloadQueue := fun m hm => hs.downloadQueue m (List.mem_of_mem_eraseIdx hm) }
  | documentDownloaded =>
      obtain ⟨m, -, rfl⟩ := Option.map_eq_some_iff.mp hstep
      exact { hs with
        downloadedQueue := fun m hm => hs.downloadedQueue m (List.mem_of_mem_eraseIdx hm) }
  | insertOnline =>
      obtain ⟨m, -, rfl⟩ := Option.map_eq_some_iff.mp hstep
      exact { hs with
        onlineQueue := fun m hm => hs.onlineQueue m (List.mem_of_mem_eraseIdx hm) }
  | onlineInserted =>
      obtain ⟨m, -, rfl⟩ := Option.map_eq_some_iff.mp hstep
      exact { hs with
        insertedQueue := fun m hm => hs.insertedQueue m (List.mem_of_mem_eraseIdx hm) }

theorem Lawful.submit (hs : Lawful json compressWithGzip s) {command : SubmitAgreementCommand}
    (hbroker : command.brokerId = 123 ∨ command.brokerId = 456)
    (hnew : command.correlationId ∉ s.agreements.submitted.map fun a => a.correlationId)
    (honePlace : InOnePlace (s.submit command)) :
    Lawful json compressWithGzip (s.submit command) := by
  refine ⟨honePlace, hs.traced.submitted hnew, ?_, ?_, hs.remote⟩
  · intro a ha
    rcases List.mem_append.mp ha with hold | hlast
    · exact hs.brokers a hold
    · rw [List.mem_singleton.mp hlast]
      exact hbroker
  · refine { hs.recorded with submitQueue := ?_ }
    intro m hm
    rcases List.mem_append.mp hm with hold | hlast
    · exact List.mem_append_left _ (hs.recorded.submitQueue m hold)
    · exact List.mem_append_right _ hlast

theorem Lawful.handleDownload (hs : Lawful json compressWithGzip s)
    {command : DownloadDocumentCommand} (hcommand : s.downloadQueue[position]? = some command)
    (response : Except Exception HttpResponse) (drawn : Drawn)
    (honePlace : InOnePlace (s.handleDownload compressWithGzip position command response drawn)) :
    Lawful json compressWithGzip
      (s.handleDownload compressWithGzip position command response drawn) := by
  have hmem := hs.recorded.downloadQueue command (List.mem_of_getElem? hcommand)
  have htraced := hs.traced.downloaded hmem response drawn
  have hrecorded :
      Recorded (s.handleDownload compressWithGzip position command response drawn) :=
    hs.recorded.handleDownload response drawn
  have hbrokers : ∀ a ∈ (s.agreements.download compressWithGzip command response drawn).submitted,
      a.brokerId = 123 ∨ a.brokerId = 456 := by
    rw [(download_sagas compressWithGzip s.agreements command response drawn).2]
    exact hs.brokers
  unfold Delivery.handleDownload at honePlace hrecorded ⊢
  cases hhandled : handleDownloadDocumentCommand compressWithGzip command response drawn with
  | error x =>
      rw [hhandled] at honePlace hrecorded
      exact ⟨honePlace, htraced, hbrokers, hrecorded, hs.remote⟩
  | ok event =>
      rw [hhandled] at honePlace hrecorded
      exact ⟨honePlace, htraced, hbrokers, hrecorded, hs.remote⟩

/-- An agreement that waits for its insert command was not sent to the Hub. -/
theorem Lawful.not_emitted (hs : Lawful json compressWithGzip s)
    {event : DocumentDownloadedEvent} (hevent : event ∈ s.downloadedQueue) :
    ¬Emitted s.path event.correlationId := by
  have hwaiting := (hs.onePlace.places.mem (.waiting .documentDownloaded) _).mp
    (List.mem_map_of_mem hevent)
  intro hemitted
  rcases hs.remote.emitted_iff.mp hemitted with hopen | hcompleted
  · obtain ⟨p, hp⟩ := hs.remote.openCommand hopen
    have hremote := (hs.onePlace.places.mem (.remote p) _).mp hp
    rw [hwaiting] at hremote
    cases hremote
  · exact hs.onePlace.not_completed (p := .waiting .documentDownloaded) nofun
      (List.mem_map_of_mem hevent) hcompleted

theorem Lawful.handleDocumentDownloaded (hs : Lawful json compressWithGzip s)
    {event : DocumentDownloadedEvent} (hevent : s.downloadedQueue[position]? = some event)
    (now : DateTime) (drawn : Drawn)
    (honePlace : InOnePlace (s.handleDocumentDownloaded position event now drawn)) :
    Lawful json compressWithGzip (s.handleDocumentDownloaded position event now drawn) := by
  have hmem := List.mem_of_getElem? hevent
  obtain ⟨data, data', command, hdata, hhandled⟩ := hs.handles hmem now drawn
  have htraced := hs.traced.sent (hs.recorded.downloadedQueue event hmem) now drawn
  have hrecorded : Recorded (s.handleDocumentDownloaded position event now drawn) :=
    hs.recorded.handleDocumentDownloaded hdata hhandled
  simp only [Agreements.sendDocument, hdata, hhandled] at htraced
  rw [handleDocumentDownloaded_eq hdata hhandled] at honePlace hrecorded ⊢
  cases command with
  | remote command =>
      obtain ⟨-, hcommand, -⟩ := handleDocumentDownloadedEvent_ok hhandled
      have hcorrelation : command.correlationId = event.correlationId :=
        congrArg (fun c => c.correlationId) hcommand
      refine ⟨honePlace, htraced, hs.brokers, hrecorded, hs.remote.emit ?_⟩
      rw [hcorrelation]
      exact hs.not_emitted hmem
  | online command => exact ⟨honePlace, htraced, hs.brokers, hrecorded, hs.remote⟩

theorem Lawful.step (hs : Lawful json compressWithGzip s) {e : DeliveryEvent}
    (hnew : NewGuids s e) (hstep : AgreementDelivery.step json compressWithGzip s e = some t) :
    Lawful json compressWithGzip t ∧
      lifeCycle.run (stage s) (boardEvents compressWithGzip s e) = some (stage t) := by
  obtain ⟨honePlace, hrun⟩ := hs.onePlace.step (hs.moved hnew hstep)
  refine ⟨?_, hrun⟩
  cases e with
  | submitOnlineAgreement correlationId drawn =>
      obtain rfl := Option.some.inj hstep
      exact hs.submit (Or.inr rfl) hnew honePlace
  | submitRemoteAgreement correlationId drawn =>
      obtain rfl := Option.some.inj hstep
      exact hs.submit (Or.inl rfl) hnew honePlace
  | submitHandled position now drawn =>
      obtain ⟨command, hcommand, rfl⟩ := Option.map_eq_some_iff.mp hstep
      have hmem := hs.recorded.submitQueue command (List.mem_of_getElem? hcommand)
      refine ⟨honePlace, hs.traced.submit hmem now drawn, hs.brokers, ?_, hs.remote⟩
      refine { hs.recorded with submitQueue := ?_, downloadQueue := ?_ }
      · exact fun m hm => hs.recorded.submitQueue m (List.mem_of_mem_eraseIdx hm)
      · intro m hm
        rcases List.mem_append.mp hm with hold | hlast
        · exact List.mem_append_left _ (hs.recorded.downloadQueue m hold)
        · exact List.mem_append_right _ hlast
  | downloadHandled position response drawn =>
      obtain ⟨command, hcommand, rfl⟩ := Option.map_eq_some_iff.mp hstep
      exact hs.handleDownload hcommand response drawn honePlace
  | documentDownloadedHandled position now drawn =>
      obtain ⟨event, hevent, rfl⟩ := Option.map_eq_some_iff.mp hstep
      exact hs.handleDocumentDownloaded hevent now drawn honePlace
  | insertOnlineHandled position drawn outcome =>
      obtain ⟨command, hcommand, rfl⟩ := Option.map_eq_some_iff.mp hstep
      have hrecorded := hs.recorded.handleInsertOnline hcommand drawn outcome
      cases outcome with
      | error x => exact ⟨honePlace, hs.traced, hs.brokers, hrecorded, hs.remote⟩
      | ok _ => exact ⟨honePlace, hs.traced, hs.brokers, hrecorded, hs.remote⟩
  | onlineDocumentInsertedHandled position =>
      obtain ⟨event, hevent, rfl⟩ := Option.map_eq_some_iff.mp hstep
      exact ⟨honePlace, hs.traced.completed event.correlationId, hs.brokers,
        hs.recorded.handleOnlineInserted hevent, hs.remote⟩
  | completeAgreementSagaHandled position consumed =>
      obtain ⟨c, hc, rfl⟩ := Option.map_eq_some_iff.mp hstep
      have hpath : RemotePath.step json s.path (.sagaCompleted position consumed) =
          some (s.path.handleCompletion position consumed c) := by
        simp only [RemotePath.step, hc, Option.map_some]
      exact ⟨honePlace, hs.traced.completed c, hs.brokers, { hs.recorded with },
        hs.remote.step hpath rfl⟩
  | onlineCompletionAudited position now =>
      obtain ⟨c, -, rfl⟩ := Option.map_eq_some_iff.mp hstep
      exact ⟨honePlace, hs.traced, hs.brokers, { hs.recorded with },
        hs.remote.auditCompletion c now⟩
  | forwarded queue position =>
      have hrecorded := hs.recorded.forward hstep
      obtain ⟨_, hforwarded⟩ := forward_cases hstep
      obtain ⟨hpath, hagreements, -⟩ := hforwarded.rest
      exact ⟨honePlace, hagreements ▸ hs.traced, hagreements ▸ hs.brokers, hrecorded,
        hpath ▸ hs.remote⟩
  | path event =>
      obtain ⟨honly, hstep⟩ := Option.ite_none_right_eq_some.mp hstep
      obtain ⟨path, hpath, rfl⟩ := Option.map_eq_some_iff.mp hstep
      obtain ⟨hemitted, -, -⟩ := step_ofPathOnly honly hpath
      refine ⟨honePlace, hs.traced, hs.brokers, ?_, hs.remote.step hpath hemitted⟩
      refine { hs.recorded with remote := ?_ }
      change ∀ m ∈ path.emitted, _
      rw [hemitted]
      exact hs.recorded.remote

theorem Lawful.initial : Lawful json compressWithGzip (Delivery.initial : Delivery Json) := by
  have hrep : Represents (agreementsAt (Delivery.initial : Delivery Json)) fun _ => none := by
    apply Represents.empty
    intro p
    cases p with
    | waiting queue => cases queue <;> rfl
    | remote station => cases station <;> rfl
    | _ => rfl
  have hstage : stage (Delivery.initial : Delivery Json) = fun _ => none :=
    hrep.locate_eq Place.mem_all
  refine ⟨⟨hstage ▸ hrep, ?_, ?_⟩, Traced.initial, nofun, ?_, CommandsTracked.initial⟩
  · intro c
    rw [hstage]
    exact iff_of_false List.not_mem_nil nofun
  · intro c
    rw [hstage]
    rfl
  · exact ⟨nofun, nofun, nofun, nofun, nofun, nofun, nofun, nofun⟩

end Steps

theorem always_lawful (json : JsonSerializer Json) (compressWithGzip : List UInt8 → List UInt8)
    {events : List DeliveryEvent}
    (hnew : (delivery json compressWithGzip).Meets NewGuids (delivery json compressWithGzip).init
      events) :
    (delivery json compressWithGzip).Always (Lawful json compressWithGzip)
      (delivery json compressWithGzip).init events :=
  Machine.always_of_meets (fun _ _ _ hs he hstep => (hs.step he hstep).1) Lawful.initial hnew

/-- The endpoints refine the board. -/
def lifeCycleRefinement (json : JsonSerializer Json)
    (compressWithGzip : List UInt8 → List UInt8) :
    Refinement ((delivery json compressWithGzip).under NewGuids) lifeCycle where
  state := stage
  events := boardEvents compressWithGzip
  I := Lawful json compressWithGzip
  init_inv := Lawful.initial
  step_inv _ _ _ hs hstep := (hs.step (Machine.under_step.mp hstep).1
    (Machine.under_step.mp hstep).2).1
  init_eq := by
    funext c
    have hlawful : Lawful json compressWithGzip (Delivery.initial : Delivery Json) :=
      Lawful.initial
    cases hstage : stage (Delivery.initial : Delivery Json) c with
    | none => exact hstage
    | some p =>
        have hsubmitted := (hlawful.onePlace.submitted c).mpr (by rw [hstage]; rfl)
        cases hsubmitted
  step_run _ _ _ hs hstep := (hs.step (Machine.under_step.mp hstep).1
    (Machine.under_step.mp hstep).2).2

/-- In every run, every submitted agreement is at one place, where its saga runs or
not. An agreement that was at a place before is later at a place of the life cycle
that comes after it, so it is not lost and does not come back. -/
theorem agreements_follow_life_cycle (json : JsonSerializer Json)
    (compressWithGzip : List UInt8 → List UInt8) (before after : List DeliveryEvent)
    {s t : Delivery Json}
    (hnew : (delivery json compressWithGzip).Meets NewGuids (delivery json compressWithGzip).init
      (before ++ after))
    (hs : (delivery json compressWithGzip).run (delivery json compressWithGzip).init before =
      some s)
    (ht : (delivery json compressWithGzip).run s after = some t) :
    InOnePlace t ∧ ∀ c p, stage s c = some p →
      ∃ q, stage t c = some q ∧ Relation.ReflTransGen Follows p q ∧ (p = q ∨ p.rank < q.rank) := by
  have hlawful := (always_lawful json compressWithGzip hnew.append_left).last hs
  have hafter : (delivery json compressWithGzip).Meets NewGuids s after := hnew.of_append hs
  constructor
  · have hkept : (delivery json compressWithGzip).Always (Lawful json compressWithGzip) s after :=
      Machine.always_of_meets (fun _ _ _ hs he hstep => (hs.step he hstep).1) hlawful hafter
    exact (hkept.last ht).onePlace
  · intro c p hp
    obtain ⟨ds, hds⟩ := (lifeCycleRefinement json compressWithGzip).run_exists hlawful
      ((Machine.run_under hafter).trans ht)
    obtain ⟨q, hq, hpath⟩ := run_place hds hp
    exact ⟨q, hq, hpath, rank_lt_of_path (fun _ _ h => rank_lt h) hpath⟩

/-- One agreement of each broker is submitted and has its document downloaded; the
first answer to a request is a failure. -/
def submittedRun : List DeliveryEvent :=
  [.submitOnlineAgreement 7 ⟨1, 0⟩, .submitRemoteAgreement 8 ⟨2, 0⟩, .submitHandled 1 0 ⟨3, 0⟩,
    .submitHandled 0 0 ⟨4, 0⟩, .downloadHandled 0 (.error .external) ⟨5, 0⟩,
    .downloadHandled 0 (.ok ⟨true, [1]⟩) ⟨6, 0⟩, .downloadHandled 0 (.ok ⟨true, [2]⟩) ⟨7, 0⟩]

/-- Both commands go out, and the online document is written at the second attempt. -/
def insertedRun : List DeliveryEvent :=
  [.documentDownloadedHandled 0 0 ⟨8, 0⟩, .documentDownloadedHandled 0 0 ⟨9, 0⟩,
    .insertOnlineHandled 0 ⟨10, 0⟩ (.error .external), .insertOnlineHandled 0 ⟨11, 0⟩ (.ok ()),
    .onlineDocumentInsertedHandled 0, .onlineCompletionAudited 0 0]

/-- The remote broker connects, its command is pushed and becomes a row of the log. -/
def loggedRun : List DeliveryEvent :=
  [.path (.onConnected ⟨"conn1", HubRuns.principal "123" "0"⟩ (BackOfficeHub.Environment.calm 0)),
    .path (.pushed 0 (.ok ())), .path (.throttled 0 0), .path (.audited 0 [])]

theorem two_agreements_follow_life_cycle :
    ∃ s t : Delivery StandardAuditMessage,
      (InOnePlace t ∧ ∀ c p, stage s c = some p → ∃ q, stage t c = some q ∧
        Relation.ReflTransGen Follows p q ∧ (p = q ∨ p.rank < q.rank)) ∧
      stage s 7 = some (.waiting .documentDownloaded) ∧ stage t 7 = some .completed ∧
      stage s 8 = some (.waiting .documentDownloaded) ∧
      stage t 8 = some (.remote .messageLog) := by
  have hrun : ((delivery JsonSerializer.transparent id).run Delivery.initial submittedRun).any
      (fun s => ((delivery JsonSerializer.transparent id).run s (insertedRun ++ loggedRun)).any
        fun t => stage s 7 = some (.waiting .documentDownloaded) ∧ stage t 7 = some .completed ∧
          stage s 8 = some (.waiting .documentDownloaded) ∧
          stage t 8 = some (.remote .messageLog)) = true := by
    decide +kernel
  obtain ⟨s, hs, hrest⟩ := (Option.any_eq_true _ _).mp hrun
  obtain ⟨t, ht, hstages⟩ := (Option.any_eq_true _ _).mp hrest
  refine ⟨s, t, ?_, of_decide_eq_true hstages⟩
  exact agreements_follow_life_cycle JsonSerializer.transparent id submittedRun
    (insertedRun ++ loggedRun) (by decide +kernel) hs ht

end ReliableSignalR.AgreementLifeCycle
