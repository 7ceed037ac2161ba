import ReliableSignalR.TokenBoard
import ReliableSignalR.RemoteSagas

/-!
# The stations of a remote command

An emitted command waits for the handler of the Hub or is in its hands, its audit
copy waits for the audit endpoint, and then it is a row of the message log. It can
end in the error queue of either endpoint instead. The copies that are pushed and
replayed are further ones and do not count here.

A step of the remote path leaves every command at its station or takes one of them
to the next. So the stations together hold what was emitted, each command once.
-/
namespace ReliableSignalR.RemoteStations
open DotNet EventRuns Messages KeyedTable RetainedEffects TokenBoard RemotePath
open BrokerConnectionManager AuditEndpoint BackOfficeHub DocumentHandler
open AgreementDelivery RemoteSagas

variable {Json : Type}

inductive Station
  | hub
  | hubError
  | audit
  | auditError
  | messageLog
deriving DecidableEq, Repr

namespace Station

def all : List Station := [.hub, .hubError, .audit, .auditError, .messageLog]

theorem mem_all (p : Station) : p ∈ all := by cases p <;> decide

/-- The steps of a command on its way to the log. -/
def follows : Station → Station → Bool
  | .hub, .audit | .hub, .hubError | .audit, .messageLog | .audit, .auditError => true
  | _, _ => false

theorem ne_of_follows {p q : Station} (h : p.follows q = true) : p ≠ q := by
  rintro rfl
  cases p <;> cases h

end Station

def correlationIds (copies : List Copy) : List Guid :=
  copies.map fun copy => copy.command.correlationId

def remoteCorrelationIds (log : AuditTable Json) : List Guid :=
  (log.rows.filter fun m => m.messageType == remoteCommandType).map fun m => m.correlationId

/-- The correlations of the commands at each station, as its content has them. -/
def commandsAt (s : Path Json) : Station → List Guid
  | .hub => correlationIds (s.hubQueue ++ s.pushed)
  | .hubError => correlationIds s.hubErrors
  | .audit => correlationIds s.auditQueue
  | .auditError => correlationIds s.auditErrors
  | .messageLog => remoteCorrelationIds s.hub.messageLog

/-- The command that an event takes on, and the station to which it comes. -/
def stationMove (s : Path Json) : PathEvent → Option (Guid × Station)
  | .throttled position now =>
      s.pushed[position]?.bind fun copy =>
        match activeBrokerTokenIsDueToExpire s.hub.brokerConnections.entries
            copy.command.brokerId now with
        | .error _ => none
        | .ok _ => some (copy.command.correlationId, .audit)
  | .discarded position =>
      s.hubQueue[position]?.map fun copy => (copy.command.correlationId, .hubError)
  | .audited position _ =>
      s.auditQueue[position]?.map fun copy => (copy.command.correlationId, .messageLog)
  | .auditDiscarded position =>
      s.auditQueue[position]?.map fun copy => (copy.command.correlationId, .auditError)
  | _ => none

/-- What a step does to the stations. -/
inductive StationMove (s t : Path Json) : Option (Guid × Station) → Prop
  | stayed (same : ∀ p, (commandsAt t p).Perm (commandsAt s p)) : StationMove s t none
  | moved (c : Guid) (p q : Station) (follows : p.follows q = true)
      (transfer : Transfer (commandsAt s) (commandsAt t) c p q) : StationMove s t (some (c, q))

section Steps
variable {json : JsonSerializer Json} {s t : Path Json}

/-- Rows that differ in the columns of completion and replay only are those of the
same commands. -/
theorem remoteCorrelationIds_eq {a b : AuditTable Json}
    (h : b.rows.map (fun m => (m.messageType, m.correlationId)) =
      a.rows.map fun m => (m.messageType, m.correlationId)) :
    remoteCorrelationIds b = remoteCorrelationIds a := by
  have hpairs : ∀ log : AuditTable Json, remoteCorrelationIds log =
      ((log.rows.map fun m => (m.messageType, m.correlationId)).filter fun p =>
        p.1 == remoteCommandType).map Prod.snd := by
    intro log
    rw [remoteCorrelationIds, List.filter_map, List.map_map]
    rfl
  rw [hpairs, hpairs, h]

theorem remoteCorrelationIds_onlyRetries {a b : AuditTable Json} (h : OnlyRetries a b) :
    remoteCorrelationIds b = remoteCorrelationIds a := by
  apply remoteCorrelationIds_eq
  have hpairs := congrArg (List.map fun m => (m.messageType, m.correlationId)) h.2
  simpa only [List.map_map, Function.comp_def] using hpairs

theorem remoteCorrelationIds_complete (log : AuditTable Json) (correlationId : Guid)
    (now : DateTime) :
    remoteCorrelationIds (completeCorrelatedMessages log correlationId now) =
      remoteCorrelationIds log := by
  apply remoteCorrelationIds_eq
  rw [completeCorrelatedMessages, Table.rows_update, List.map_map]
  refine List.map_congr_left fun m _ => ?_
  have hsame := complete_sameRecord correlationId now m
  exact Prod.ext hsame.messageType hsame.correlationId

theorem remoteCorrelationIds_post (log : AuditTable Json) (ack : SendAcknowledgementCommand)
    (now : DateTime) : remoteCorrelationIds (post log ack now).1 = remoteCorrelationIds log :=
  post_log (P := fun after => remoteCorrelationIds after = remoteCorrelationIds log) rfl
    fun _ => remoteCorrelationIds_complete log ack.correlationId now

/-- An audited message adds its correlation if it is a remote command. -/
theorem remoteCorrelationIds_insert (log : AuditTable Json) (message : StandardAuditMessage)
    (headers : Headers) :
    remoteCorrelationIds (handleStandardAuditMessage json log message headers) =
      remoteCorrelationIds log ++
        if message.toString = remoteCommandType then [message.message.correlationId] else [] := by
  simp only [remoteCorrelationIds, handleStandardAuditMessage, Table.rows_insert,
    List.filter_append, List.map_append]
  congr 1
  have hrow : (create json message headers log.next).messageType = message.toString := rfl
  by_cases htype : message.toString = remoteCommandType
  · simp only [hrow, htype, List.filter_cons, List.filter_nil, beq_self_eq_true, if_true]
    rfl
  · simp [hrow, htype]

theorem stayed_of_log (hhub : (t.hubQueue ++ t.pushed).Perm (s.hubQueue ++ s.pushed))
    (hhubErrors : t.hubErrors = s.hubErrors) (haudit : t.auditQueue = s.auditQueue)
    (hauditErrors : t.auditErrors = s.auditErrors)
    (hlog : remoteCorrelationIds t.hub.messageLog = remoteCorrelationIds s.hub.messageLog) :
    StationMove s t none := by
  refine .stayed fun p => ?_
  cases p with
  | hub => exact hhub.map _
  | hubError => rw [commandsAt, commandsAt, hhubErrors]
  | audit => rw [commandsAt, commandsAt, haudit]
  | auditError => rw [commandsAt, commandsAt, hauditErrors]
  | messageLog => rw [commandsAt, commandsAt, hlog]

/-- A copy that is taken out of one of two lists is taken out of both together. -/
theorem correlationIds_take_left {copies more : List Copy} {position : ℕ} {copy : Copy}
    (hcopy : copies[position]? = some copy) :
    (correlationIds (copies ++ more)).Perm
      (copy.command.correlationId :: correlationIds (copies.eraseIdx position ++ more)) := by
  simp only [correlationIds, List.map_append]
  exact (perm_take _ hcopy).append_right _

theorem correlationIds_take_right {copies more : List Copy} {position : ℕ} {copy : Copy}
    (hcopy : more[position]? = some copy) :
    (correlationIds (copies ++ more)).Perm
      (copy.command.correlationId :: correlationIds (copies ++ more.eraseIdx position)) := by
  simp only [correlationIds, List.map_append]
  exact ((perm_take _ hcopy).append_left _).trans List.perm_middle

theorem station_pushed {position : ℕ} {copy : Copy} (hcopy : s.hubQueue[position]? = some copy)
    (outcome : Except Exception Unit) : StationMove s (s.push position copy outcome) none := by
  unfold Path.push
  split
  · refine stayed_of_log ?_ rfl rfl rfl rfl
    obtain ⟨hlt, rfl⟩ := List.getElem?_eq_some_iff.mp hcopy
    refine List.Perm.trans ?_ ((List.getElem_cons_eraseIdx_perm hlt).append_right s.pushed)
    exact ((List.perm_append_singleton _ _).append_left _).trans List.perm_middle
  · exact .stayed fun _ => .refl _

theorem station_throttled {position : ℕ} {copy : Copy} (hcopy : s.pushed[position]? = some copy)
    (now : DateTime) :
    StationMove s (s.throttle position copy now) (stationMove s (.throttled position now)) := by
  simp only [stationMove, hcopy, Option.bind_some]
  unfold Path.throttle
  cases activeBrokerTokenIsDueToExpire s.hub.brokerConnections.entries copy.command.brokerId
      now with
  | error x =>
      refine stayed_of_log ?_ rfl rfl rfl rfl
      obtain ⟨hlt, rfl⟩ := List.getElem?_eq_some_iff.mp hcopy
      have hpushed := List.getElem_cons_eraseIdx_perm hlt
      rw [List.append_assoc]
      exact (hpushed.append_left s.hubQueue)
  | ok _ =>
      refine .moved _ .hub .audit rfl ⟨correlationIds_take_right hcopy, perm_put _ copy _, ?_⟩
      intro r hhub haudit
      cases r <;> first | exact absurd rfl hhub | exact absurd rfl haudit | exact .refl _

theorem station_discarded {position : ℕ} {copy : Copy}
    (hcopy : s.hubQueue[position]? = some copy) :
    StationMove s { s with
      hubQueue := s.hubQueue.eraseIdx position
      hubErrors := s.hubErrors ++ [copy] } (some (copy.command.correlationId, .hubError)) := by
  refine .moved _ .hub .hubError rfl ⟨correlationIds_take_left hcopy, perm_put _ copy _, ?_⟩
  intro r hhub herror
  cases r <;> first | exact absurd rfl hhub | exact absurd rfl herror | exact .refl _

theorem station_audited {position : ℕ} {copy : Copy}
    (hcopy : s.auditQueue[position]? = some copy) (headers : Headers) :
    StationMove s (s.audit json position copy headers)
      (some (copy.command.correlationId, .messageLog)) := by
  refine .moved _ .audit .messageLog rfl ⟨perm_take _ hcopy, ?_, ?_⟩
  · have htype : (StandardAuditMessage.insertDocumentIntoRemoteBackOfficeCommand
        copy.command).toString = remoteCommandType := rfl
    change (remoteCorrelationIds (handleStandardAuditMessage json s.hub.messageLog
      (.insertDocumentIntoRemoteBackOfficeCommand copy.command) headers)).Perm _
    rw [remoteCorrelationIds_insert, if_pos htype]
    exact List.perm_append_singleton _ _
  · intro r haudit hlog
    cases r <;> first | exact absurd rfl haudit | exact absurd rfl hlog | exact .refl _

theorem station_auditDiscarded {position : ℕ} {copy : Copy}
    (hcopy : s.auditQueue[position]? = some copy) :
    StationMove s { s with
      auditQueue := s.auditQueue.eraseIdx position
      auditErrors := s.auditErrors ++ [copy] }
      (some (copy.command.correlationId, .auditError)) := by
  refine .moved _ .audit .auditError rfl ⟨perm_take _ hcopy, perm_put _ copy _, ?_⟩
  intro r haudit herror
  cases r <;> first | exact absurd rfl haudit | exact absurd rfl herror | exact .refl _

/-- A step that emits nothing leaves the commands where they are, or takes one of
them to its next station. -/
theorem step_station {e : PathEvent} (he : ∀ command, e ≠ .emitted command)
    (hstep : RemotePath.step json s e = some t) : StationMove s t (stationMove s e) := by
  cases e with
  | emitted command => exact absurd rfl (he command)
  | pushed position outcome =>
      obtain ⟨copy, hcopy, rfl⟩ := Option.map_eq_some_iff.mp hstep
      exact station_pushed hcopy outcome
  | throttled position now =>
      obtain ⟨copy, hcopy, rfl⟩ := Option.map_eq_some_iff.mp hstep
      exact station_throttled hcopy now
  | discarded position =>
      obtain ⟨copy, hcopy, rfl⟩ := Option.map_eq_some_iff.mp hstep
      simp only [stationMove, hcopy, Option.map_some]
      exact station_discarded hcopy
  | onConnected context env =>
      obtain rfl := Option.some.inj hstep
      exact stayed_of_log (.refl _) rfl rfl rfl
        (remoteCorrelationIds_onlyRetries (onConnected_replayed json context env s.hub).1)
  | onReconnected context env =>
      obtain rfl := Option.some.inj hstep
      exact stayed_of_log (.refl _) rfl rfl rfl
        (congrArg remoteCorrelationIds (onReconnected_log context env s.hub).1)
  | onDisconnected context env =>
      obtain rfl := Option.some.inj hstep
      exact stayed_of_log (.refl _) rfl rfl rfl
        (congrArg remoteCorrelationIds (onDisconnected_log context env s.hub).1)
  | audited position headers =>
      obtain ⟨copy, hcopy, rfl⟩ := Option.map_eq_some_iff.mp hstep
      simp only [stationMove, hcopy, Option.map_some]
      exact station_audited hcopy headers
  | auditDiscarded position =>
      obtain ⟨copy, hcopy, rfl⟩ := Option.map_eq_some_iff.mp hstep
      simp only [stationMove, hcopy, Option.map_some]
      exact station_auditDiscarded hcopy
  | auditedElsewhere message headers =>
      obtain ⟨hother, hstep⟩ := Option.ite_none_left_eq_some.mp hstep
      obtain rfl := Option.some.inj hstep
      refine stayed_of_log (.refl _) rfl rfl rfl ?_
      change remoteCorrelationIds (handleStandardAuditMessage json _ _ _) = _
      rw [remoteCorrelationIds_insert, if_neg hother, List.append_nil]
  | subscriber event =>
      obtain ⟨-, hstep⟩ := Option.ite_none_right_eq_some.mp hstep
      obtain ⟨subscriber, -, rfl⟩ := Option.map_eq_some_iff.mp hstep
      exact stayed_of_log (.refl _) rfl rfl rfl rfl
  | posted position now outcome =>
      obtain ⟨ack, -, rfl⟩ := Option.map_eq_some_iff.mp hstep
      have hlog := remoteCorrelationIds_post s.hub.messageLog ack now
      cases outcome <;> exact stayed_of_log (.refl _) rfl rfl rfl hlog
  | duplicated position | sagaCompleted position consumed =>
      obtain ⟨_, -, rfl⟩ := Option.map_eq_some_iff.mp hstep
      exact stayed_of_log (.refl _) rfl rfl rfl rfl
  | completionAudited position now consumed =>
      obtain ⟨correlationId, -, rfl⟩ := Option.map_eq_some_iff.mp hstep
      exact stayed_of_log (.refl _) rfl rfl rfl
        (remoteCorrelationIds_complete s.hub.messageLog correlationId now)
  | lost position | acknowledgementDiscarded position | completionDiscarded position =>
      obtain rfl := Option.some.inj hstep
      exact stayed_of_log (.refl _) rfl rfl rfl rfl

/-- The saga endpoint's audit of a completion leaves the commands where they are. -/
theorem station_auditCompletion (s : Path Json) (c : Guid) (now : DateTime) :
    StationMove s (s.withLog (handleCompletionAuditMessage s.hub.messageLog c now)) none :=
  stayed_of_log (.refl _) rfl rfl rfl (remoteCorrelationIds_complete s.hub.messageLog c now)

/-- An emission puts its command before the Hub. -/
theorem commandsAt_emit (s : Path Json) (command : InsertDocumentIntoRemoteBackOfficeCommand) :
    (commandsAt (s.emit command) .hub).Perm (command.correlationId :: commandsAt s .hub) ∧
      ∀ p, p ≠ .hub → commandsAt (s.emit command) p = commandsAt s p := by
  constructor
  · simp only [commandsAt, Path.emit, correlationIds, List.map_append, List.map_cons,
      List.append_assoc, List.singleton_append]
    exact List.perm_middle
  · intro p hp
    cases p <;> first | exact absurd rfl hp | rfl

end Steps

/-- The stations hold what was emitted, each command once. -/
def AllAtStations (s : Path Json) : Prop :=
  (s.emitted.map fun command => command.correlationId).Perm (Station.all.flatMap (commandsAt s))

section AllAtStations
variable {json : JsonSerializer Json} {s t : Path Json}

theorem AllAtStations.initial : AllAtStations (Path.initial : Path Json) := .refl _

theorem AllAtStations.move (h : AllAtStations s) {move : Option (Guid × Station)}
    (hmove : StationMove s t move) (hemitted : t.emitted = s.emitted) : AllAtStations t := by
  unfold AllAtStations
  rw [hemitted]
  refine h.trans (List.Perm.symm ?_)
  cases hmove with
  | stayed hsame => exact List.Perm.flatMap_left _ fun p _ => hsame p
  | moved c p q hfollows htransfer =>
      exact htransfer.total (Station.ne_of_follows hfollows) (by decide) (Station.mem_all p)
        (Station.mem_all q)

theorem AllAtStations.emit (h : AllAtStations s)
    (command : InsertDocumentIntoRemoteBackOfficeCommand) : AllAtStations (s.emit command) := by
  obtain ⟨hhub, hothers⟩ := commandsAt_emit s command
  have hstations : (Station.all.flatMap (commandsAt (s.emit command))).Perm
      (command.correlationId :: Station.all.flatMap (commandsAt s)) := by
    simp only [Station.all, List.flatMap_cons, List.flatMap_nil, hothers .hubError nofun,
      hothers .audit nofun, hothers .auditError nofun, hothers .messageLog nofun]
    exact hhub.append_right _
  unfold AllAtStations
  change ((s.emitted ++ [command]).map fun c => c.correlationId).Perm _
  exact (perm_put _ command _).trans ((h.cons _).trans hstations.symm)

theorem AllAtStations.step (h : AllAtStations s) {e : PathEvent}
    (hstep : RemotePath.step json s e = some t) : AllAtStations t := by
  cases step_kind hstep with
  | emitted command _ hresult =>
      rw [hresult]
      exact h.emit command
  | subscriber event hevent _ hresult =>
      refine h.move (step_station (fun command => ?_) hstep) ?_
      · rw [hevent]
        exact nofun
      · rw [hresult]
        rfl
  | elsewhere hemitted hsubscriber =>
      refine h.move (step_station (fun command hevent => ?_) hstep) hemitted
      rw [hevent] at hstep
      obtain rfl := Option.some.inj hstep
      have hlength := congrArg List.length hemitted
      simp [Path.emit] at hlength

/-- In every state of every run of the remote path, each emitted command is at one
station, as often as it was emitted. -/
theorem all_at_stations (json : JsonSerializer Json) (events : List PathEvent) :
    (remotePath json).Always AllAtStations (remotePath json).init events :=
  Machine.always_of_step (fun _ _ _ hs hstep => hs.step hstep) events AllAtStations.initial

theorem AllAtStations.mem_emitted (h : AllAtStations s) {c : Guid} :
    Emitted s c ↔ ∃ p, c ∈ commandsAt s p := by
  rw [emitted_iff_mem, h.mem_iff, List.mem_flatMap]
  constructor
  · rintro ⟨p, -, hc⟩
    exact ⟨p, hc⟩
  · rintro ⟨p, hc⟩
    exact ⟨p, Station.mem_all p, hc⟩

end AllAtStations

/-- The sagas of the remote path, with one command each, which is at its station. -/
structure CommandsTracked (json : JsonSerializer Json) (s : Path Json) : Prop
    extends SagasOfEmissions json s where
  stations : AllAtStations s
  distinct : (s.emitted.map fun command => command.correlationId).Nodup

section CommandsTracked
variable {json : JsonSerializer Json} {s t : Path Json}

theorem CommandsTracked.initial : CommandsTracked json (Path.initial : Path Json) :=
  ⟨SagasOfEmissions.initial, AllAtStations.initial, List.nodup_nil⟩

theorem CommandsTracked.emit (h : CommandsTracked json s)
    {command : InsertDocumentIntoRemoteBackOfficeCommand}
    (hnew : ¬Emitted s command.correlationId) :
    CommandsTracked json (s.emit command) := by
  refine ⟨h.toSagasOfEmissions.emit command, h.stations.emit command, ?_⟩
  change ((s.emitted ++ [command]).map fun c => c.correlationId).Nodup
  rw [(perm_put s.emitted command _).nodup_iff]
  exact List.nodup_cons.mpr ⟨fun hmem => hnew (emitted_iff_mem.mpr hmem), h.distinct⟩

/-- Only an emission brings a command. -/
theorem CommandsTracked.step (h : CommandsTracked json s) {e : PathEvent}
    (hstep : RemotePath.step json s e = some t) (hemitted : t.emitted = s.emitted) :
    CommandsTracked json t :=
  ⟨h.toSagasOfEmissions.step hstep, h.stations.step hstep, hemitted ▸ h.distinct⟩

theorem CommandsTracked.auditCompletion (h : CommandsTracked json s) (c : Guid) (now : DateTime) :
    CommandsTracked json (s.withLog (handleCompletionAuditMessage s.hub.messageLog c now)) := by
  refine ⟨h.toSagasOfEmissions.auditCompletion c now, ?_, h.distinct⟩
  exact h.stations.move (station_auditCompletion s c now) rfl

end CommandsTracked

/-- The commands at a station whose sagas are not completed. -/
def openCommandsAt (s : Path Json) (p : Station) : List Guid :=
  (commandsAt s p).filter fun c => !s.completedSagas.contains c

section OpenCommands
variable {json : JsonSerializer Json} {s t : Path Json} {c : Guid}

theorem mem_openCommandsAt {p : Station} :
    c ∈ openCommandsAt s p ↔ c ∈ commandsAt s p ∧ c ∉ s.completedSagas := by
  simp [openCommandsAt]

/-- The command of an open saga is at a station. -/
theorem CommandsTracked.openCommand (hs : CommandsTracked json s) (hc : c ∈ s.openSagas) :
    ∃ p, c ∈ openCommandsAt s p := by
  obtain ⟨p, hp⟩ := hs.stations.mem_emitted.mp (hs.emitted_iff.mpr (Or.inl hc))
  have hdisjoint := (List.nodup_append.mp (hs.sagas.nodup_iff.mp hs.distinct)).2.2
  exact ⟨p, mem_openCommandsAt.mpr ⟨hp, fun hcompleted => hdisjoint c hc c hcompleted rfl⟩⟩

theorem openCommandsAt_transfer {p q : Station} (hcompleted : t.completedSagas = s.completedSagas)
    (h : Transfer (commandsAt s) (commandsAt t) c p q) (hc : c ∉ s.completedSagas) :
    Transfer (openCommandsAt s) (openCommandsAt t) c p q := by
  unfold openCommandsAt
  rw [hcompleted]
  exact h.filter_of_pos (by simpa using hc)

/-- A move of a command that is not open changes none of the open ones. -/
theorem openCommandsAt_perm (hcompleted : t.completedSagas = s.completedSagas) {p : Station}
    (h : (commandsAt t p).Perm (commandsAt s p)) :
    (openCommandsAt t p).Perm (openCommandsAt s p) := by
  unfold openCommandsAt
  rw [hcompleted]
  exact h.filter _

theorem openCommandsAt_of_completed {p q : Station}
    (hcompleted : t.completedSagas = s.completedSagas)
    (h : Transfer (commandsAt s) (commandsAt t) c p q) (hc : c ∈ s.completedSagas) (r : Station) :
    (openCommandsAt t r).Perm (openCommandsAt s r) := by
  unfold openCommandsAt
  rw [hcompleted]
  exact h.filter_of_neg (by simpa using hc) r

/-- A completion takes its command from the open ones, wherever it is. -/
theorem openCommandsAt_completed (hcommands : ∀ p, commandsAt t p = commandsAt s p)
    (hcompleted : t.completedSagas = c :: s.completedSagas) (p : Station) :
    openCommandsAt t p = (openCommandsAt s p).filter fun i => i != c := by
  unfold openCommandsAt
  rw [hcommands, hcompleted, List.filter_filter]
  refine List.filter_congr fun i _ => ?_
  rw [List.contains_cons, Bool.not_or]
  rfl

theorem openCommandsAt_completed_self (hcommands : ∀ p, commandsAt t p = commandsAt s p)
    (hcompleted : t.completedSagas = c :: s.completedSagas) {p : Station}
    (hnodup : (openCommandsAt s p).Nodup) (hc : c ∈ openCommandsAt s p) :
    (openCommandsAt s p).Perm (c :: openCommandsAt t p) := by
  rw [openCommandsAt_completed hcommands hcompleted, ← hnodup.erase_eq_filter]
  exact List.perm_cons_erase hc

theorem openCommandsAt_completed_other (hcommands : ∀ p, commandsAt t p = commandsAt s p)
    (hcompleted : t.completedSagas = c :: s.completedSagas) {p : Station}
    (hc : c ∉ openCommandsAt s p) : openCommandsAt t p = openCommandsAt s p := by
  rw [openCommandsAt_completed hcommands hcompleted]
  refine List.filter_eq_self.mpr fun i hi => bne_iff_ne.mpr ?_
  rintro rfl
  exact hc hi

end OpenCommands

end ReliableSignalR.RemoteStations
