import ReliableSignalR.Noninterference
import ReliableSignalR.BrokerShares
import ReliableSignalR.AgreementSaga

/-!
# Isolation of the brokers

The hub, the audit endpoint, its web API and the saga endpoint share a state. The
callbacks of the hub act under the user of their connection, a request to the web
API under the user of its token. The request sends a command to the saga, and the
saga endpoint audits it, so that the rows are completed once more when the audit
endpoint handles the copy. Both still act for the user of the request. All other
events act for no broker.

A broker sees its connections, its rows, what a replay would push to it and which
of its sagas are open. The requests name a correlation, and nothing ties it
to the user. Brokers are isolated from each other precisely if no request names a
correlation of another broker.
-/
namespace ReliableSignalR.BrokerIsolation
open DotNet Messages KeyedTable RetainedEffects EventRuns Noninterference IdentityInfrastructure
open BrokerConnectionManager AuditEndpoint BackOfficeHub AgreementSaga BrokerShares
open HubRuns (principal insertCommand)

variable {Json : Type}

/-- `sent` has the `CompleteAgreementSagaCommand`s with the users of the requests, and
`copies` those that the saga endpoint has handled and audited. -/
structure Services (Json : Type) where
  hub : HubState Json
  agreements : Agreements
  sent : List (ClaimsPrincipal × Guid)
  copies : List (ClaimsPrincipal × Guid)

/-- `completionAudited` handles the copy of a command that a request has sent, and
`completed` that of an `OnlineDocumentSuccessfullyInsertedEvent`. -/
inductive ServiceEvent
  | onConnected (context : HubCallerContext) (env : Environment)
  | onReconnected (context : HubCallerContext) (env : Environment)
  | onDisconnected (context : HubCallerContext) (env : Environment)
  | posted (user : ClaimsPrincipal) (ack : SendAcknowledgementCommand) (now : DateTime)
  | completeAgreementSagaHandled (user : ClaimsPrincipal) (correlationId : Guid)
  | completionAudited (user : ClaimsPrincipal) (correlationId : Guid) (now : DateTime)
  | audited (message : StandardAuditMessage) (headers : Headers)
  | completed (correlationId : Guid) (now : DateTime)
  | agreement (e : AgreementEvent)

/-- The broker under whose identity the event acts. -/
def actor : ServiceEvent → Option ℤ
  | .onConnected context _ | .onReconnected context _ | .onDisconnected context _ =>
      context.user.brokerId.toOption
  | .posted user _ _ | .completeAgreementSagaHandled user _ | .completionAudited user _ _ =>
      user.brokerId.toOption
  | .audited _ _ | .completed _ _ | .agreement _ => none

namespace Services

def initial : Services Json := ⟨HubState.initial, Agreements.initial, [], []⟩

def withHub (s : Services Json) (hub : HubState Json) : Services Json := { s with hub }

def withLog (s : Services Json) (messageLog : AuditTable Json) : Services Json :=
  { s with hub := { s.hub with messageLog } }

end Services

/-- The message of the event is one that only a request sends. -/
def fromRequest : AgreementEvent → Bool
  | .completeAgreementSagaHandled _ => true
  | _ => false

section Machine
variable (users : String → ClaimsPrincipal) (json : JsonSerializer Json)
  (compressWithGzip : List UInt8 → List UInt8)

/-- A connection keeps its user. -/
def step (s : Services Json) : ServiceEvent → Option (Services Json)
  | .onConnected context env =>
      if context.user = users context.connectionId then
        some (s.withHub (exec (onConnected json context env) s.hub).2)
      else none
  | .onReconnected context env =>
      if context.user = users context.connectionId then
        some (s.withHub (exec (onReconnected context env) s.hub).2)
      else none
  | .onDisconnected context env =>
      if context.user = users context.connectionId then
        some (s.withHub (exec (onDisconnected context env) s.hub).2)
      else none
  | .posted user ack now =>
      some { s.withLog (post s.hub.messageLog ack now).1 with
        sent := s.sent ++ (post s.hub.messageLog ack now).2.map fun c => (user, c) }
  | .completeAgreementSagaHandled user correlationId =>
      if (user, correlationId) ∈ s.sent then
        some { s with
          agreements := s.agreements.markAsComplete correlationId
          copies := s.copies ++ [(user, correlationId)] }
      else none
  | .completionAudited user correlationId now =>
      if (user, correlationId) ∈ s.copies then
        some (s.withLog (handleCompletionAuditMessage s.hub.messageLog correlationId now))
      else none
  | .audited message headers =>
      some (s.withLog (handleStandardAuditMessage json s.hub.messageLog message headers))
  | .completed correlationId now =>
      some (s.withLog (handleCompletionAuditMessage s.hub.messageLog correlationId now))
  | .agreement e =>
      if fromRequest e then none
      else (AgreementSaga.step compressWithGzip s.agreements e).map fun agreements =>
        { s with agreements }

def services : Machine (Services Json) ServiceEvent where
  init := Services.initial
  step := step users json compressWithGzip

end Machine

/-- The correlation has a saga of the broker that is not completed. -/
def isOpen (s : Agreements) (brokerId : ℤ) (correlationId : Guid) : Bool :=
  (s.sagas correlationId).any fun data => data.brokerId == brokerId

structure View (Json : Type) where
  connections : List BrokerConnection
  rows : List (MessageLog Json)
  nextPushes : DateTime → Except Exception (List InsertDocumentIntoRemoteBackOfficeCommand)
  openSagas : Guid → Bool

def view (json : JsonSerializer Json) (brokerId : ℤ) (s : Services Json) : View Json where
  connections := connectionsOf s.hub.brokerConnections.entries brokerId
  rows := rowsOf s.hub.messageLog brokerId
  nextPushes now :=
    (deserializeAll json (unacknowledged s.hub.messageLog brokerId now)).map
      fun read => read.map Prod.snd
  openSagas := isOpen s.agreements brokerId

/-- An act of a broker changes nothing that another broker sees. -/
def LeavesOthersAlone (json : JsonSerializer Json) (s : Services Json) (e : ServiceEvent)
    (t : Services Json) : Prop :=
  ∀ a ∈ actor e, ∀ b, b ≠ a → view json b t = view json b s

/-- The correlation has no row of another broker, unless it was completed at that
instant. -/
def OwnRows (log : AuditTable Json) (user : ClaimsPrincipal) (correlationId : Guid)
    (now : DateTime) : Prop :=
  ∀ a ∈ user.brokerId.toOption, ∀ m ∈ log.rows, m.correlationId = correlationId →
    m.brokerId = a ∨ m.completionDate = some now

/-- The condition on a request, on the handling of its command and on that of its
audit copy: the correlation has no row and no saga of another broker. -/
def NamesOwnCorrelation (s : Services Json) : ServiceEvent → Prop
  | .posted user ack now =>
      ack.success = true → OwnRows s.hub.messageLog user ack.correlationId now
  | .completeAgreementSagaHandled user correlationId => ∀ a ∈ user.brokerId.toOption,
      ∀ data ∈ s.agreements.sagas correlationId, data.brokerId = a
  | .completionAudited user correlationId now => OwnRows s.hub.messageLog user correlationId now
  | _ => True

section Views
variable {json : JsonSerializer Json} {b : ℤ} {s t : Services Json}

theorem view_eq (hconnections : connectionsOf t.hub.brokerConnections.entries b =
      connectionsOf s.hub.brokerConnections.entries b)
    (hrows : rowsOf t.hub.messageLog b = rowsOf s.hub.messageLog b)
    (hopen : isOpen t.agreements b = isOpen s.agreements b) : view json b t = view json b s := by
  simp only [view, unacknowledged_eq, hconnections, hrows, hopen]

theorem view_eq_of_share (hshare : SameShare b t.hub s.hub) (hopen : t.agreements = s.agreements) :
    view json b t = view json b s :=
  view_eq hshare.connections hshare.rows (by rw [hopen])

theorem isOpen_markAsComplete (s : Agreements) (correlationId c : Guid) :
    isOpen (s.markAsComplete correlationId) b c =
      if c = correlationId then false else isOpen s b c := by
  unfold isOpen Agreements.markAsComplete
  by_cases h : c = correlationId
  · subst h
    simp
  · simp [h]

/-- The completion of a saga is unnoticed by a broker exactly if it is not its saga. -/
theorem isOpen_markAsComplete_eq_iff (s : Agreements) (correlationId : Guid) :
    isOpen (s.markAsComplete correlationId) b = isOpen s b ↔
      ∀ data ∈ s.sagas correlationId, data.brokerId ≠ b := by
  have hclosed : isOpen s b correlationId = false ↔
      ∀ data ∈ s.sagas correlationId, data.brokerId ≠ b := by
    unfold isOpen
    cases s.sagas correlationId with
    | none => simp
    | some data => simp
  rw [← hclosed]
  constructor
  · intro h
    rw [← h, isOpen_markAsComplete, if_pos rfl]
  · intro h
    funext c
    rw [isOpen_markAsComplete]
    split
    · next heq => rw [heq, h]
    · rfl

end Views

section Steps
variable {users : String → ClaimsPrincipal} {json : JsonSerializer Json}
  {compressWithGzip : List UInt8 → List UInt8} {s t : Services Json} {e : ServiceEvent}

theorem brokerId_of_toOption {user : ClaimsPrincipal} {a : ℤ}
    (h : a ∈ user.brokerId.toOption) : user.brokerId = .ok a := by
  cases hbroker : user.brokerId with
  | error e =>
      rw [hbroker] at h
      cases h
  | ok b =>
      rw [hbroker] at h
      exact congrArg Except.ok (Option.some.inj h)

theorem sound_step (hs : Sound users json s.hub)
    (hstep : step users json compressWithGzip s e = some t) : Sound users json t.hub := by
  cases e with
  | onConnected context env =>
      obtain ⟨huser, rfl⟩ := guarded hstep
      exact hs.onConnected huser
  | onReconnected context env =>
      obtain ⟨huser, rfl⟩ := guarded hstep
      exact hs.onReconnected huser
  | onDisconnected context env =>
      obtain ⟨-, rfl⟩ := guarded hstep
      exact hs.onDisconnected
  | posted user ack now =>
      obtain rfl := Option.some.inj hstep
      exact ⟨hs.owned, post_log hs.stored fun _ => hs.stored.complete ack.correlationId now⟩
  | completeAgreementSagaHandled user correlationId =>
      obtain ⟨-, rfl⟩ := guarded hstep
      exact hs
  | completionAudited user correlationId now =>
      obtain ⟨-, rfl⟩ := guarded hstep
      exact ⟨hs.owned, hs.stored.complete correlationId now⟩
  | audited message headers =>
      obtain rfl := Option.some.inj hstep
      exact ⟨hs.owned, hs.stored.insert message headers⟩
  | completed correlationId now =>
      obtain rfl := Option.some.inj hstep
      exact ⟨hs.owned, hs.stored.complete correlationId now⟩
  | agreement e =>
      obtain ⟨-, hstep⟩ := Option.ite_none_left_eq_some.mp hstep
      obtain ⟨agreements, -, rfl⟩ := Option.map_eq_some_iff.mp hstep
      exact hs

/-- A callback of one broker leaves the share of another as it is. -/
theorem callback_other {context : HubCallerContext} {a b : ℤ}
    (ha : a ∈ context.user.brokerId.toOption) (hne : b ≠ a) : context.user.brokerId ≠ .ok b := by
  rw [brokerId_of_toOption ha]
  exact fun h => hne (Except.ok.inj h).symm

/-- A completion is unnoticed by the others exactly if it concerns no row of theirs. -/
theorem ownRows_iff {log : AuditTable Json} {user : ClaimsPrincipal} {correlationId : Guid}
    {now : DateTime} :
    OwnRows log user correlationId now ↔ ∀ a ∈ user.brokerId.toOption, ∀ b, b ≠ a →
      rowsOf (completeCorrelatedMessages log correlationId now) b = rowsOf log b := by
  simp only [rowsOf_complete_eq_iff]
  constructor
  · intro h a ha b hne m hm hbroker hcorrelation
    rcases h a ha m hm hcorrelation with hown | hcompleted
    · exact absurd (hbroker.symm.trans hown) hne
    · exact hcompleted
  · intro h a ha m hm hcorrelation
    by_cases hown : m.brokerId = a
    · exact Or.inl hown
    · exact Or.inr (h a ha m.brokerId hown m hm rfl hcorrelation)

theorem posted_rows_iff {user : ClaimsPrincipal} {ack : SendAcknowledgementCommand}
    {now : DateTime} :
    NamesOwnCorrelation s (.posted user ack now) ↔ ∀ a ∈ user.brokerId.toOption, ∀ b, b ≠ a →
      rowsOf (post s.hub.messageLog ack now).1 b = rowsOf s.hub.messageLog b := by
  unfold NamesOwnCorrelation post
  cases hsuccess : ack.success with
  | false => simp [hsuccess]
  | true => simpa [hsuccess] using ownRows_iff

theorem handled_open_iff {user : ClaimsPrincipal} {correlationId : Guid} :
    NamesOwnCorrelation s (.completeAgreementSagaHandled user correlationId) ↔
      ∀ a ∈ user.brokerId.toOption, ∀ b, b ≠ a →
        isOpen (s.agreements.markAsComplete correlationId) b = isOpen s.agreements b := by
  unfold NamesOwnCorrelation
  simp only [isOpen_markAsComplete_eq_iff]
  constructor
  · intro h a ha b hne data hdata hbroker
    exact hne (hbroker.symm.trans (h a ha data hdata))
  · intro h a ha data hdata
    by_contra hne
    exact h a ha data.brokerId hne data hdata rfl

/-- From a sound state, an act leaves the others alone exactly if it meets the
condition. -/
theorem leavesOthersAlone_iff (hs : Sound users json s.hub)
    (hstep : step users json compressWithGzip s e = some t) :
    LeavesOthersAlone json s e t ↔ NamesOwnCorrelation s e := by
  cases e with
  | onConnected context env =>
      obtain ⟨-, rfl⟩ := guarded hstep
      refine ⟨fun _ => trivial, fun _ a ha b hne => ?_⟩
      exact view_eq_of_share (onConnected_other hs (callback_other ha hne)) rfl
  | onReconnected context env =>
      obtain ⟨-, rfl⟩ := guarded hstep
      refine ⟨fun _ => trivial, fun _ a ha b hne => ?_⟩
      exact view_eq_of_share (onReconnected_other (callback_other ha hne)) rfl
  | onDisconnected context env =>
      obtain ⟨huser, rfl⟩ := guarded hstep
      refine ⟨fun _ => trivial, fun _ a ha b hne => ?_⟩
      exact view_eq_of_share (onDisconnected_other hs huser (callback_other ha hne)) rfl
  | posted user ack now =>
      obtain rfl := Option.some.inj hstep
      rw [posted_rows_iff]
      constructor
      · intro h a ha b hne
        exact congrArg View.rows (h a ha b hne)
      · intro h a ha b hne
        exact view_eq rfl (h a ha b hne) rfl
  | completeAgreementSagaHandled user correlationId =>
      obtain ⟨-, rfl⟩ := guarded hstep
      rw [handled_open_iff]
      constructor
      · intro h a ha b hne
        exact congrArg View.openSagas (h a ha b hne)
      · intro h a ha b hne
        exact view_eq rfl rfl (h a ha b hne)
  | completionAudited user correlationId now =>
      obtain ⟨-, rfl⟩ := guarded hstep
      refine Iff.trans ?_ ownRows_iff.symm
      constructor
      · intro h a ha b hne
        exact congrArg View.rows (h a ha b hne)
      · intro h a ha b hne
        exact view_eq rfl (h a ha b hne) rfl
  | audited message headers => exact ⟨fun _ => trivial, fun _ => nofun⟩
  | completed correlationId now => exact ⟨fun _ => trivial, fun _ => nofun⟩
  | agreement e => exact ⟨fun _ => trivial, fun _ => nofun⟩

end Steps

/-- The broker has the same open sagas, and everything that messages of
agreements are taken from is the same. -/
structure SameAgreements (b : ℤ) (s t : Agreements) : Prop where
  submitted : s.submitted = t.submitted
  downloadCommands : s.downloadCommands = t.downloadCommands
  downloadedEvents : s.downloadedEvents = t.downloadedEvents
  openSagas : isOpen s b = isOpen t b

section Agreements
variable {compressWithGzip : List UInt8 → List UInt8} {b : ℤ} {s t : Agreements}

theorem isOpen_save (s : Agreements) (correlationId : Guid) (data : AgreementSagaData) (c : Guid) :
    isOpen (s.save correlationId data) b c =
      if c = correlationId then data.brokerId == b else isOpen s b c := by
  unfold isOpen Agreements.save
  by_cases h : c = correlationId
  · subst h
    simp
  · simp [h]

theorem SameAgreements.submit (h : SameAgreements b s t) (command : SubmitAgreementCommand)
    (now : DateTime) (drawn : Drawn) :
    SameAgreements b (s.submit command now drawn) (t.submit command now drawn) := by
  refine ⟨h.submitted, congrArg (· ++ _) h.downloadCommands, h.downloadedEvents, ?_⟩
  have hopen : ∀ r : Agreements, isOpen (r.submit command now drawn) b = fun c =>
      if c = command.correlationId then command.brokerId == b else isOpen r b c :=
    fun r => funext fun c => isOpen_save r _ _ c
  rw [hopen, hopen, h.openSagas]

/-- The document is sent on by the saga, which keeps its broker. -/
theorem sendDocument_same (s : Agreements) (event : DocumentDownloadedEvent) (now : DateTime)
    (drawn : Drawn) : SameAgreements b (s.sendDocument event now drawn) s := by
  unfold Agreements.sendDocument
  cases hsaga : s.sagas event.correlationId with
  | none => exact ⟨rfl, rfl, rfl, rfl⟩
  | some data =>
      cases hhandled : handleDocumentDownloadedEvent data event now drawn with
      | error e =>
          simp only [hhandled]
          exact ⟨rfl, rfl, rfl, rfl⟩
      | ok produced =>
          obtain ⟨data', command⟩ := produced
          obtain ⟨rfl, -, -⟩ := handleDocumentDownloadedEvent_ok hhandled
          simp only [hhandled]
          refine ⟨rfl, rfl, rfl, funext fun c => ?_⟩
          refine (isOpen_save s event.correlationId _ c).trans ?_
          split
          · next heq => simp [isOpen, heq, hsaga]
          · rfl

theorem SameAgreements.symm (h : SameAgreements b s t) : SameAgreements b t s :=
  ⟨h.submitted.symm, h.downloadCommands.symm, h.downloadedEvents.symm, h.openSagas.symm⟩

theorem SameAgreements.trans {u : Agreements} (h : SameAgreements b s t)
    (k : SameAgreements b t u) : SameAgreements b s u :=
  ⟨h.submitted.trans k.submitted, h.downloadCommands.trans k.downloadCommands,
    h.downloadedEvents.trans k.downloadedEvents, h.openSagas.trans k.openSagas⟩

theorem SameAgreements.download (h : SameAgreements b s t) (command : DownloadDocumentCommand)
    (response : Except Exception HttpResponse) (drawn : Drawn) :
    SameAgreements b (s.download compressWithGzip command response drawn)
      (t.download compressWithGzip command response drawn) := by
  unfold Agreements.download
  cases handleDownloadDocumentCommand compressWithGzip command response drawn with
  | error e => exact ⟨h.submitted, h.downloadCommands, h.downloadedEvents, h.openSagas⟩
  | ok event =>
      exact ⟨h.submitted, h.downloadCommands, congrArg (· ++ [event]) h.downloadedEvents,
        h.openSagas⟩

theorem SameAgreements.markAsComplete (h : SameAgreements b s t) (correlationId : Guid) :
    SameAgreements b (s.markAsComplete correlationId) (t.markAsComplete correlationId) := by
  refine ⟨h.submitted, h.downloadCommands, h.downloadedEvents, funext fun c => ?_⟩
  rw [isOpen_markAsComplete, isOpen_markAsComplete, h.openSagas]

theorem SameAgreements.step (h : SameAgreements b s t) {e : AgreementEvent} {s' : Agreements}
    (hstep : AgreementSaga.step compressWithGzip s e = some s') :
    ∃ t', AgreementSaga.step compressWithGzip t e = some t' ∧ SameAgreements b s' t' := by
  cases e with
  | submitted command =>
      obtain rfl := Option.some.inj hstep
      exact ⟨_, rfl, congrArg (· ++ [command]) h.submitted, h.downloadCommands,
        h.downloadedEvents, h.openSagas⟩
  | submitHandled position now drawn =>
      obtain ⟨command, hcommand, rfl⟩ := Option.map_eq_some_iff.mp hstep
      refine ⟨_, Option.map_eq_some_iff.mpr ⟨command, h.submitted ▸ hcommand, rfl⟩, ?_⟩
      exact h.submit command now drawn
  | downloadHandled position response drawn =>
      obtain ⟨command, hcommand, rfl⟩ := Option.map_eq_some_iff.mp hstep
      refine ⟨_, Option.map_eq_some_iff.mpr ⟨command, h.downloadCommands ▸ hcommand, rfl⟩, ?_⟩
      exact h.download command response drawn
  | documentDownloadedHandled position now drawn =>
      obtain ⟨event, hevent, rfl⟩ := Option.map_eq_some_iff.mp hstep
      refine ⟨_, Option.map_eq_some_iff.mpr ⟨event, h.downloadedEvents ▸ hevent, rfl⟩, ?_⟩
      exact (sendDocument_same s event now drawn).trans
        (h.trans (sendDocument_same t event now drawn).symm)
  | completeAgreementSagaHandled correlationId =>
      obtain rfl := Option.some.inj hstep
      exact ⟨_, rfl, h.markAsComplete correlationId⟩
  | onlineDocumentInsertedHandled correlationId =>
      obtain rfl := Option.some.inj hstep
      exact ⟨_, rfl, h.markAsComplete correlationId⟩

end Agreements

/-- The events under the identity of the broker. -/
def actsFor (a : ℤ) (e : ServiceEvent) : Bool := actor e == some a

/-- The lists have the same commands of all users but those of the broker. -/
def SameExcept (a : ℤ) (xs ys : List (ClaimsPrincipal × Guid)) : Prop :=
  ∀ p, p.1.brokerId.toOption ≠ some a → (p ∈ xs ↔ p ∈ ys)

section SameExcept
variable {a : ℤ} {xs ys zs : List (ClaimsPrincipal × Guid)}

theorem SameExcept.refl (xs : List (ClaimsPrincipal × Guid)) : SameExcept a xs xs :=
  fun _ _ => Iff.rfl

theorem SameExcept.trans (h : SameExcept a xs ys) (k : SameExcept a ys zs) :
    SameExcept a xs zs :=
  fun p hp => (h p hp).trans (k p hp)

/-- Commands of the broker itself make no difference. -/
theorem SameExcept.append_of (h : ∀ p ∈ ys, a ∈ p.1.brokerId.toOption) :
    SameExcept a (xs ++ ys) xs := by
  intro p hp
  constructor
  · intro hmem
    rcases List.mem_append.mp hmem with hold | hnew
    · exact hold
    · exact absurd (h p hnew) hp
  · exact List.mem_append_left _

theorem SameExcept.append (h : SameExcept a xs ys) (zs : List (ClaimsPrincipal × Guid)) :
    SameExcept a (xs ++ zs) (ys ++ zs) := by
  intro p hp
  rw [List.mem_append, List.mem_append, h p hp]

end SameExcept

/-- Broker `b` cannot tell the states apart, and neither can the events that are
not acts of broker `a`. -/
structure Alike (users : String → ClaimsPrincipal) (json : JsonSerializer Json) (a b : ℤ)
    (s t : Services Json) : Prop where
  twins : Twins users json b s.hub t.hub
  agreements : SameAgreements b s.agreements t.agreements
  sent : SameExcept a s.sent t.sent
  copies : SameExcept a s.copies t.copies

/-- The condition on the acts of one broker. -/
def ActsNameOwnCorrelation (a : ℤ) (s : Services Json) (e : ServiceEvent) : Prop :=
  actsFor a e = true → NamesOwnCorrelation s e

section Unwinding
variable {users : String → ClaimsPrincipal} {json : JsonSerializer Json}
  {compressWithGzip : List UInt8 → List UInt8} {a b : ℤ} {s t u : Services Json}
  {e : ServiceEvent}

theorem Alike.initial :
    Alike users json a b (Services.initial : Services Json) Services.initial :=
  ⟨⟨Sound.initial, Sound.initial, SameShare.refl b _⟩, ⟨rfl, rfl, rfl, rfl⟩, .refl _, .refl _⟩

theorem Alike.view (h : Alike users json a b s t) : view json b s = view json b t :=
  view_eq h.twins.share.connections h.twins.share.rows h.agreements.openSagas

/-- The first state moves within the share of others. -/
theorem Alike.move (h : Alike users json a b s u) (hsound : Sound users json t.hub)
    (hshare : SameShare b t.hub s.hub) (hagreements : SameAgreements b t.agreements s.agreements)
    (hsent : SameExcept a t.sent s.sent) (hcopies : SameExcept a t.copies s.copies) :
    Alike users json a b t u :=
  ⟨⟨hsound, h.twins.right, hshare.trans h.twins.share⟩, hagreements.trans h.agreements,
    hsent.trans h.sent, hcopies.trans h.copies⟩

theorem alike_unseen (hne : b ≠ a) (hs : Sound users json s.hub) (hacts : actsFor a e = true)
    (hcond : NamesOwnCorrelation s e) (hstep : step users json compressWithGzip s e = some t)
    (h : Alike users json a b s u) : Alike users json a b t u := by
  have hact : a ∈ actor e := beq_iff_eq.mp hacts
  have hsound := sound_step hs hstep
  have hsame : SameAgreements b s.agreements s.agreements := ⟨rfl, rfl, rfl, rfl⟩
  cases e with
  | onConnected context env =>
      obtain ⟨-, rfl⟩ := guarded hstep
      exact h.move hsound (onConnected_other hs (callback_other hact hne)) hsame (.refl _)
        (.refl _)
  | onReconnected context env =>
      obtain ⟨-, rfl⟩ := guarded hstep
      exact h.move hsound (onReconnected_other (callback_other hact hne)) hsame (.refl _)
        (.refl _)
  | onDisconnected context env =>
      obtain ⟨huser, rfl⟩ := guarded hstep
      exact h.move hsound (onDisconnected_other hs huser (callback_other hact hne)) hsame
        (.refl _) (.refl _)
  | posted user ack now =>
      obtain rfl := Option.some.inj hstep
      refine h.move hsound ⟨rfl, posted_rows_iff.mp hcond a hact b hne, ?_⟩ hsame
        (.append_of fun p hp => ?_) (.refl _)
      · unfold Services.withLog post
        split
        · rfl
        · rfl
      · obtain ⟨c, -, rfl⟩ := List.mem_map.mp hp
        exact hact
  | completeAgreementSagaHandled user correlationId =>
      obtain ⟨-, rfl⟩ := guarded hstep
      exact h.move hsound (SameShare.refl b _)
        ⟨rfl, rfl, rfl, handled_open_iff.mp hcond a hact b hne⟩ (.refl _)
        (.append_of (List.forall_mem_singleton.mpr hact))
  | completionAudited user correlationId now =>
      obtain ⟨-, rfl⟩ := guarded hstep
      exact h.move hsound ⟨rfl, ownRows_iff.mp hcond a hact b hne, rfl⟩ hsame (.refl _) (.refl _)
  | audited message headers => cases hact
  | completed correlationId now => cases hact
  | agreement e => cases hact

theorem alike_matched (hacts : actsFor a e = false)
    (hstep : step users json compressWithGzip s e = some t) (h : Alike users json a b s u) :
    ∃ v, step users json compressWithGzip u e = some v ∧ Alike users json a b t v := by
  have hact : actor e ≠ some a := by simpa [actsFor] using hacts
  cases e with
  | onConnected context env =>
      obtain ⟨huser, rfl⟩ := guarded hstep
      exact ⟨_, if_pos huser, h.twins.onConnected huser, h.agreements, h.sent, h.copies⟩
  | onReconnected context env =>
      obtain ⟨huser, rfl⟩ := guarded hstep
      exact ⟨_, if_pos huser, h.twins.onReconnected huser, h.agreements, h.sent, h.copies⟩
  | onDisconnected context env =>
      obtain ⟨huser, rfl⟩ := guarded hstep
      exact ⟨_, if_pos huser, h.twins.onDisconnected, h.agreements, h.sent, h.copies⟩
  | posted user ack now =>
      obtain rfl := Option.some.inj hstep
      refine ⟨_, rfl, ?_, h.agreements, ?_, h.copies⟩
      · unfold Services.withLog post
        split
        · exact ⟨⟨h.twins.left.owned, h.twins.left.stored⟩,
            ⟨h.twins.right.owned, h.twins.right.stored⟩, h.twins.share⟩
        · exact h.twins.complete ack.correlationId now
      · have hnew : (post s.hub.messageLog ack now).2 = (post u.hub.messageLog ack now).2 := by
          unfold post
          split
          · rfl
          · rfl
        simp only [hnew]
        exact h.sent.append _
  | completeAgreementSagaHandled user correlationId =>
      obtain ⟨hsent, rfl⟩ := guarded hstep
      exact ⟨_, if_pos ((h.sent (user, correlationId) hact).mp hsent), h.twins,
        h.agreements.markAsComplete correlationId, h.sent, h.copies.append _⟩
  | completionAudited user correlationId now =>
      obtain ⟨hcopy, rfl⟩ := guarded hstep
      exact ⟨_, if_pos ((h.copies (user, correlationId) hact).mp hcopy),
        h.twins.complete correlationId now, h.agreements, h.sent, h.copies⟩
  | audited message headers =>
      obtain rfl := Option.some.inj hstep
      exact ⟨_, rfl, h.twins.audited message headers, h.agreements, h.sent, h.copies⟩
  | completed correlationId now =>
      obtain rfl := Option.some.inj hstep
      exact ⟨_, rfl, h.twins.complete correlationId now, h.agreements, h.sent, h.copies⟩
  | agreement e =>
      obtain ⟨hrequest, hstep⟩ := Option.ite_none_left_eq_some.mp hstep
      obtain ⟨agreements, hagreements, rfl⟩ := Option.map_eq_some_iff.mp hstep
      obtain ⟨agreements', hstep', hsame⟩ := h.agreements.step hagreements
      refine ⟨{ u with agreements := agreements' }, ?_, h.twins, hsame, h.sent, h.copies⟩
      exact (if_neg hrequest).trans (Option.map_eq_some_iff.mpr ⟨agreements', hstep', rfl⟩)

/-- What broker `b` sees does not depend on the acts of broker `a`. -/
def unwinding (users : String → ClaimsPrincipal) (json : JsonSerializer Json)
    (compressWithGzip : List UInt8 → List UInt8) {a b : ℤ} (hne : b ≠ a) :
    Unwinding (services users json compressWithGzip) (actsFor a) (ActsNameOwnCorrelation a) where
  I s := Sound users json s.hub
  alike := Alike users json a b
  keep _ _ _ hs hstep := sound_step hs hstep
  unseen _ _ _ _ hs hacts hcond hstep h := alike_unseen hne hs hacts (hcond hacts) hstep h
  matched _ _ _ _ _ _ hacts hstep h := alike_matched hacts hstep h

end Unwinding

/-- In every run of the services, whatever throws: the acts of brokers leave what
other brokers see alone precisely if each successful acknowledgement, the handling
of the command it sends and that of the audit copy of this command name a correlation
of the acting broker. Two runs that differ only in such acts of one broker look the
same to any other. -/
theorem brokers_isolated_exactly_when (users : String → ClaimsPrincipal)
    (json : JsonSerializer Json) (compressWithGzip : List UInt8 → List UInt8)
    (events : List ServiceEvent) :
    ((services users json compressWithGzip).Throughout (LeavesOthersAlone json) Services.initial
        events ↔
      (services users json compressWithGzip).Meets NamesOwnCorrelation Services.initial events) ∧
    ∀ a b, b ≠ a → ∀ events', purge (actsFor a) events = purge (actsFor a) events' →
      (services users json compressWithGzip).Meets (ActsNameOwnCorrelation a) Services.initial
        events →
      (services users json compressWithGzip).Meets (ActsNameOwnCorrelation a) Services.initial
        events' →
      ∀ s s', (services users json compressWithGzip).run Services.initial events = some s →
        (services users json compressWithGzip).run Services.initial events' = some s' →
        view json b s = view json b s' := by
  constructor
  · apply Machine.throughout_iff_meets (I := fun s => Sound users json s.hub)
    · exact fun s e t hs hstep => sound_step hs hstep
    · exact fun s e t hs hstep => leavesOthersAlone_iff hs hstep
    · exact Sound.initial
  · intro a b hne events' hsame hmeets hmeets' s s' hrun hrun'
    exact (unwinding users json compressWithGzip hne).runs_agree (s := Services.initial)
      (fun _ _ halike => Alike.view halike) Sound.initial Alike.initial hsame hmeets hmeets' hrun
      hrun'

/-- An agreement of broker 123 has an open saga and an audited command. -/
def beforeAcknowledgement : List ServiceEvent :=
  [.agreement (.submitted ⟨⟨7, 7, 123, 0⟩, "http://localhost/1", 1⟩),
    .agreement (.submitHandled 0 0 ⟨8, 0⟩),
    .audited (.insertDocumentIntoRemoteBackOfficeCommand (insertCommand 7 123)) []]

/-- Broker 456 acknowledges the correlation of broker 123: the command is no longer
to be pushed and the saga is completed. -/
theorem foreign_acknowledgement_counterexample :
    ∃ s t u, (services (fun _ => principal "123" "0") JsonSerializer.transparent id).run
        Services.initial beforeAcknowledgement = some s ∧
      (services (fun _ => principal "123" "0") JsonSerializer.transparent id).step s
        (.posted (principal "456" "0") ⟨7, true, none⟩ 0) = some t ∧
      (services (fun _ => principal "123" "0") JsonSerializer.transparent id).step t
        (.completeAgreementSagaHandled (principal "456" "0") 7) = some u ∧
      actor (.posted (principal "456" "0") ⟨7, true, none⟩ 0) = some 456 ∧
      (view JsonSerializer.transparent 123 s).nextPushes 0 = .ok [insertCommand 7 123] ∧
      (view JsonSerializer.transparent 123 t).nextPushes 0 = .ok [] ∧
      (view JsonSerializer.transparent 123 t).openSagas 7 = true ∧
      (view JsonSerializer.transparent 123 u).openSagas 7 = false ∧
      ¬LeavesOthersAlone JsonSerializer.transparent s
        (.posted (principal "456" "0") ⟨7, true, none⟩ 0) t := by
  refine ⟨_, _, _, rfl, rfl, rfl, by decide, by decide +kernel, by decide +kernel,
    by decide +kernel, by decide +kernel, fun h => ?_⟩
  have hpushes := congrArg (fun v => v.nextPushes 0) (h 456 (by decide) 123 (by decide))
  revert hpushes
  decide +kernel

end ReliableSignalR.BrokerIsolation
