import ReliableSignalR.MessageStoreContents
import ReliableSignalR.CommandRecovery

/-!
# The document handler on its database

The handler keeps its identifiers in a list, the service in a database that its
static constructor makes. Here the body calls the service: the first message of a
process starts the constructor, the body waits for it, and a process that stops
takes both the constructor and the message in hand with it.

In every run the handler on the list can do what the handler on the database does,
also after a start that has ended between the creation of the file and the commit.
What such a start costs is progress: no message is handled any more.
-/
namespace ReliableSignalR.DurableSubscriber
open DotNet EventRuns
open DocumentHandler (Copy HandlePhase Handling Subscriber SubscriberEvent insertedIds)
open MessageStoreCreation (Database StoreEvent Statement Table HasMessageTable Progress Sound
  InWindow EndsOutsideWindow ids)
open MessageStoreContents (Damaged Refines)
open CommandRecovery (Held)

/-- The list of identifiers in `subscriber` stays empty and is not read. -/
structure SubscriberProcess where
  subscriber : Subscriber
  messageStore : MessageStoreCreation.MessageStore

/-- `now` is the time at which a record is written. -/
inductive ProcessEvent
  | store (event : StoreEvent)
  | handler (now : DateTime) (event : SubscriberEvent)

namespace SubscriberProcess

def withSubscriber (c : SubscriberProcess) (subscriber : Subscriber) : SubscriberProcess :=
  { c with subscriber }

/-- A method of the service. Once the static constructor has thrown the container
cannot build the service, and the body does not begin. -/
def callStore {α : Type} (c : SubscriberProcess)
    (method : Option Database → Except Exception α) : Option (Except Exception α) :=
  match c.messageStore.process with
  | .ready => some (method c.messageStore.disk)
  | .faulted => some (.error .external)
  | .stopped | .creating .. => none

/-- `messageStoreService.MessageExists`, at the beginning of the body. -/
def messageExists (c : SubscriberProcess) (h : Handling) (outcome : Except Exception Unit) :
    Option SubscriberProcess :=
  if h.phase = .messageExists then
    (c.callStore fun disk => MessageStoreCreation.messageExists disk h.copy.command.id).map
      fun answer =>
        match outcome, answer with
        | .ok _, .ok true => c.withSubscriber (c.subscriber.goto h .acknowledgeExisting)
        | .ok _, .ok false => c.withSubscriber (c.subscriber.goto h .addMessageId)
        | _, _ => c.withSubscriber (c.subscriber.rollback h)
  else none

/-- `messageStoreService.AddMessageId`; a call that throws may have committed before. -/
def addMessageId (c : SubscriberProcess) (h : Handling) (now : DateTime) (committed : Bool)
    (outcome : Except Exception Unit) : Option SubscriberProcess :=
  if h.phase = .addMessageId then
    (c.callStore fun disk => MessageStoreCreation.addMessageId disk h.copy.command.id now).map
      fun written =>
        match written, outcome with
        | .ok disk, .ok _ =>
            ⟨c.subscriber.goto h .insertDocument, { c.messageStore with disk }⟩
        | .ok disk, .error _ =>
            if committed then ⟨c.subscriber.rollback h, { c.messageStore with disk }⟩
            else c.withSubscriber (c.subscriber.rollback h)
        | .error _, _ => c.withSubscriber (c.subscriber.rollback h)
  else none

/-- The process stops, with or without a message in hand. -/
def crash (c : SubscriberProcess) : SubscriberProcess :=
  ⟨match c.subscriber.handling with
    | some h => c.subscriber.rollback h
    | none => c.subscriber, { c.messageStore with process := .stopped }⟩

def onStore (c : SubscriberProcess) (event : StoreEvent) : Option SubscriberProcess :=
  (MessageStoreCreation.step c.messageStore event).map fun messageStore => { c with messageStore }

end SubscriberProcess

def step (c : SubscriberProcess) : ProcessEvent → Option SubscriberProcess
  | .store .started => if c.subscriber.handling.isSome then c.onStore .started else none
  | .store .crashed => some c.crash
  | .store (.messageAdded ..) => none
  | .store event => c.onStore event
  | .handler _ (.messageExists outcome) =>
      c.subscriber.handling.bind fun h => c.messageExists h outcome
  | .handler now (.addMessageId committed outcome) =>
      c.subscriber.handling.bind fun h => c.addMessageId h now committed outcome
  | .handler _ .crashed => none
  | .handler _ event => (DocumentHandler.step c.subscriber event).map c.withSubscriber

def subscriberProcess : Machine SubscriberProcess ProcessEvent where
  init := ⟨Subscriber.initial, MessageStoreCreation.messageStore.init⟩
  step := step

/-- The handler with the list that the database stands for. -/
def view (c : SubscriberProcess) : Subscriber :=
  { c.subscriber with store := (ids c.messageStore.disk).reverse }

/-- The condition on the end of a start: it does not fall into the window. -/
def StartsEndOutsideWindow (c : SubscriberProcess) : ProcessEvent → Prop
  | .store event => EndsOutsideWindow c.messageStore event
  | .handler .. => True

/-- The events of the body that the handler alone decides. -/
def Alone : SubscriberEvent → Prop
  | .messageExists _ | .addMessageId .. | .crashed => False
  | _ => True

/-- One constructor for every way in which a step can come out. -/
inductive StepEffect (c : SubscriberProcess) : ProcessEvent → SubscriberProcess → Prop
  | constructor {event : StoreEvent} {messageStore : MessageStoreCreation.MessageStore}
      (running : event ∈ [.started, .advanced, .threw])
      (step : MessageStoreCreation.step c.messageStore event = some messageStore) :
      StepEffect c (.store event) { c with messageStore }
  | crashed : StepEffect c (.store .crashed) c.crash
  | alone {now : DateTime} {event : SubscriberEvent} {subscriber : Subscriber}
      (apart : Alone event) (step : DocumentHandler.step c.subscriber event = some subscriber) :
      StepEffect c (.handler now event) (c.withSubscriber subscriber)
  | unanswered {now : DateTime} {outcome : Except Exception Unit} {h : Handling}
      (handling : c.subscriber.handling = some h) (phase : h.phase = .messageExists) :
      StepEffect c (.handler now (.messageExists outcome))
        (c.withSubscriber (c.subscriber.rollback h))
  | answered {now : DateTime} {h : Handling} {answer : Bool}
      (handling : c.subscriber.handling = some h) (phase : h.phase = .messageExists)
      (ready : c.messageStore.process = .ready)
      (exist : MessageStoreCreation.messageExists c.messageStore.disk h.copy.command.id =
        .ok answer) :
      StepEffect c (.handler now (.messageExists (.ok ())))
        (c.withSubscriber (c.subscriber.goto h
          (if answer then .acknowledgeExisting else .addMessageId)))
  | unwritten {now : DateTime} {committed : Bool} {outcome : Except Exception Unit}
      {h : Handling} (handling : c.subscriber.handling = some h)
      (phase : h.phase = .addMessageId) :
      StepEffect c (.handler now (.addMessageId committed outcome))
        (c.withSubscriber (c.subscriber.rollback h))
  | written {now : DateTime} {committed : Bool} {h : Handling} {disk : Option Database}
      (handling : c.subscriber.handling = some h) (phase : h.phase = .addMessageId)
      (ready : c.messageStore.process = .ready)
      (added : MessageStoreCreation.addMessageId c.messageStore.disk h.copy.command.id now =
        .ok disk) :
      StepEffect c (.handler now (.addMessageId committed (.ok ())))
        ⟨c.subscriber.goto h .insertDocument, { c.messageStore with disk }⟩
  | cut {now : DateTime} {x : Exception} {h : Handling} {disk : Option Database}
      (handling : c.subscriber.handling = some h) (phase : h.phase = .addMessageId)
      (ready : c.messageStore.process = .ready)
      (added : MessageStoreCreation.addMessageId c.messageStore.disk h.copy.command.id now =
        .ok disk) :
      StepEffect c (.handler now (.addMessageId true (.error x)))
        ⟨c.subscriber.rollback h, { c.messageStore with disk }⟩

section Steps
variable {c d : SubscriberProcess} {e : ProcessEvent} {h : Handling}

theorem callStore_eq_some {α : Type} {method : Option Database → Except Exception α}
    {result : Except Exception α} (hcall : c.callStore method = some result) :
    (c.messageStore.process = .ready ∧ result = method c.messageStore.disk) ∨
      result = .error .external := by
  unfold SubscriberProcess.callStore at hcall
  split at hcall
  · next hready => exact Or.inl ⟨hready, (Option.some.inj hcall).symm⟩
  · exact Or.inr (Option.some.inj hcall).symm
  · cases hcall
  · cases hcall

theorem messageExists_effect {now : DateTime} {outcome : Except Exception Unit}
    (hhandling : c.subscriber.handling = some h) (hstep : c.messageExists h outcome = some d) :
    StepEffect c (.handler now (.messageExists outcome)) d := by
  obtain ⟨hphase, hstep⟩ := Option.ite_none_right_eq_some.mp hstep
  obtain ⟨result, hcall, rfl⟩ := Option.map_eq_some_iff.mp hstep
  cases outcome with
  | error x => exact .unanswered hhandling hphase
  | ok _ =>
      cases result with
      | error x => exact .unanswered hhandling hphase
      | ok answer =>
          rcases callStore_eq_some hcall with ⟨hready, hresult⟩ | hfaulted
          · cases answer with
            | true => exact .answered hhandling hphase hready hresult.symm
            | false => exact .answered hhandling hphase hready hresult.symm
          · cases hfaulted

theorem addMessageId_effect {now : DateTime} {committed : Bool}
    {outcome : Except Exception Unit} (hhandling : c.subscriber.handling = some h)
    (hstep : c.addMessageId h now committed outcome = some d) :
    StepEffect c (.handler now (.addMessageId committed outcome)) d := by
  obtain ⟨hphase, hstep⟩ := Option.ite_none_right_eq_some.mp hstep
  obtain ⟨result, hcall, rfl⟩ := Option.map_eq_some_iff.mp hstep
  cases result with
  | error x => exact .unwritten hhandling hphase
  | ok disk =>
      rcases callStore_eq_some hcall with ⟨hready, hresult⟩ | hfaulted
      · cases outcome with
        | ok _ => exact .written hhandling hphase hready hresult.symm
        | error x =>
            cases committed with
            | true => exact .cut hhandling hphase hready hresult.symm
            | false => exact .unwritten hhandling hphase
      · cases hfaulted

theorem onStore_effect {event : StoreEvent} (hrunning : event ∈ [.started, .advanced, .threw])
    (hstep : c.onStore event = some d) : StepEffect c (.store event) d := by
  obtain ⟨messageStore, hstore, rfl⟩ := Option.map_eq_some_iff.mp hstep
  exact .constructor hrunning hstore

theorem step_alone {now : DateTime} {event : SubscriberEvent} (hapart : Alone event) :
    step c (.handler now event) =
      (DocumentHandler.step c.subscriber event).map c.withSubscriber := by
  cases event with
  | messageExists outcome => exact hapart.elim
  | addMessageId committed outcome => exact hapart.elim
  | crashed => exact hapart.elim
  | _ => rfl

theorem alone_effect {now : DateTime} {event : SubscriberEvent} (hapart : Alone event)
    (hstep : step c (.handler now event) = some d) : StepEffect c (.handler now event) d := by
  rw [step_alone hapart] at hstep
  obtain ⟨subscriber, hsubscriber, rfl⟩ := Option.map_eq_some_iff.mp hstep
  exact .alone hapart hsubscriber

theorem step_effect (hstep : step c e = some d) : StepEffect c e d := by
  cases e with
  | store event =>
      cases event with
      | started =>
          obtain ⟨-, hstep⟩ := Option.ite_none_right_eq_some.mp hstep
          exact onStore_effect (by decide) hstep
      | advanced => exact onStore_effect (by decide) hstep
      | threw => exact onStore_effect (by decide) hstep
      | crashed =>
          obtain rfl := Option.some.inj hstep
          exact .crashed
      | messageAdded messageId now => cases hstep
  | handler now event =>
      cases event with
      | messageExists outcome =>
          obtain ⟨h, hhandling, hstep⟩ := Option.bind_eq_some_iff.mp hstep
          exact messageExists_effect hhandling hstep
      | addMessageId committed outcome =>
          obtain ⟨h, hhandling, hstep⟩ := Option.bind_eq_some_iff.mp hstep
          exact addMessageId_effect hhandling hstep
      | crashed => cases hstep
      | _ => exact alone_effect trivial hstep

end Steps

/-- No message has got past the first call of the body. -/
structure Untouched (s : Subscriber) : Prop where
  calls : s.calls = []
  sent : s.sent = []
  handled : s.handled = []
  handling : ∀ h, s.handling = some h → h.phase = .messageExists

/-- As long as there is no table no message gets past the first call. -/
structure Intact (c : SubscriberProcess) : Prop where
  sound : Sound c.messageStore
  untouched : HasMessageTable c.messageStore.disk ∨ Untouched c.subscriber

structure Spoilt (c : SubscriberProcess) : Prop where
  damaged : Damaged c.messageStore
  untouched : Untouched c.subscriber

section Invariants
variable {c d : SubscriberProcess} {e : ProcessEvent} {s t : Subscriber}
  {m n : MessageStoreCreation.MessageStore}

theorem Untouched.rollback {h : Handling} (hs : Untouched s) : Untouched (s.rollback h) :=
  ⟨hs.calls, hs.sent, hs.handled, nofun⟩

theorem Untouched.crash (hc : Untouched c.subscriber) : Untouched c.crash.subscriber := by
  unfold SubscriberProcess.crash
  split
  · exact hc.rollback
  · exact hc

theorem Untouched.alone {event : SubscriberEvent} (hs : Untouched s) (hapart : Alone event)
    (hstep : DocumentHandler.step s event = some t) : Untouched t := by
  cases DocumentHandler.step_effect hstep with
  | queue _ hhandling _ hcalls hhandled hsent =>
      refine ⟨hcalls.trans hs.calls, hsent.trans hs.sent, hhandled.trans hs.handled, ?_⟩
      rw [hhandling]
      exact hs.handling
  | taken copy _ _ hhandling _ hcalls hhandled hsent =>
      refine ⟨hcalls.trans hs.calls, hsent.trans hs.sent, hhandled.trans hs.handled, ?_⟩
      intro h hh
      rw [hhandling] at hh
      obtain rfl := Option.some.inj hh
      rfl
  | handle h hh houtcome =>
      have hphase := hs.handling h hh
      cases houtcome with
      | messageExistsThrew => exact hapart.elim
      | found => exact hapart.elim
      | missed => exact hapart.elim
      | addMessageIdThrew => exact hapart.elim
      | addMessageIdCut => exact hapart.elim
      | stored => exact hapart.elim
      | crashed => exact hapart.elim
      | sendThrew => exact hs.rollback
      | insertDocumentThrew _ hother => cases hphase.symm.trans hother
      | inserted hother => cases hphase.symm.trans hother
      | refused hother => cases hphase.symm.trans hother
      | sent _ hother _ =>
          rw [hphase] at hother
          exact absurd hother (by decide)
      | abortedAtEnd hother _ => cases hphase.symm.trans hother
      | committed hother _ => cases hphase.symm.trans hother

theorem table_of_ready (hsound : Sound m) (hready : m.process = .ready) :
    HasMessageTable m.disk := by
  unfold Sound at hsound
  rw [hready] at hsound
  exact hsound

theorem no_table : ¬HasMessageTable (some ⟨[]⟩) := by
  intro ⟨_, hopen, _⟩
  cases hopen

/-- Once the table is there, the constructor leaves the file as it is. -/
theorem perform_disk {disk : Option Database} {uncommitted : Option Table}
    {statement : Statement} {rest : List Statement}
    (h : Progress disk uncommitted (statement :: rest)) (htable : HasMessageTable disk) :
    (MessageStoreCreation.perform disk uncommitted rest statement).disk = disk := by
  generalize hall : statement :: rest = all at h
  cases h with
  | initializing _ =>
      obtain ⟨rfl, rfl⟩ := List.cons.inj hall
      rfl
  | checking _ =>
      obtain ⟨rfl, rfl⟩ := List.cons.inj hall
      cases disk <;> rfl
  | creating =>
      obtain ⟨_, hopen, _⟩ := htable
      cases hopen
  | building _ _ _ => exact absurd htable no_table
  | ending _ hleft =>
      subst hall
      have hmem : statement ∈ MessageStoreCreation.closing := hleft.subset List.mem_cons_self
      rcases List.mem_cons.mp hmem with rfl | hmem
      · rfl
      · rw [List.mem_singleton.mp hmem]
        rfl

theorem table_kept (hsound : Sound m) {event : StoreEvent}
    (hevent : event ∈ [.started, .advanced, .threw])
    (hstep : MessageStoreCreation.step m event = some n) (htable : HasMessageTable m.disk) :
    HasMessageTable n.disk := by
  obtain ⟨disk, process⟩ := m
  cases event with
  | started =>
      obtain ⟨-, rfl⟩ := guarded hstep
      exact htable
  | advanced =>
      cases process with
      | creating rest uncommitted =>
          cases rest with
          | nil =>
              obtain rfl := Option.some.inj hstep
              exact htable
          | cons statement rest =>
              obtain rfl := Option.some.inj hstep
              have hprogress : Progress disk uncommitted (statement :: rest) := hsound
              rw [perform_disk hprogress htable]
              exact htable
      | _ => cases hstep
  | threw =>
      cases process with
      | creating rest uncommitted =>
          obtain rfl := Option.some.inj hstep
          exact htable
      | _ => cases hstep
  | crashed => exact absurd hevent (by decide)
  | messageAdded messageId now => exact absurd hevent (by simp)

/-- The database keeps its table when an identifier is added. -/
theorem added_sound {messageId : Guid} {now : DateTime} {disk : Option Database}
    (hsound : Sound m) (hready : m.process = .ready)
    (hadded : MessageStoreCreation.addMessageId m.disk messageId now = .ok disk) :
    Sound { m with disk } ∧ HasMessageTable disk := by
  have htable := table_of_ready hsound hready
  obtain ⟨disk', hadded', htable'⟩ := htable.addMessageId messageId now
  obtain rfl : disk' = disk := Except.ok.inj (hadded'.symm.trans hadded)
  refine ⟨?_, htable'⟩
  unfold Sound
  simp only [hready]
  exact htable'

theorem Intact.step (hc : Intact c) (hends : StartsEndOutsideWindow c e)
    (hstep : step c e = some d) : Intact d := by
  cases step_effect hstep with
  | constructor hrunning hstore =>
      refine ⟨hc.sound.step hends hstore, ?_⟩
      exact hc.untouched.imp_left (table_kept hc.sound hrunning hstore)
  | crashed =>
      exact ⟨hc.sound.step (e := .crashed) hends rfl, hc.untouched.imp_right Untouched.crash⟩
  | alone hapart hsubscriber =>
      exact ⟨hc.sound, hc.untouched.imp_right fun hs => hs.alone hapart hsubscriber⟩
  | unanswered _ _ => exact ⟨hc.sound, hc.untouched.imp_right Untouched.rollback⟩
  | answered _ _ hready _ => exact ⟨hc.sound, Or.inl (table_of_ready hc.sound hready)⟩
  | unwritten _ _ => exact ⟨hc.sound, hc.untouched.imp_right Untouched.rollback⟩
  | written _ _ hready hadded =>
      obtain ⟨hsound, htable⟩ := added_sound hc.sound hready hadded
      exact ⟨hsound, Or.inl htable⟩
  | cut _ _ hready hadded =>
      obtain ⟨hsound, htable⟩ := added_sound hc.sound hready hadded
      exact ⟨hsound, Or.inl htable⟩

/-- A start can end in the window only before the first message has got past the
first call. -/
theorem Spoilt.of_intact (hc : Intact c) (hends : ¬StartsEndOutsideWindow c e)
    (hstep : step c e = some d) : Spoilt d := by
  have huntouched (hwindow : InWindow c.messageStore) : Untouched c.subscriber := by
    refine hc.untouched.resolve_left fun htable => ?_
    rw [hc.sound.disk_in_window hwindow] at htable
    exact no_table htable
  cases step_effect hstep with
  | @constructor event _ hrunning hstore =>
      cases event with
      | threw =>
          exact ⟨.of_sound (e := .threw) hc.sound hends hstore, huntouched (not_not.mp hends)⟩
      | crashed => exact absurd hrunning (by decide)
      | _ => exact absurd trivial hends
  | crashed =>
      exact ⟨.of_sound (e := .crashed) hc.sound hends rfl, (huntouched (not_not.mp hends)).crash⟩
  | alone _ _ => exact absurd trivial hends
  | unanswered _ _ => exact absurd trivial hends
  | answered _ _ _ _ => exact absurd trivial hends
  | unwritten _ _ => exact absurd trivial hends
  | written _ _ _ _ => exact absurd trivial hends
  | cut _ _ _ _ => exact absurd trivial hends

theorem Spoilt.step (hc : Spoilt c) (hstep : step c e = some d) : Spoilt d := by
  cases step_effect hstep with
  | constructor _ hstore => exact ⟨hc.damaged.step hstore, hc.untouched⟩
  | crashed => exact ⟨hc.damaged.step (e := .crashed) rfl, hc.untouched.crash⟩
  | alone hapart hsubscriber => exact ⟨hc.damaged, hc.untouched.alone hapart hsubscriber⟩
  | unanswered _ _ => exact ⟨hc.damaged, hc.untouched.rollback⟩
  | answered _ _ _ hexists =>
      rw [hc.damaged.disk] at hexists
      cases hexists
  | unwritten _ _ => exact ⟨hc.damaged, hc.untouched.rollback⟩
  | written hhandling hphase _ _ => cases (hc.untouched.handling _ hhandling).symm.trans hphase
  | cut hhandling hphase _ _ => cases (hc.untouched.handling _ hhandling).symm.trans hphase

end Invariants

section View
variable {c d : SubscriberProcess} {e : ProcessEvent} {s t : Subscriber} {h : Handling}
  {m n : MessageStoreCreation.MessageStore}

theorem sendAndReturn_withStore (ack : Messages.SendAcknowledgementCommand)
    (outcome : Except Exception Unit) (store : DocumentHandler.MessageStore) :
    { s with store }.sendAndReturn h ack outcome =
      { s.sendAndReturn h ack outcome with store } := by
  cases outcome <;> rfl

/-- The store is a frame for what the body decides alone. -/
theorem handleStep_withStore {event : SubscriberEvent} (hapart : Alone event)
    (store : DocumentHandler.MessageStore)
    (hstep : DocumentHandler.handleStep s h event = some t) :
    DocumentHandler.handleStep { s with store } h event = some { t with store } := by
  cases event with
  | insertDocument outcome =>
      obtain ⟨hphase, hstep⟩ := Option.ite_none_right_eq_some.mp hstep
      refine (if_pos hphase).trans ?_
      cases outcome with
      | error x =>
          obtain rfl := Option.some.inj hstep
          rfl
      | ok result =>
          cases result <;>
          · obtain rfl := Option.some.inj hstep
            rfl
  | send outcome =>
      simp only [DocumentHandler.handleStep] at hstep ⊢
      split at hstep
      · obtain rfl := Option.some.inj hstep
        exact congrArg some (sendAndReturn_withStore _ outcome store)
      · obtain rfl := Option.some.inj hstep
        exact congrArg some (sendAndReturn_withStore _ outcome store)
      · obtain rfl := Option.some.inj hstep
        exact congrArg some (sendAndReturn_withStore _ outcome store)
      · cases hstep
  | ended =>
      obtain ⟨hphase, hstep⟩ := Option.ite_none_right_eq_some.mp hstep
      refine (if_pos hphase).trans ?_
      cases haborted : h.aborted with
      | true =>
          rw [haborted] at hstep
          obtain rfl := Option.some.inj hstep
          rfl
      | false =>
          rw [haborted] at hstep
          obtain rfl := Option.some.inj hstep
          rfl
  | messageExists outcome => exact hapart.elim
  | addMessageId committed outcome => exact hapart.elim
  | crashed => exact hapart.elim
  | _ => cases hstep

theorem alone_withStore {event : SubscriberEvent} (hapart : Alone event)
    (store : DocumentHandler.MessageStore) (hstep : DocumentHandler.step s event = some t) :
    DocumentHandler.step { s with store } event = some { t with store } := by
  cases event with
  | queued copy =>
      obtain rfl := Option.some.inj hstep
      rfl
  | discarded position =>
      obtain rfl := Option.some.inj hstep
      rfl
  | taken position =>
      simp only [DocumentHandler.step] at hstep ⊢
      split at hstep
      · obtain rfl := Option.some.inj hstep
        rfl
      · cases hstep
  | _ =>
      simp only [DocumentHandler.step] at hstep ⊢
      split at hstep
      · cases hstep
      · exact handleStep_withStore hapart store hstep

/-- The constructor changes no record. -/
theorem ids_constructed (hm : Sound m ∨ Damaged m) {event : StoreEvent}
    (hevent : event ∈ [.started, .advanced, .threw])
    (hstep : MessageStoreCreation.step m event = some n) : ids n.disk = ids m.disk := by
  rcases hm with hsound | hdamaged
  · have hrefines : Refines m (ids m.disk).reverse := ⟨hsound, (List.reverse_reverse _).symm⟩
    cases event with
    | started =>
        exact (hrefines.step (e := .started) trivial hstep).ids.trans (List.reverse_reverse _)
    | advanced =>
        exact (hrefines.step (e := .advanced) trivial hstep).ids.trans (List.reverse_reverse _)
    | threw =>
        obtain ⟨disk, process⟩ := m
        cases process with
        | creating rest uncommitted =>
            obtain rfl := Option.some.inj hstep
            rfl
        | _ => cases hstep
    | crashed => exact absurd hevent (by decide)
    | messageAdded messageId now => exact absurd hevent (by simp)
  · rw [hdamaged.disk, (hdamaged.step hstep).disk]

theorem view_crash : view c.crash = view c ∨
    DocumentHandler.step (view c) .crashed = some (view c.crash) := by
  obtain ⟨⟨queue, store, calls, handling, sent, handled⟩, messageStore⟩ := c
  cases handling with
  | none => exact Or.inl rfl
  | some h => exact Or.inr rfl

theorem answer_eq {disk : Option Database} {messageId : Guid} {answer : Bool}
    (htable : HasMessageTable disk)
    (hexists : MessageStoreCreation.messageExists disk messageId = .ok answer) :
    answer = DocumentHandler.messageExists (ids disk).reverse messageId := by
  rw [MessageStoreCreation.messageExists_eq htable] at hexists
  rw [← Except.ok.inj hexists, Bool.eq_iff_iff, decide_eq_true_iff,
    DocumentHandler.messageExists_iff, List.mem_reverse]

theorem added_ids {disk disk' : Option Database} {messageId : Guid} {now : DateTime}
    (htable : HasMessageTable disk)
    (hadded : MessageStoreCreation.addMessageId disk messageId now = .ok disk') :
    (ids disk').reverse = DocumentHandler.addMessageId (ids disk).reverse messageId := by
  rw [MessageStoreContents.ids_addMessageId htable hadded (List.reverse_reverse _).symm,
    List.reverse_reverse]

/-- A step of the process is a step of the handler on the list or changes nothing that
the handler knows of. -/
theorem view_step (hc : Intact c ∨ Spoilt c) (hstep : step c e = some d) :
    view d = view c ∨ ∃ event, DocumentHandler.step (view c) event = some (view d) := by
  have hstore : Sound c.messageStore ∨ Damaged c.messageStore := hc.imp Intact.sound Spoilt.damaged
  have htable {h : Handling} (hhandling : c.subscriber.handling = some h)
      (hphase : h.phase = .addMessageId) (hready : c.messageStore.process = .ready) :
      HasMessageTable c.messageStore.disk := by
    rcases hc with hintact | hspoilt
    · exact table_of_ready hintact.sound hready
    · cases (hspoilt.untouched.handling h hhandling).symm.trans hphase
  cases step_effect hstep with
  | constructor hrunning hevent =>
      left
      unfold view
      rw [ids_constructed hstore hrunning hevent]
  | crashed => exact view_crash.imp_right fun hcrashed => ⟨.crashed, hcrashed⟩
  | alone hapart hsubscriber => exact Or.inr ⟨_, alone_withStore hapart _ hsubscriber⟩
  | unanswered hhandling hphase =>
      refine Or.inr ⟨.messageExists (.error .external), ?_⟩
      simp only [DocumentHandler.step, view, hhandling]
      exact if_pos hphase
  | @answered _ h answer hhandling hphase hready hexists =>
      refine Or.inr ⟨.messageExists (.ok ()), ?_⟩
      have hanswer : DocumentHandler.messageExists (ids c.messageStore.disk).reverse
          h.copy.command.id = answer := by
        rcases hc with hintact | hspoilt
        · exact (answer_eq (table_of_ready hintact.sound hready) hexists).symm
        · rw [hspoilt.damaged.disk] at hexists
          cases hexists
      simp only [DocumentHandler.step, view, hhandling]
      refine (if_pos hphase).trans ?_
      simp only [hanswer]
      cases answer <;> rfl
  | unwritten hhandling hphase =>
      refine Or.inr ⟨.addMessageId false (.error .external), ?_⟩
      simp only [DocumentHandler.step, view, hhandling]
      exact if_pos hphase
  | written hhandling hphase hready hadded =>
      refine Or.inr ⟨.addMessageId true (.ok ()), ?_⟩
      simp only [DocumentHandler.step, view, hhandling]
      refine (if_pos hphase).trans ?_
      rw [added_ids (htable hhandling hphase hready) hadded]
      rfl
  | cut hhandling hphase hready hadded =>
      refine Or.inr ⟨.addMessageId true (.error .external), ?_⟩
      simp only [DocumentHandler.step, view, hhandling]
      refine (if_pos hphase).trans ?_
      rw [added_ids (htable hhandling hphase hready) hadded]
      rfl

end View

section Runs
variable {c d : SubscriberProcess} {e : ProcessEvent} {events : List ProcessEvent}

theorem intact_init : Intact subscriberProcess.init :=
  ⟨Or.inl rfl, Or.inr ⟨rfl, rfl, rfl, nofun⟩⟩

theorem kept (hc : Intact c ∨ Spoilt c) (hstep : step c e = some d) : Intact d ∨ Spoilt d := by
  rcases hc with hintact | hspoilt
  · by_cases hends : StartsEndOutsideWindow c e
    · exact Or.inl (hintact.step hends hstep)
    · exact Or.inr (.of_intact hintact hends hstep)
  · exact Or.inr (hspoilt.step hstep)

theorem intact_or_spoilt (hrun : subscriberProcess.run subscriberProcess.init events = some c) :
    (Intact c ∧ subscriberProcess.Meets StartsEndOutsideWindow subscriberProcess.init events) ∨
      (Spoilt c ∧
        ¬subscriberProcess.Meets StartsEndOutsideWindow subscriberProcess.init events) :=
  Machine.final_of_meets (fun _ _ _ hc hends hstep => hc.step hends hstep)
    (fun _ _ _ hc hends hstep => .of_intact hc hends hstep)
    (fun _ _ _ hc hstep => hc.step hstep) intact_init hrun

theorem reachable_view (h : subscriberProcess.Reachable c) :
    DocumentHandler.subscriber.Reachable (view c) := by
  have hboth : (Intact c ∨ Spoilt c) ∧ DocumentHandler.subscriber.Reachable (view c) := by
    refine h.invariant (I := fun c => (Intact c ∨ Spoilt c) ∧
      DocumentHandler.subscriber.Reachable (view c)) ?_ ⟨Or.inl intact_init, .init⟩
    intro c e d ⟨hc, hreachable⟩ hstep
    refine ⟨kept hc hstep, ?_⟩
    rcases view_step hc hstep with hsame | ⟨event, hevent⟩
    · rw [hsame]
      exact hreachable
    · exact hreachable.step hevent
  exact hboth.2

end Runs

section Reach
variable {c d : SubscriberProcess} {h : Handling} {copy : Copy}

theorem callStore_of_ready (hready : c.messageStore.process = .ready) {α : Type}
    (method : Option Database → Except Exception α) :
    c.callStore method = some (method c.messageStore.disk) := by
  unfold SubscriberProcess.callStore
  rw [hready]

theorem process_kept {now : DateTime} {event : SubscriberEvent}
    (hstep : step c (.handler now event) = some d) :
    d.messageStore.process = c.messageStore.process := by
  cases step_effect hstep <;> rfl

theorem lift_alone {event : SubscriberEvent} (hapart : Alone event) {t : Subscriber}
    (hstep : DocumentHandler.step (view c) event = some t) :
    ∃ d, step c (.handler 0 event) = some d ∧ view d = t := by
  have hstore := alone_withStore hapart (view c).store hstep
  have hsubscriber := alone_withStore hapart c.subscriber.store hstep
  refine ⟨c.withSubscriber { t with store := c.subscriber.store }, ?_, ?_⟩
  · rw [step_alone hapart]
    exact congrArg (Option.map c.withSubscriber) hsubscriber
  · exact (Option.some.inj (hstep.symm.trans hstore)).symm

theorem lift_messageExists (htable : HasMessageTable c.messageStore.disk)
    (hready : c.messageStore.process = .ready) {outcome : Except Exception Unit} {t : Subscriber}
    (hstep : DocumentHandler.handleStep (view c) h (.messageExists outcome) = some t) :
    ∃ d, c.messageExists h outcome = some d ∧ view d = t := by
  obtain ⟨hphase, hstep⟩ := Option.ite_none_right_eq_some.mp hstep
  have hexists : MessageStoreCreation.messageExists c.messageStore.disk h.copy.command.id =
      .ok (DocumentHandler.messageExists (view c).store h.copy.command.id) := by
    obtain ⟨answer, hanswer⟩ := htable.messageExists h.copy.command.id
    rw [MessageStoreCreation.messageExists, hanswer, answer_eq htable hanswer]
    rfl
  rw [SubscriberProcess.messageExists, if_pos hphase, callStore_of_ready hready, hexists,
    Option.map_some]
  cases outcome with
  | error x =>
      obtain rfl := Option.some.inj hstep
      exact ⟨_, rfl, rfl⟩
  | ok _ =>
      simp only at hstep
      split at hstep
      · next hfound =>
        obtain rfl := Option.some.inj hstep
        rw [hfound]
        exact ⟨_, rfl, rfl⟩
      · next hmissed =>
        obtain rfl := Option.some.inj hstep
        rw [Bool.eq_false_iff.mpr hmissed]
        exact ⟨_, rfl, rfl⟩

theorem lift_addMessageId (htable : HasMessageTable c.messageStore.disk)
    (hready : c.messageStore.process = .ready) {committed : Bool}
    {outcome : Except Exception Unit} {t : Subscriber}
    (hstep : DocumentHandler.handleStep (view c) h (.addMessageId committed outcome) = some t) :
    ∃ d, c.addMessageId h 0 committed outcome = some d ∧ view d = t := by
  obtain ⟨hphase, hstep⟩ := Option.ite_none_right_eq_some.mp hstep
  obtain ⟨disk, hadded, -⟩ := htable.addMessageId h.copy.command.id 0
  have hids : (ids disk).reverse =
      DocumentHandler.addMessageId (view c).store h.copy.command.id := added_ids htable hadded
  rw [SubscriberProcess.addMessageId, if_pos hphase, callStore_of_ready hready, hadded,
    Option.map_some]
  cases outcome with
  | error x =>
      cases committed with
      | true =>
          obtain rfl := Option.some.inj hstep
          rw [← hids]
          exact ⟨_, rfl, rfl⟩
      | false =>
          obtain rfl := Option.some.inj hstep
          exact ⟨_, rfl, rfl⟩
  | ok _ =>
      obtain rfl := Option.some.inj hstep
      rw [← hids]
      exact ⟨_, rfl, rfl⟩

/-- Outside the constructor a process with its table can do what the handler on the
list can do. -/
theorem lift_step (hc : Intact c) (hready : c.messageStore.process = .ready)
    {event : SubscriberEvent} (hevent : event ≠ .crashed) {t : Subscriber}
    (hstep : DocumentHandler.step (view c) event = some t) :
    ∃ d, step c (.handler 0 event) = some d ∧ view d = t := by
  have htable := table_of_ready hc.sound hready
  cases event with
  | messageExists outcome =>
      simp only [DocumentHandler.step] at hstep
      split at hstep
      · cases hstep
      · next h hhandling =>
        have hhandling : c.subscriber.handling = some h := hhandling
        simp only [step, hhandling, Option.bind_some]
        exact lift_messageExists htable hready hstep
  | addMessageId committed outcome =>
      simp only [DocumentHandler.step] at hstep
      split at hstep
      · cases hstep
      · next h hhandling =>
        have hhandling : c.subscriber.handling = some h := hhandling
        simp only [step, hhandling, Option.bind_some]
        exact lift_addMessageId htable hready hstep
  | crashed => exact absurd rfl hevent
  | _ => exact lift_alone (by trivial) hstep

theorem lift_run (hc : Intact c) (hready : c.messageStore.process = .ready)
    {events : List SubscriberEvent} (hevents : .crashed ∉ events) {t : Subscriber}
    (hrun : DocumentHandler.subscriber.run (view c) events = some t) :
    ∃ d, subscriberProcess.run c (events.map (.handler 0)) = some d ∧ view d = t := by
  induction events generalizing c with
  | nil =>
      obtain rfl := Option.some.inj hrun
      exact ⟨c, rfl, rfl⟩
  | cons event events ih =>
      obtain ⟨u, hu, hrest⟩ := (Machine.run_cons_eq_some _).mp hrun
      rw [List.mem_cons, not_or] at hevents
      obtain ⟨d, hstep, rfl⟩ := lift_step hc hready (Ne.symm hevents.1) hu
      obtain ⟨f, hf, hview⟩ := ih (hc.step (e := .handler 0 event) trivial hstep)
        ((process_kept hstep).trans hready) hevents.2 hrest
      exact ⟨f, (Machine.run_cons_eq_some _).mpr ⟨d, hstep, hf⟩, hview⟩

/-- The body runs to its end if all its calls return. -/
theorem body_to_end {s : Subscriber}
    (hhandling : s.handling = some ⟨copy, .messageExists, [], false⟩) :
    ∃ events t, DocumentHandler.subscriber.run s events = some t ∧ .crashed ∉ events ∧
      t.handled = s.handled ++ [copy] := by
  cases hexists : DocumentHandler.messageExists s.store copy.command.id with
  | true =>
      refine ⟨[.messageExists (.ok ()), .send (.ok ()), .ended],
        { s with
          handling := none
          sent := s.sent ++ [DocumentHandler.successAcknowledgement copy.command]
          handled := s.handled ++ [copy] }, ?_, by simp, rfl⟩
      simp [DocumentHandler.subscriber, DocumentHandler.step, DocumentHandler.handleStep,
        Subscriber.goto, Subscriber.sendAndReturn, Subscriber.commit, hhandling, hexists]
  | false =>
      refine ⟨[.messageExists (.ok ()), .addMessageId true (.ok ()), .insertDocument (.ok true),
          .send (.ok ()), .ended],
        { s with
          store := DocumentHandler.addMessageId s.store copy.command.id
          calls := (copy, .ok true) :: s.calls
          handling := none
          sent := s.sent ++ [DocumentHandler.successAcknowledgement copy.command]
          handled := s.handled ++ [copy] }, ?_, by simp, rfl⟩
      simp [DocumentHandler.subscriber, DocumentHandler.step, DocumentHandler.handleStep,
        Subscriber.goto, Subscriber.sendAndReturn, Subscriber.commit, hhandling, hexists]

theorem perform_process (disk : Option Database) (uncommitted : Option Table)
    (statement : Statement) (rest : List Statement) :
    (MessageStoreCreation.perform disk uncommitted rest statement).process = .ready ∨
      ∃ uncommitted', (MessageStoreCreation.perform disk uncommitted rest statement).process =
        .creating rest uncommitted' := by
  cases statement with
  | returnIfFileExists =>
      cases disk with
      | none => exact Or.inr ⟨_, rfl⟩
      | some database => exact Or.inl rfl
  | _ => exact Or.inr ⟨_, rfl⟩

/-- The constructor, left alone, comes to its end. -/
theorem reach_ready {rest : List Statement} {uncommitted : Option Table} (hc : Intact c)
    (hprocess : c.messageStore.process = .creating rest uncommitted) :
    subscriberProcess.CanReach (fun t => t.subscriber = c.subscriber ∧
      t.messageStore.process = .ready ∧ Intact t) c := by
  induction rest generalizing c uncommitted with
  | nil =>
      have hstep : subscriberProcess.step c (.store .advanced) =
          some { c with messageStore := { c.messageStore with process := .ready } } := by
        simp only [subscriberProcess, step, SubscriberProcess.onStore, MessageStoreCreation.step,
          hprocess, Option.map_some]
      have hd := hc.step (e := .store .advanced) trivial hstep
      exact .step hstep (.here ⟨rfl, rfl, hd⟩)
  | cons statement rest ih =>
      have hstep : subscriberProcess.step c (.store .advanced) = some { c with
          messageStore := MessageStoreCreation.perform c.messageStore.disk uncommitted rest
            statement } := by
        simp only [subscriberProcess, step, SubscriberProcess.onStore, MessageStoreCreation.step,
          hprocess, Option.map_some]
      have hd := hc.step (e := .store .advanced) trivial hstep
      rcases perform_process c.messageStore.disk uncommitted statement rest with
        hready | ⟨uncommitted', hcreating⟩
      · exact .step hstep (.here ⟨rfl, hready, hd⟩)
      · exact .step hstep (ih hd hcreating)

/-- The copy has been handled more than `k` times. -/
def HandledBeyond (copy : Copy) (k : ℕ) (c : SubscriberProcess) : Prop :=
  k < c.subscriber.handled.count copy

/-- A message in hand whose body has not begun is handled. -/
theorem reach_of_ready (hc : Intact c) (hready : c.messageStore.process = .ready)
    (hhandling : c.subscriber.handling = some ⟨copy, .messageExists, [], false⟩) :
    subscriberProcess.CanReach (HandledBeyond copy (c.subscriber.handled.count copy)) c := by
  obtain ⟨events, t, hrun, hevents, hhandled⟩ := body_to_end (s := view c) hhandling
  obtain ⟨d, hd, rfl⟩ := lift_run hc hready hevents hrun
  refine ⟨_, d, hd, ?_⟩
  have hhandled : d.subscriber.handled = c.subscriber.handled ++ [copy] := hhandled
  rw [HandledBeyond, hhandled, List.count_append, List.count_singleton_self]
  exact Nat.lt_succ_self _

theorem step_taken (hidle : c.subscriber.handling = none) (hqueued : copy ∈ c.subscriber.queue) :
    ∃ position d, subscriberProcess.step c (.handler 0 (.taken position)) = some d ∧
      d.messageStore = c.messageStore ∧ d.subscriber.handled = c.subscriber.handled ∧
      d.subscriber.handling = some ⟨copy, .messageExists, [], false⟩ := by
  obtain ⟨position, hposition⟩ := List.mem_iff_getElem?.mp hqueued
  refine ⟨position, c.withSubscriber { c.subscriber with
    queue := c.subscriber.queue.eraseIdx position
    handling := some ⟨copy, .messageExists, [], false⟩ }, ?_, rfl, rfl, rfl⟩
  change (DocumentHandler.step c.subscriber (.taken position)).map c.withSubscriber = _
  simp only [DocumentHandler.step, hidle, hposition]
  rfl

theorem step_started (hstopped : c.messageStore.process = .stopped)
    (hhandling : c.subscriber.handling = some h) :
    subscriberProcess.step c (.store .started) = some { c with
      messageStore := { c.messageStore with
        process := .creating MessageStoreCreation.createDatabaseIfRequired none } } := by
  simp only [subscriberProcess, step, hhandling, Option.isSome_some, if_true,
    SubscriberProcess.onStore, MessageStoreCreation.step, hstopped, Option.map_some]

/-- A new process takes the message and runs the constructor. -/
theorem reach_of_queued (hc : Intact c) (hstopped : c.messageStore.process = .stopped)
    (hidle : c.subscriber.handling = none) (hqueued : copy ∈ c.subscriber.queue) :
    subscriberProcess.CanReach (HandledBeyond copy (c.subscriber.handled.count copy)) c := by
  obtain ⟨position, d, htaken, hstore, hhandled, hhandling⟩ := step_taken hidle hqueued
  have hd := hc.step (e := .handler 0 (.taken position)) trivial htaken
  have hstarted := step_started (hstore ▸ hstopped) hhandling
  have hcreating := hd.step (e := .store .started) trivial hstarted
  refine .step htaken (.step hstarted ?_)
  refine (reach_ready hcreating rfl).bind ?_
  rintro t ⟨hsubscriber, hready, ht⟩
  have hsubscriber : t.subscriber = d.subscriber := hsubscriber
  rw [← hhandled, ← hsubscriber]
  exact reach_of_ready ht hready (hsubscriber ▸ hhandling)

theorem crash_idle (c : SubscriberProcess) : c.crash.subscriber.handling = none := by
  unfold SubscriberProcess.crash
  split
  · rfl
  · next hnone => exact hnone

theorem crash_handled (c : SubscriberProcess) :
    c.crash.subscriber.handled = c.subscriber.handled := by
  unfold SubscriberProcess.crash
  split <;> rfl

/-- The message in hand is queued again. -/
theorem queued_of_crash (hheld : Held c.subscriber copy) : copy ∈ c.crash.subscriber.queue := by
  unfold SubscriberProcess.crash
  split
  · next h hhandling =>
    change copy ∈ c.subscriber.queue ++ [h.copy]
    rcases hheld with hqueued | ⟨h', hh, rfl⟩
    · exact List.mem_append_left _ hqueued
    · obtain rfl := Option.some.inj (hhandling.symm.trans hh)
      exact List.mem_append_right _ List.mem_cons_self
  · next hnone =>
    refine hheld.resolve_right ?_
    intro ⟨h, hh, _⟩
    cases hnone.symm.trans hh

/-- Outside the constructor the process can be stopped without harm. -/
theorem reach_of_held (hc : Intact c)
    (hidle : ∀ rest uncommitted, c.messageStore.process ≠ .creating rest uncommitted)
    (hheld : Held c.subscriber copy) :
    subscriberProcess.CanReach (HandledBeyond copy (c.subscriber.handled.count copy)) c := by
  have hcrash : subscriberProcess.step c (.store .crashed) = some c.crash := rfl
  have hends : ¬InWindow c.messageStore :=
    fun ⟨rest, uncommitted, hprocess, _⟩ => hidle rest uncommitted hprocess
  have hd : Intact c.crash := hc.step (e := .store .crashed) hends hcrash
  rw [← crash_handled]
  exact .step hcrash (reach_of_queued hd rfl (crash_idle c) (queued_of_crash hheld))

theorem Intact.reach (hc : Intact c) (hheld : Held c.subscriber copy) :
    subscriberProcess.CanReach (HandledBeyond copy (c.subscriber.handled.count copy)) c := by
  cases hprocess : c.messageStore.process with
  | creating rest uncommitted =>
      refine (reach_ready hc hprocess).bind ?_
      rintro t ⟨hsubscriber, hready, ht⟩
      rw [← hsubscriber] at hheld ⊢
      exact reach_of_held ht (by simp [hready]) hheld
  | _ => exact reach_of_held hc (by simp [hprocess]) hheld

end Reach

/-- In every run of the subscriber on its database, through all starts, crashes and
exceptions, the handler is in a state that the handler on the list reaches, and no
identifier is inserted twice. A message that waits can still be handled precisely if no
start has ended between the creation of the file and the commit; after one that has,
nothing has been inserted or acknowledged. -/
theorem waiting_message_handled_exactly_when (events : List ProcessEvent)
    {c : SubscriberProcess}
    (hrun : subscriberProcess.run subscriberProcess.init events = some c) :
    DocumentHandler.subscriber.Reachable (view c) ∧ (insertedIds c.subscriber).Nodup ∧
    (∀ copy, Held c.subscriber copy →
      (subscriberProcess.CanReach (HandledBeyond copy (c.subscriber.handled.count copy)) c ↔
        subscriberProcess.Meets StartsEndOutsideWindow subscriberProcess.init events)) ∧
    (¬subscriberProcess.Meets StartsEndOutsideWindow subscriberProcess.init events →
      c.subscriber.calls = [] ∧ c.subscriber.sent = []) := by
  have hview := reachable_view ⟨events, hrun⟩
  have hnodup : (insertedIds (view c)).Nodup := DocumentHandler.insertedIds_nodup hview
  refine ⟨hview, hnodup, ?_⟩
  rcases intact_or_spoilt hrun with ⟨hintact, hmeets⟩ | ⟨hspoilt, hmisses⟩
  · exact ⟨fun copy hheld => ⟨fun _ => hmeets, fun _ => hintact.reach hheld⟩,
      fun hmisses => absurd hmeets hmisses⟩
  · refine ⟨fun copy _ => ⟨fun hreach => ?_, fun hmeets => absurd hmeets hmisses⟩,
      fun _ => ⟨hspoilt.untouched.calls, hspoilt.untouched.sent⟩⟩
    refine absurd hreach (Machine.not_canReach (fun _ _ _ hc hstep => Spoilt.step hc hstep)
      hspoilt fun t ht hbeyond => ?_)
    rw [HandledBeyond, ht.untouched.handled, List.count_nil] at hbeyond
    exact Nat.not_lt_zero _ hbeyond

instance (c : SubscriberProcess) : ∀ e, Decidable (StartsEndOutsideWindow c e)
  | .store event => inferInstanceAs (Decidable (EndsOutsideWindow c.messageStore event))
  | .handler .. => isTrue trivial

def waitingCopy : Copy := ⟨0, ⟨⟨⟨7, 1, 456, 0⟩, 1, []⟩⟩⟩

/-- The first message starts the constructor, and the process stops right after
`JetCreateDatabase`. -/
def cutStart : List ProcessEvent :=
  [.handler 0 (.queued waitingCopy), .handler 0 (.taken 0), .store .started, .store .advanced,
    .store .advanced, .store .advanced, .store .crashed]

theorem cut_start_strands_message :
    ∃ c, subscriberProcess.run subscriberProcess.init cutStart = some c ∧
      c.subscriber.queue = [waitingCopy] ∧
      ¬subscriberProcess.CanReach (HandledBeyond waitingCopy 0) c := by
  have hrun : ((subscriberProcess.run subscriberProcess.init cutStart).any fun c =>
      c.subscriber.queue == [waitingCopy] && c.subscriber.handled == []) = true := by
    decide +kernel
  obtain ⟨c, hc, hstate⟩ := (Option.any_eq_true _ _).mp hrun
  obtain ⟨hqueue, hhandled⟩ := Bool.and_eq_true_iff.mp hstate
  have hqueue := beq_iff_eq.mp hqueue
  have hhandled := beq_iff_eq.mp hhandled
  have hcut : ¬subscriberProcess.Meets StartsEndOutsideWindow subscriberProcess.init cutStart := by
    decide +kernel
  obtain ⟨-, -, hwaiting, -⟩ := waiting_message_handled_exactly_when cutStart hc
  have hheld : Held c.subscriber waitingCopy := Or.inl (by rw [hqueue]; exact List.mem_cons_self)
  have hexactly := hwaiting waitingCopy hheld
  rw [hhandled] at hexactly
  exact ⟨c, hc, hqueue, mt hexactly.mp hcut⟩

end ReliableSignalR.DurableSubscriber
