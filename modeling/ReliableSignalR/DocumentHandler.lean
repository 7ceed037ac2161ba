import ReliableSignalR.IdempotentReceiver
import ReliableSignalR.Messages

/-!
# The document handler of the subscriber and its message store

The handler runs one message at a time inside the transaction of its transport.
The store is a database of its own: what it has committed stays, whatever
becomes of that transaction. The scope that the handler opens joins the ambient
transaction; leaving it without `Complete` aborts the whole, so that none of the
sends goes out and the message is delivered again.

The body is cut at each of its calls. A call can throw and the process can stop
at any of them; both put the message back, and only the store and the calls
already made to the back office remain. A message in hand is not in the queue.

`origin` is the number of the emission that a copy descends from. No code reads it.
-/
namespace ReliableSignalR.DocumentHandler
open DotNet EventRuns IdempotentReceiver Messages

structure Copy where
  origin : ℕ
  command : InsertDocumentIntoRemoteBackOfficeCommand
deriving DecidableEq, Repr

abbrev MessageStore := List Guid

def messageExists (store : MessageStore) (messageId : Guid) : Bool :=
  store.contains messageId

def addMessageId (store : MessageStore) (messageId : Guid) : MessageStore :=
  if messageExists store messageId then store else messageId :: store

@[simp] theorem messageExists_iff {store : MessageStore} {messageId : Guid} :
    messageExists store messageId = true ↔ messageId ∈ store := by
  simp [messageExists]

/-- The call at which the body stands. -/
inductive HandlePhase
  | messageExists
  | acknowledgeExisting
  | addMessageId
  | insertDocument
  | acknowledgeInserted
  | acknowledgeFailed
  | returned
deriving DecidableEq, Repr

/-- A run of the body: `aborted` once the inner scope was left without `Complete`. -/
structure Handling where
  copy : Copy
  phase : HandlePhase
  sends : List SendAcknowledgementCommand
  aborted : Bool
deriving DecidableEq, Repr

/-- `calls` lists the calls of `InsertDocument` that have been made, newest first;
`handled` lists the messages that a committed run has consumed. -/
structure Subscriber where
  queue : List Copy
  store : MessageStore
  calls : List (Copy × Except Exception Bool)
  handling : Option Handling
  sent : List SendAcknowledgementCommand
  handled : List Copy

def successAcknowledgement (command : InsertDocumentIntoRemoteBackOfficeCommand) :
    SendAcknowledgementCommand :=
  ⟨command.correlationId, true, none⟩

def failureAcknowledgement (command : InsertDocumentIntoRemoteBackOfficeCommand) :
    SendAcknowledgementCommand :=
  ⟨command.correlationId, false, some "Failed to write to back office with error code xyz"⟩

/-- Deliveries, the calls of the body with their outcomes, and its end. A call of
`AddMessageId` that throws may have committed before. -/
inductive SubscriberEvent
  | queued (copy : Copy)
  | taken (position : ℕ)
  | messageExists (outcome : Except Exception Unit)
  | addMessageId (committed : Bool) (outcome : Except Exception Unit)
  | insertDocument (outcome : Except Exception Bool)
  | send (outcome : Except Exception Unit)
  | ended
  | crashed
  | discarded (position : ℕ)

namespace Subscriber

def initial : Subscriber := ⟨[], [], [], none, [], []⟩

/-- The transaction is rolled back and the message becomes available again. -/
def rollback (s : Subscriber) (h : Handling) : Subscriber :=
  { s with handling := none, queue := s.queue ++ [h.copy] }

def commit (s : Subscriber) (h : Handling) : Subscriber :=
  { s with handling := none, sent := s.sent ++ h.sends, handled := s.handled ++ [h.copy] }

def goto (s : Subscriber) (h : Handling) (phase : HandlePhase) : Subscriber :=
  { s with handling := some { h with phase } }

/-- `bus.Send` inside the transaction, after which the body returns. -/
def sendAndReturn (s : Subscriber) (h : Handling) (ack : SendAcknowledgementCommand) :
    Except Exception Unit → Subscriber
  | .error _ => s.rollback h
  | .ok _ =>
      { s with handling := some { h with phase := .returned, sends := h.sends ++ [ack] } }

end Subscriber

/-- The step of a run of the body that stands at the given call. -/
def handleStep (s : Subscriber) (h : Handling) : SubscriberEvent → Option Subscriber
  | .messageExists outcome =>
      if h.phase = .messageExists then
        match outcome with
        | .error _ => some (s.rollback h)
        | .ok _ =>
            if DocumentHandler.messageExists s.store h.copy.command.id then
              some (s.goto h .acknowledgeExisting)
            else some (s.goto h .addMessageId)
      else none
  | .addMessageId committed outcome =>
      if h.phase = .addMessageId then
        match outcome with
        | .error _ =>
            if committed then
              some ({ s with
                store := DocumentHandler.addMessageId s.store h.copy.command.id }.rollback h)
            else some (s.rollback h)
        | .ok _ =>
            some ({ s with
              store := DocumentHandler.addMessageId s.store h.copy.command.id }.goto h
                .insertDocument)
      else none
  | .insertDocument outcome =>
      if h.phase = .insertDocument then
        let called := { s with calls := (h.copy, outcome) :: s.calls }
        match outcome with
        | .error _ => some (called.rollback h)
        | .ok true => some (called.goto h .acknowledgeInserted)
        | .ok false => some (called.goto { h with aborted := true } .acknowledgeFailed)
      else none
  | .send outcome =>
      match h.phase with
      | .acknowledgeExisting | .acknowledgeInserted =>
          some (s.sendAndReturn h (successAcknowledgement h.copy.command) outcome)
      | .acknowledgeFailed =>
          some (s.sendAndReturn h (failureAcknowledgement h.copy.command) outcome)
      | _ => none
  | .ended =>
      if h.phase = .returned then
        if h.aborted then some (s.rollback h) else some (s.commit h)
      else none
  | .crashed => some (s.rollback h)
  | _ => none

def step (s : Subscriber) (e : SubscriberEvent) : Option Subscriber :=
  match e with
  | .queued copy => some { s with queue := s.queue ++ [copy] }
  | .taken position =>
      match s.handling, s.queue[position]? with
      | none, some copy =>
          some { s with
            queue := s.queue.eraseIdx position
            handling := some ⟨copy, .messageExists, [], false⟩ }
      | _, _ => none
  | .discarded position => some { s with queue := s.queue.eraseIdx position }
  | e =>
      match s.handling with
      | none => none
      | some h => handleStep s h e

def subscriber : Machine Subscriber SubscriberEvent where
  init := Subscriber.initial
  step := step

/-- One constructor for every way in which a call of the body can come out. -/
inductive HandleOutcome (s : Subscriber) (h : Handling) : SubscriberEvent → Subscriber → Prop
  | messageExistsThrew (x : Exception) (phase : h.phase = .messageExists) :
      HandleOutcome s h (.messageExists (.error x)) (s.rollback h)
  | found (phase : h.phase = .messageExists) (mem : h.copy.command.id ∈ s.store) :
      HandleOutcome s h (.messageExists (.ok ())) (s.goto h .acknowledgeExisting)
  | missed (phase : h.phase = .messageExists) (notMem : h.copy.command.id ∉ s.store) :
      HandleOutcome s h (.messageExists (.ok ())) (s.goto h .addMessageId)
  | addMessageIdThrew (x : Exception) (phase : h.phase = .addMessageId) :
      HandleOutcome s h (.addMessageId false (.error x)) (s.rollback h)
  | addMessageIdCut (x : Exception) (phase : h.phase = .addMessageId) :
      HandleOutcome s h (.addMessageId true (.error x))
        ({ s with store := addMessageId s.store h.copy.command.id }.rollback h)
  | stored (committed : Bool) (phase : h.phase = .addMessageId) :
      HandleOutcome s h (.addMessageId committed (.ok ()))
        ({ s with store := addMessageId s.store h.copy.command.id }.goto h .insertDocument)
  | insertDocumentThrew (x : Exception) (phase : h.phase = .insertDocument) :
      HandleOutcome s h (.insertDocument (.error x))
        ({ s with calls := (h.copy, .error x) :: s.calls }.rollback h)
  | inserted (phase : h.phase = .insertDocument) :
      HandleOutcome s h (.insertDocument (.ok true))
        ({ s with calls := (h.copy, .ok true) :: s.calls }.goto h .acknowledgeInserted)
  | refused (phase : h.phase = .insertDocument) :
      HandleOutcome s h (.insertDocument (.ok false))
        ({ s with calls := (h.copy, .ok false) :: s.calls }.goto { h with aborted := true }
          .acknowledgeFailed)
  | sendThrew (x : Exception) (phase : h.phase ≠ .insertDocument) :
      HandleOutcome s h (.send (.error x)) (s.rollback h)
  | sent (ack : SendAcknowledgementCommand)
      (phase : h.phase ∈ [.acknowledgeExisting, .acknowledgeInserted, .acknowledgeFailed])
      (success : h.phase ≠ .acknowledgeFailed → ack = successAcknowledgement h.copy.command) :
      HandleOutcome s h (.send (.ok ()))
        { s with handling := some { h with phase := .returned, sends := h.sends ++ [ack] } }
  | abortedAtEnd (phase : h.phase = .returned) (aborted : h.aborted = true) :
      HandleOutcome s h .ended (s.rollback h)
  | committed (phase : h.phase = .returned) (aborted : h.aborted = false) :
      HandleOutcome s h .ended (s.commit h)
  | crashed : HandleOutcome s h .crashed (s.rollback h)

/-- A step changes the queue, takes a message into hand, or is one of the run in hand. -/
inductive StepEffect (s : Subscriber) (e : SubscriberEvent) (t : Subscriber) : Prop
  | queue (queue : ∀ c ∈ t.queue, c ∈ s.queue ∨ e = .queued c)
      (handling : t.handling = s.handling) (store : t.store = s.store)
      (calls : t.calls = s.calls) (handled : t.handled = s.handled) (sent : t.sent = s.sent)
  | taken (copy : Copy) (mem : copy ∈ s.queue) (queue : ∀ c ∈ t.queue, c ∈ s.queue)
      (handling : t.handling = some ⟨copy, .messageExists, [], false⟩)
      (store : t.store = s.store) (calls : t.calls = s.calls) (handled : t.handled = s.handled)
      (sent : t.sent = s.sent)
  | handle (h : Handling) (handling : s.handling = some h) (outcome : HandleOutcome s h e t)

section Steps
variable {s t : Subscriber} {h : Handling} {e : SubscriberEvent}

theorem sendAndReturn_outcome {ack : SendAcknowledgementCommand}
    (hphase : h.phase ∈ [.acknowledgeExisting, .acknowledgeInserted, .acknowledgeFailed])
    (hsuccess : h.phase ≠ .acknowledgeFailed → ack = successAcknowledgement h.copy.command)
    (outcome : Except Exception Unit) :
    HandleOutcome s h (.send outcome) (s.sendAndReturn h ack outcome) := by
  cases outcome with
  | error x =>
      apply HandleOutcome.sendThrew x
      intro hinsert
      rw [hinsert] at hphase
      simp at hphase
  | ok _ => exact .sent ack hphase hsuccess

theorem handleStep_outcome (hstep : handleStep s h e = some t) : HandleOutcome s h e t := by
  cases e with
  | queued copy => cases hstep
  | taken position => cases hstep
  | discarded position => cases hstep
  | crashed =>
      obtain rfl := Option.some.inj hstep
      exact .crashed
  | messageExists outcome =>
      obtain ⟨hphase, hstep⟩ := Option.ite_none_right_eq_some.mp hstep
      cases outcome with
      | error x =>
          obtain rfl := Option.some.inj hstep
          exact .messageExistsThrew x hphase
      | ok _ =>
          simp only at hstep
          split at hstep
          · next hexists =>
            obtain rfl := Option.some.inj hstep
            exact .found hphase (messageExists_iff.mp hexists)
          · next habsent =>
            obtain rfl := Option.some.inj hstep
            exact .missed hphase fun hmem => habsent (messageExists_iff.mpr hmem)
  | addMessageId committed outcome =>
      obtain ⟨hphase, hstep⟩ := Option.ite_none_right_eq_some.mp hstep
      cases outcome with
      | error x =>
          cases committed with
          | false =>
              obtain rfl := Option.some.inj hstep
              exact .addMessageIdThrew x hphase
          | true =>
              obtain rfl := Option.some.inj hstep
              exact .addMessageIdCut x hphase
      | ok _ =>
          obtain rfl := Option.some.inj hstep
          exact .stored committed hphase
  | insertDocument outcome =>
      obtain ⟨hphase, hstep⟩ := Option.ite_none_right_eq_some.mp hstep
      cases outcome with
      | error x =>
          obtain rfl := Option.some.inj hstep
          exact .insertDocumentThrew x hphase
      | ok result =>
          cases result with
          | true =>
              obtain rfl := Option.some.inj hstep
              exact .inserted hphase
          | false =>
              obtain rfl := Option.some.inj hstep
              exact .refused hphase
  | send outcome =>
      simp only [handleStep] at hstep
      split at hstep
      · next hphase =>
        obtain rfl := Option.some.inj hstep
        exact sendAndReturn_outcome (by simp [hphase]) (fun _ => rfl) outcome
      · next hphase =>
        obtain rfl := Option.some.inj hstep
        exact sendAndReturn_outcome (by simp [hphase]) (fun _ => rfl) outcome
      · next hphase =>
        obtain rfl := Option.some.inj hstep
        exact sendAndReturn_outcome (by simp [hphase]) (fun hne => absurd hphase hne) outcome
      · cases hstep
  | ended =>
      obtain ⟨hphase, hstep⟩ := Option.ite_none_right_eq_some.mp hstep
      cases haborted : h.aborted with
      | true =>
          rw [haborted] at hstep
          obtain rfl := Option.some.inj hstep
          exact .abortedAtEnd hphase haborted
      | false =>
          rw [haborted] at hstep
          obtain rfl := Option.some.inj hstep
          exact .committed hphase haborted

theorem step_effect (hstep : step s e = some t) : StepEffect s e t := by
  unfold step at hstep
  split at hstep
  · next copy =>
    obtain rfl := Option.some.inj hstep
    refine .queue (fun c hc => ?_) rfl rfl rfl rfl rfl
    rcases List.mem_append.mp hc with hold | hnew
    · exact Or.inl hold
    · exact Or.inr (by rw [List.mem_singleton.mp hnew])
  · split at hstep
    · next copy _ hcopy =>
      obtain rfl := Option.some.inj hstep
      exact .taken copy (List.mem_of_getElem? hcopy) (fun c => List.mem_of_mem_eraseIdx)
        rfl rfl rfl rfl rfl
    · cases hstep
  · obtain rfl := Option.some.inj hstep
    exact .queue (fun c hc => Or.inl (List.mem_of_mem_eraseIdx hc)) rfl rfl rfl rfl rfl
  · split at hstep
    · cases hstep
    · next h hh => exact .handle h hh (handleStep_outcome hstep)

end Steps

/-- What a run of the body knows at the call at which it stands. -/
structure AtCall (s : Subscriber) (h : Handling) : Prop where
  unseen : h.phase = .addMessageId → h.copy.command.id ∉ s.store
  seen : h.phase ≠ .messageExists → h.phase ≠ .addMessageId → h.copy.command.id ∈ s.store
  failed : h.phase = .acknowledgeFailed → h.aborted = true
  unsent : h.phase ≠ .returned → h.sends = []
  acknowledged : h.phase = .returned → h.aborted = false →
    h.sends = [successAcknowledgement h.copy.command]

/-- The run in hand is at a call, and every call to the back office came after
the identifier was stored. -/
structure Consistent (s : Subscriber) : Prop where
  handling : ∀ h, s.handling = some h → AtCall s h
  stored : ∀ call ∈ s.calls, call.1.command.id ∈ s.store

section Consistent
variable {s t : Subscriber} {h : Handling}

theorem addMessageId_of_unseen {store : MessageStore} {messageId : Guid}
    (hunseen : messageId ∉ store) : addMessageId store messageId = messageId :: store := by
  unfold addMessageId
  rw [if_neg (fun hexists => hunseen (messageExists_iff.mp hexists))]

theorem mem_addMessageId {store : MessageStore} {messageId i : Guid} :
    i ∈ addMessageId store messageId ↔ i = messageId ∨ i ∈ store := by
  unfold addMessageId
  split
  · next hexists =>
    constructor
    · exact Or.inr
    · rintro (rfl | hi)
      · exact messageExists_iff.mp hexists
      · exact hi
  · exact List.mem_cons

/-- No run is in hand after a rollback or a commit. -/
theorem Consistent.idle (hstored : ∀ call ∈ t.calls, call.1.command.id ∈ t.store)
    (hidle : t.handling = none) : Consistent t := by
  refine ⟨fun h hh => ?_, hstored⟩
  rw [hidle] at hh
  cases hh

theorem Consistent.at (hstored : ∀ call ∈ t.calls, call.1.command.id ∈ t.store)
    (hhandling : t.handling = some h) (hat : AtCall t h) : Consistent t := by
  refine ⟨fun h' hh => ?_, hstored⟩
  obtain rfl : h = h' := Option.some.inj (hhandling.symm.trans hh)
  exact hat

/-- A run that goes on without having sent anything. -/
theorem Consistent.goto (hstored : ∀ call ∈ t.calls, call.1.command.id ∈ t.store)
    (hhandling : t.handling = some h) (hsends : h.sends = []) (hreturned : h.phase ≠ .returned)
    (hunseen : h.phase = .addMessageId → h.copy.command.id ∉ t.store)
    (hseen : h.phase ≠ .messageExists → h.phase ≠ .addMessageId → h.copy.command.id ∈ t.store)
    (hfailed : h.phase = .acknowledgeFailed → h.aborted = true) : Consistent t :=
  Consistent.at hstored hhandling
    ⟨hunseen, hseen, hfailed, fun _ => hsends, fun hphase => absurd hphase hreturned⟩

theorem AtCall.step (hat : AtCall s h) (hcons : Consistent s) {e : SubscriberEvent}
    (houtcome : HandleOutcome s h e t) : Consistent t := by
  have hunsent : ∀ phase, h.phase = phase → phase ≠ .returned → h.sends = [] :=
    fun phase hphase hne => hat.unsent (hphase ▸ hne)
  have hstored : ∀ call ∈ s.calls,
      call.1.command.id ∈ addMessageId s.store h.copy.command.id :=
    fun call hcall => mem_addMessageId.mpr (Or.inr (hcons.stored call hcall))
  have hcalled : h.phase = .insertDocument → ∀ outcome,
      ∀ call ∈ (h.copy, outcome) :: s.calls, call.1.command.id ∈ s.store := by
    intro hphase outcome call hcall
    rcases List.mem_cons.mp hcall with rfl | hold
    · exact hat.seen (by simp [hphase]) (by simp [hphase])
    · exact hcons.stored call hold
  cases houtcome with
  | messageExistsThrew x hphase => exact Consistent.idle hcons.stored rfl
  | found hphase hmem =>
      have hsends := hunsent _ hphase (by decide)
      exact Consistent.goto hcons.stored rfl hsends nofun nofun (fun _ _ => hmem) nofun
  | missed hphase hnotMem =>
      have hsends := hunsent _ hphase (by decide)
      exact Consistent.goto hcons.stored rfl hsends nofun (fun _ => hnotMem)
        (fun _ hne => absurd rfl hne) nofun
  | addMessageIdThrew x hphase => exact Consistent.idle hcons.stored rfl
  | addMessageIdCut x hphase => exact Consistent.idle hstored rfl
  | stored committed hphase =>
      have hsends := hunsent _ hphase (by decide)
      exact Consistent.goto hstored rfl hsends nofun nofun
        (fun _ _ => mem_addMessageId.mpr (Or.inl rfl)) nofun
  | insertDocumentThrew x hphase => exact Consistent.idle (hcalled hphase _) rfl
  | inserted hphase =>
      have hsends := hunsent _ hphase (by decide)
      have hseen := hat.seen (by simp [hphase]) (by simp [hphase])
      exact Consistent.goto (hcalled hphase _) rfl hsends nofun nofun (fun _ _ => hseen) nofun
  | refused hphase =>
      have hsends := hunsent _ hphase (by decide)
      have hseen := hat.seen (by simp [hphase]) (by simp [hphase])
      exact Consistent.goto (hcalled hphase _) rfl hsends nofun nofun (fun _ _ => hseen)
        fun _ => rfl
  | sendThrew x hphase => exact Consistent.idle hcons.stored rfl
  | sent ack hphase hsuccess =>
      have hstands : h.phase ≠ .messageExists ∧ h.phase ≠ .addMessageId ∧
          h.phase ≠ .returned := by
        refine ⟨?_, ?_, ?_⟩ <;> intro heq <;> simp [heq] at hphase
      have hseen := hat.seen hstands.1 hstands.2.1
      have hsends := hat.unsent hstands.2.2
      refine Consistent.at hcons.stored rfl
        ⟨nofun, fun _ _ => hseen, nofun, fun hne => absurd rfl hne, fun _ haborted => ?_⟩
      have hack := hsuccess fun hfailed => by
        have htrue := hat.failed hfailed
        rw [haborted] at htrue
        cases htrue
      rw [hsends, hack]
      rfl
  | abortedAtEnd hphase haborted => exact Consistent.idle hcons.stored rfl
  | committed hphase haborted => exact Consistent.idle hcons.stored rfl
  | crashed => exact Consistent.idle hcons.stored rfl

theorem Consistent.step (hcons : Consistent s) {e : SubscriberEvent}
    (hstep : step s e = some t) : Consistent t := by
  cases step_effect hstep with
  | queue _ hhandling hstore hcalls _ _ =>
      constructor
      · intro h hh
        rw [hhandling] at hh
        have hat := hcons.handling h hh
        exact ⟨by rw [hstore]; exact hat.unseen, by rw [hstore]; exact hat.seen, hat.failed,
          hat.unsent, hat.acknowledged⟩
      · rw [hstore, hcalls]
        exact hcons.stored
  | taken copy _ _ hhandling hstore hcalls _ _ =>
      have hstored : ∀ call ∈ t.calls, call.1.command.id ∈ t.store := by
        rw [hstore, hcalls]
        exact hcons.stored
      exact Consistent.goto hstored hhandling rfl nofun nofun (fun hne => absurd rfl hne) nofun
  | handle h hh houtcome => exact (hcons.handling h hh).step hcons houtcome

theorem Consistent.initial : Consistent Subscriber.initial :=
  Consistent.idle (fun call hcall => by cases hcall) rfl

end Consistent

/-- The copies that wait, those that a call was made for and the one in hand. -/
def Subscriber.copies (s : Subscriber) : List Copy :=
  s.queue ++ s.calls.map Prod.fst ++ (s.handling.map Handling.copy).toList

section Copies
variable {s t : Subscriber} {h : Handling}

theorem mem_copies {c : Copy} :
    c ∈ s.copies ↔ c ∈ s.queue ∨ (∃ call ∈ s.calls, call.1 = c) ∨
      ∃ h, s.handling = some h ∧ h.copy = c := by
  simp only [Subscriber.copies, List.mem_append, List.mem_map, Option.mem_toList,
    Option.map_eq_some_iff, or_assoc]

/-- The run in hand makes at most one call, of its own copy, and it is put back,
committed or continued. -/
structure Called (s : Subscriber) (h : Handling) (t : Subscriber) : Prop where
  old : ∀ call ∈ s.calls, call ∈ t.calls
  new : ∀ call ∈ t.calls, call ∈ s.calls ∨ call.1 = h.copy

inductive HandleEffect (s : Subscriber) (h : Handling) (e : SubscriberEvent)
    (t : Subscriber) : Prop
  | rolledBack (handling : t.handling = none) (queue : t.queue = s.queue ++ [h.copy])
      (handled : t.handled = s.handled) (sent : t.sent = s.sent) (called : Called s h t)
  | committed (event : e = .ended) (phase : h.phase = .returned) (aborted : h.aborted = false)
      (handling : t.handling = none) (queue : t.queue = s.queue)
      (handled : t.handled = s.handled ++ [h.copy]) (sent : t.sent = s.sent ++ h.sends)
      (called : Called s h t)
  | continued (next : Handling) (handling : t.handling = some next)
      (copy : next.copy = h.copy) (queue : t.queue = s.queue)
      (handled : t.handled = s.handled) (sent : t.sent = s.sent) (called : Called s h t)

theorem Called.same (hcalls : t.calls = s.calls) : Called s h t := by
  constructor
  · rw [hcalls]
    exact fun call hcall => hcall
  · rw [hcalls]
    exact fun call hcall => Or.inl hcall

theorem Called.cons {outcome : Except Exception Bool}
    (hcalls : t.calls = (h.copy, outcome) :: s.calls) : Called s h t := by
  constructor
  · rw [hcalls]
    exact fun call hcall => List.mem_cons_of_mem _ hcall
  · rw [hcalls]
    intro call hcall
    rcases List.mem_cons.mp hcall with rfl | hold
    · exact Or.inr rfl
    · exact Or.inl hold

theorem HandleOutcome.effect {e : SubscriberEvent} (houtcome : HandleOutcome s h e t) :
    HandleEffect s h e t := by
  cases houtcome with
  | messageExistsThrew x hphase => exact .rolledBack rfl rfl rfl rfl (Called.same rfl)
  | found hphase hmem => exact .continued _ rfl rfl rfl rfl rfl (Called.same rfl)
  | missed hphase hnotMem => exact .continued _ rfl rfl rfl rfl rfl (Called.same rfl)
  | addMessageIdThrew x hphase => exact .rolledBack rfl rfl rfl rfl (Called.same rfl)
  | addMessageIdCut x hphase => exact .rolledBack rfl rfl rfl rfl (Called.same rfl)
  | stored committed hphase => exact .continued _ rfl rfl rfl rfl rfl (Called.same rfl)
  | insertDocumentThrew x hphase => exact .rolledBack rfl rfl rfl rfl (Called.cons rfl)
  | inserted hphase => exact .continued _ rfl rfl rfl rfl rfl (Called.cons rfl)
  | refused hphase => exact .continued _ rfl rfl rfl rfl rfl (Called.cons rfl)
  | sendThrew x hphase => exact .rolledBack rfl rfl rfl rfl (Called.same rfl)
  | sent ack hphase hsuccess => exact .continued _ rfl rfl rfl rfl rfl (Called.same rfl)
  | abortedAtEnd hphase haborted => exact .rolledBack rfl rfl rfl rfl (Called.same rfl)
  | committed hphase haborted =>
      exact .committed rfl hphase haborted rfl rfl rfl rfl (Called.same rfl)
  | crashed => exact .rolledBack rfl rfl rfl rfl (Called.same rfl)

/-- The copies after a step of the run in hand were there before. -/
theorem HandleEffect.copies (hh : s.handling = some h) {e : SubscriberEvent}
    (heffect : HandleEffect s h e t) : ∀ c ∈ t.copies, c ∈ s.copies := by
  have hin : h.copy ∈ s.copies := mem_copies.mpr (Or.inr (Or.inr ⟨h, hh, rfl⟩))
  have hqueued : ∀ c ∈ s.queue, c ∈ s.copies := fun c hc => mem_copies.mpr (Or.inl hc)
  have hcalled : Called s h t → ∀ call ∈ t.calls, call.1 ∈ s.copies := by
    intro hcalled call hcall
    rcases hcalled.new call hcall with hold | hnew
    · exact mem_copies.mpr (Or.inr (Or.inl ⟨call, hold, rfl⟩))
    · rw [hnew]
      exact hin
  intro c hc
  cases heffect with
  | rolledBack hhandling hqueue _ _ hcalls =>
      rcases mem_copies.mp hc with hc | ⟨call, hcall, rfl⟩ | ⟨h', hh', -⟩
      · rw [hqueue] at hc
        rcases List.mem_append.mp hc with hold | hback
        · exact hqueued c hold
        · rw [List.mem_singleton.mp hback]
          exact hin
      · exact hcalled hcalls call hcall
      · rw [hhandling] at hh'
        cases hh'
  | committed _ _ _ hhandling hqueue _ _ hcalls =>
      rcases mem_copies.mp hc with hc | ⟨call, hcall, rfl⟩ | ⟨h', hh', -⟩
      · rw [hqueue] at hc
        exact hqueued c hc
      · exact hcalled hcalls call hcall
      · rw [hhandling] at hh'
        cases hh'
  | continued next hhandling hcopy hqueue _ _ hcalls =>
      rcases mem_copies.mp hc with hc | ⟨call, hcall, rfl⟩ | ⟨h', hh', rfl⟩
      · rw [hqueue] at hc
        exact hqueued c hc
      · exact hcalled hcalls call hcall
      · have heq : next = h' := Option.some.inj (hhandling.symm.trans hh')
        rw [← heq, hcopy]
        exact hin

/-- A step brings no new copy but one that is queued. -/
theorem step_copies {e : SubscriberEvent} (hstep : step s e = some t) :
    ∀ c ∈ t.copies, c ∈ s.copies ∨ e = .queued c := by
  cases step_effect hstep with
  | queue hqueue hhandling _ hcalls _ _ =>
      intro c hc
      rw [mem_copies, hhandling, hcalls] at hc
      rcases hc with hc | hrest
      · exact (hqueue c hc).imp (fun hold => mem_copies.mpr (Or.inl hold)) id
      · exact Or.inl (mem_copies.mpr (Or.inr hrest))
  | taken copy hmem hqueue hhandling _ hcalls _ _ =>
      intro c hc
      left
      rw [mem_copies, hcalls] at hc
      rcases hc with hc | hc | ⟨h, hh, rfl⟩
      · exact mem_copies.mpr (Or.inl (hqueue c hc))
      · exact mem_copies.mpr (Or.inr (Or.inl hc))
      · have heq := Option.some.inj (hhandling.symm.trans hh)
        rw [← heq]
        exact mem_copies.mpr (Or.inl hmem)
  | handle h hh houtcome => exact fun c hc => Or.inl (houtcome.effect.copies hh c hc)

/-- Calls are never forgotten. -/
theorem step_calls {e : SubscriberEvent} (hstep : step s e = some t) :
    ∀ call ∈ s.calls, call ∈ t.calls := by
  cases step_effect hstep with
  | queue _ _ _ hcalls _ _ =>
      rw [hcalls]
      exact fun call hcall => hcall
  | taken _ _ _ _ _ hcalls _ _ =>
      rw [hcalls]
      exact fun call hcall => hcall
  | handle h _ houtcome =>
      cases houtcome.effect with
      | rolledBack _ _ _ _ hcalled => exact hcalled.old
      | committed _ _ _ _ _ _ _ hcalled => exact hcalled.old
      | continued _ _ _ _ _ _ hcalled => exact hcalled.old

/-- Acknowledgements leave when a run commits. -/
theorem step_sent {e : SubscriberEvent} (hstep : step s e = some t) :
    t.sent = s.sent ∨ ∃ h, e = .ended ∧ s.handling = some h ∧ h.phase = .returned ∧
      h.aborted = false ∧ t.sent = s.sent ++ h.sends := by
  cases step_effect hstep with
  | queue _ _ _ _ _ hsent => exact Or.inl hsent
  | taken _ _ _ _ _ _ _ hsent => exact Or.inl hsent
  | handle h hh houtcome =>
      cases houtcome.effect with
      | rolledBack _ _ _ hsent _ => exact Or.inl hsent
      | committed hevent hphase haborted _ _ _ hsent _ =>
          exact Or.inr ⟨h, hevent, hh, hphase, haborted, hsent⟩
      | continued _ _ _ _ _ hsent _ => exact Or.inl hsent

end Copies

/-- The call returned true. -/
def inserted (call : Copy × Except Exception Bool) : Bool :=
  match call.2 with
  | .ok result => result
  | .error _ => false

/-- The identifiers of the successful calls. -/
def insertedIds (s : Subscriber) : List Guid :=
  (s.calls.filter inserted).map fun call => call.1.command.id

/-- The identifier between its record and its call to the back office. -/
def claimedId (s : Subscriber) : Option Guid :=
  match s.handling with
  | some h => if h.phase = .insertDocument then some h.copy.command.id else none
  | none => none

theorem mem_insertedIds {s : Subscriber} {i : Guid} :
    i ∈ insertedIds s ↔ ∃ call ∈ s.calls, inserted call = true ∧ call.1.command.id = i := by
  simp only [insertedIds, List.mem_map, List.mem_filter, and_assoc]

def asReceiver (s : Subscriber) : Receiver Guid := ⟨s.store, insertedIds s, claimedId s⟩

def claims (s : Subscriber) : List (ReceiverEvent Guid) :=
  match s.handling with
  | some h => [.claim h.copy.command.id]
  | none => []

def receiverEvents (s : Subscriber) : SubscriberEvent → List (ReceiverEvent Guid)
  | .addMessageId _ (.ok _) => claims s
  | .addMessageId true (.error _) => claims s ++ [.release]
  | .insertDocument (.ok true) => [.perform]
  | .insertDocument _ | .crashed => [.release]
  | _ => []

section Refinement
variable {s t : Subscriber} {h : Handling}

theorem claimedId_of_phase (hh : s.handling = some h) (hphase : h.phase ≠ .insertDocument) :
    claimedId s = none := by
  simp only [claimedId, hh, if_neg hphase]

theorem claimedId_of_idle (hh : s.handling = none) : claimedId s = none := by
  simp only [claimedId, hh]

/-- A step that neither stores nor calls nor begins or ends a claim is invisible. -/
theorem asReceiver_eq (hstore : t.store = s.store) (hcalls : t.calls = s.calls)
    (hs : claimedId s = none) (ht : claimedId t = none) : asReceiver t = asReceiver s := by
  simp only [asReceiver, insertedIds, hstore, hcalls, hs, ht]

theorem claim_of_unseen (hclaimed : claimedId s = none) {i : Guid} (hunseen : i ∉ s.store) :
    (receiver Guid).step (asReceiver s) (.claim i) =
      some ⟨i :: s.store, insertedIds s, some i⟩ := by
  change (if claimedId s = none ∧ i ∉ s.store then _ else none) = _
  rw [if_pos ⟨hclaimed, hunseen⟩]
  rfl

/-- A step without an event of the receiver leaves the receiver as it is. -/
theorem run_nil_of_eq (hsame : asReceiver t = asReceiver s) :
    (receiver Guid).run (asReceiver s) [] = some (asReceiver t) := by
  rw [hsame]
  rfl

theorem HandleOutcome.receiver (hat : AtCall s h) (hh : s.handling = some h)
    {e : SubscriberEvent} (houtcome : HandleOutcome s h e t) :
    (receiver Guid).run (asReceiver s) (receiverEvents s e) = some (asReceiver t) := by
  have hidle : h.phase ≠ .insertDocument → claimedId s = none := claimedId_of_phase hh
  have hclaims : claims s = [.claim h.copy.command.id] := by simp only [claims, hh]
  cases houtcome with
  | messageExistsThrew x hphase =>
      exact run_nil_of_eq (asReceiver_eq rfl rfl (hidle (by simp [hphase])) rfl)
  | found hphase hmem =>
      exact run_nil_of_eq (asReceiver_eq rfl rfl (hidle (by simp [hphase])) rfl)
  | missed hphase hnotMem =>
      exact run_nil_of_eq (asReceiver_eq rfl rfl (hidle (by simp [hphase])) rfl)
  | addMessageIdThrew x hphase =>
      exact run_nil_of_eq (asReceiver_eq rfl rfl (hidle (by simp [hphase])) rfl)
  | addMessageIdCut x hphase =>
      have hunseen := hat.unseen hphase
      have hclaim := claim_of_unseen (hidle (by simp [hphase])) hunseen
      simp only [receiverEvents, hclaims, List.singleton_append, Machine.run_cons, hclaim,
        Option.bind_some]
      rw [addMessageId_of_unseen hunseen]
      rfl
  | stored committed hphase =>
      have hunseen := hat.unseen hphase
      have hclaim := claim_of_unseen (hidle (by simp [hphase])) hunseen
      simp only [receiverEvents, hclaims, Machine.run_cons, hclaim, Option.bind_some]
      rw [addMessageId_of_unseen hunseen]
      rfl
  | insertDocumentThrew x hphase => rfl
  | inserted hphase =>
      have hclaimed : claimedId s = some h.copy.command.id := by
        simp only [claimedId, hh, if_pos hphase]
      change (Option.bind ((claimedId s).map _) _) = _
      rw [hclaimed]
      rfl
  | refused hphase => rfl
  | sendThrew x hphase => exact run_nil_of_eq (asReceiver_eq rfl rfl (hidle hphase) rfl)
  | sent ack hphase hsuccess =>
      have hne : h.phase ≠ .insertDocument := by
        intro heq
        simp [heq] at hphase
      exact run_nil_of_eq (asReceiver_eq rfl rfl (hidle hne) rfl)
  | abortedAtEnd hphase haborted =>
      exact run_nil_of_eq (asReceiver_eq rfl rfl (hidle (by simp [hphase])) rfl)
  | committed hphase haborted =>
      exact run_nil_of_eq (asReceiver_eq rfl rfl (hidle (by simp [hphase])) rfl)
  | crashed => rfl

theorem step_receiver (hcons : Consistent s) {e : SubscriberEvent}
    (hstep : step s e = some t) :
    (receiver Guid).run (asReceiver s) (receiverEvents s e) = some (asReceiver t) := by
  cases e with
  | queued copy =>
      obtain rfl := Option.some.inj hstep
      rfl
  | taken position =>
      simp only [step] at hstep
      split at hstep
      · next copy hnone hcopy =>
        obtain rfl := Option.some.inj hstep
        exact run_nil_of_eq (asReceiver_eq rfl rfl (claimedId_of_idle hnone) rfl)
      · cases hstep
  | discarded position =>
      obtain rfl := Option.some.inj hstep
      rfl
  | _ =>
      simp only [step] at hstep
      split at hstep
      · cases hstep
      · next h hh => exact (handleStep_outcome hstep).receiver (hcons.handling h hh) hh

end Refinement

/-- The condition on an event of the subscriber: from the commit of an identifier on
nothing fails until `InsertDocument` has returned true. `AddMessageId` does not throw
after its commit, the call returns true, and the process does not stop in between. -/
def InsertsWhatItStores (s : Subscriber) : SubscriberEvent → Prop
  | .addMessageId true (.error _) | .insertDocument (.error _) | .insertDocument (.ok false) =>
      False
  | .crashed => ∀ h ∈ s.handling, h.phase ≠ .insertDocument
  | _ => True

instance (s : Subscriber) : ∀ e, Decidable (InsertsWhatItStores s e)
  | .addMessageId true (.error _) | .insertDocument (.error _) | .insertDocument (.ok false) =>
      isFalse id
  | .crashed => inferInstanceAs (Decidable (∀ h ∈ s.handling, _))
  | .addMessageId true (.ok _) | .addMessageId false _ | .insertDocument (.ok true)
  | .queued _ | .taken _ | .messageExists _ | .send _ | .ended | .discarded _ => isTrue trivial

/-- Such an event lets no claim of the receiver go. -/
theorem InsertsWhatItStores.noRelease {s : Subscriber} {e : SubscriberEvent}
    (h : InsertsWhatItStores s e) :
    (receiver Guid).Meets (fun r e => e = .release → r.current = none) (asReceiver s)
      (receiverEvents s e) := by
  have hclaims : (receiver Guid).Meets (fun r e => e = .release → r.current = none)
      (asReceiver s) (claims s) := by
    unfold claims
    split
    · exact fun _ _ => ⟨nofun, trivial⟩
    · trivial
  cases e with
  | addMessageId committed outcome =>
      cases outcome with
      | ok _ => exact hclaims
      | error x =>
          cases committed with
          | true => exact h.elim
          | false => trivial
  | insertDocument outcome =>
      match outcome, h with
      | .ok true, _ => exact fun _ _ => ⟨nofun, trivial⟩
  | crashed =>
      refine fun _ _ => ⟨fun _ => ?_, trivial⟩
      cases hhandling : s.handling with
      | none => exact claimedId_of_idle hhandling
      | some hand => exact claimedId_of_phase hhandling (h hand (Option.mem_def.mpr hhandling))
  | _ => trivial

def receiverRefinement : Refinement subscriber (receiver Guid) where
  state := asReceiver
  events := receiverEvents
  I := Consistent
  init_inv := Consistent.initial
  step_inv _ _ _ hs hstep := hs.step hstep
  init_eq := rfl
  step_run _ _ _ hs hstep := step_receiver hs hstep

theorem Consistent.of_reachable {s : Subscriber} (h : subscriber.Reachable s) : Consistent s :=
  h.invariant (fun _ _ _ hs hstep => hs.step hstep) Consistent.initial

/-- No identifier is inserted twice, whatever is redelivered and wherever the
process stops. -/
theorem insertedIds_nodup {s : Subscriber} (h : subscriber.Reachable s) :
    (insertedIds s).Nodup :=
  performed_nodup (receiverRefinement.reachable h)

/-- A stored identifier that was not inserted and is not claimed any more is never
inserted, whatever comes afterwards. -/
theorem abandoned_always {s : Subscriber} (h : subscriber.Reachable s) {i : Guid}
    (habandoned : Abandoned (asReceiver s) i) (events : List SubscriberEvent) :
    subscriber.Always (fun t => i ∉ insertedIds t) s events := by
  have hinvariant : subscriber.Always
      (fun t => Consistent t ∧ Abandoned (asReceiver t) i) s events := by
    apply Machine.always_of_step
    · intro t e u ht hstep
      have hrun := step_receiver ht.1 hstep
      have hreceived : (receiver Guid).Always (fun r => Abandoned r i) (asReceiver t)
          (receiverEvents t e) :=
        Machine.always_of_step (fun _ _ _ ha hreceives => ha.step hreceives) _ ht.2
      exact ⟨ht.1.step hstep, hreceived.last hrun⟩
    · exact ⟨Consistent.of_reachable h, habandoned⟩
  exact hinvariant.mono fun t ht => ht.2.2.1

end ReliableSignalR.DocumentHandler
