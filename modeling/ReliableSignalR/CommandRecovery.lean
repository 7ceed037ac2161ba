import Mathlib.Data.Fintype.EquivFin
import ReliableSignalR.ReplayFidelity
import ReliableSignalR.RemoteSagas
import ReliableSignalR.HubAttempts

/-!
# What can still become of a remote command

A command on the remote path can still be completed as long as something of it is
left: a copy in one of the queues, in the channel or in the hand of the document
handler, a row that the replay query selects, an acknowledgement of success that is
to be posted, or a message for its saga. Each of these leads to the next one: a row is replayed, a
copy reaches the subscriber, is handled there and acknowledged, and what is
acknowledged completes the saga.

No step of the remote path brings back a command of which nothing is left.
-/
namespace ReliableSignalR.CommandRecovery
open DotNet EventRuns Messages KeyedTable RetainedEffects IdentityInfrastructure
open BrokerConnectionManager AuditEndpoint BackOfficeHub DocumentHandler
open RemotePath AgreementDelivery RemoteSagas UserKeys FailedConnects ReplayFidelity
open HubRuns (principal)

variable {Json : Type}

/-- The copy is queued or in the hand of the document handler. -/
def Held (s : Subscriber) (copy : Copy) : Prop :=
  copy ∈ s.queue ∨ ∃ h, s.handling = some h ∧ h.copy = copy

/-- The copy can still be handled by the subscriber. -/
inductive Carried (s : Path Json) (copy : Copy) : Prop
  | hubQueue (mem : copy ∈ s.hubQueue)
  | pushed (mem : copy ∈ s.pushed)
  | auditQueue (mem : copy ∈ s.auditQueue)
  | channel (mem : copy ∈ s.channel)
  | subscriber (held : Held s.subscriber copy)

/-- The replay query selects the row if its broker connects on a day that is not
before the creation of the row. -/
structure Replayable (m : MessageLog Json) : Prop where
  messageType : m.messageType = remoteCommandType
  completionDate : m.completionDate = none
  retries : m.retries < 10

/-- Something is left of the commands with this correlation. -/
inductive Alive (s : Path Json) (c : Guid) : Prop
  | carried (copy : Copy) (carried : Carried s copy)
      (correlationId : copy.command.correlationId = c)
  | row (m : MessageLog Json) (mem : m ∈ s.hub.messageLog.rows) (replayable : Replayable m)
      (correlationId : m.correlationId = c)
  | acknowledged (ack : SendAcknowledgementCommand) (mem : ack ∈ s.acknowledgements)
      (success : ack.success = true) (correlationId : ack.correlationId = c)
  | completing (mem : c ∈ s.completions)

/-- The remote path without the saga endpoint. -/
def pathOnly (json : JsonSerializer Json) : Machine (Path Json) PathEvent :=
  (remotePath json).under fun _ e => ofPathOnly e = true

/-- What the remote path knows of its commands: they are the remote broker's. -/
structure Grounded (json : JsonSerializer Json) (s : Path Json) : Prop where
  sagas : SagasOfEmissions json s
  stored : AllStored json s.hub.messageLog
  brokers : ∀ command ∈ s.emitted, command.brokerId = 123

section Grounded
variable {json : JsonSerializer Json} {s t : Path Json}

theorem allStored_acknowledge (h : AllStored json s.hub.messageLog) (position : ℕ)
    (ack : SendAcknowledgementCommand) (now : DateTime) (outcome : PostOutcome) :
    AllStored json (s.acknowledge position ack now outcome).hub.messageLog := by
  have hpost : AllStored json (post s.hub.messageLog ack now).1 :=
    post_log h fun _ => h.complete ack.correlationId now
  cases outcome <;> exact hpost

theorem allStored_step {e : PathEvent} (h : AllStored json s.hub.messageLog)
    (hstep : RemotePath.step json s e = some t) : AllStored json t.hub.messageLog := by
  cases e with
  | emitted command =>
      obtain rfl := Option.some.inj hstep
      exact h
  | pushed position outcome =>
      obtain ⟨copy, -, rfl⟩ := Option.map_eq_some_iff.mp hstep
      unfold Path.push
      split <;> exact h
  | throttled position now =>
      obtain ⟨copy, -, rfl⟩ := Option.map_eq_some_iff.mp hstep
      unfold Path.throttle
      split <;> exact h
  | discarded position | auditDiscarded position | duplicated position =>
      obtain ⟨copy, -, rfl⟩ := Option.map_eq_some_iff.mp hstep
      exact h
  | onConnected context env =>
      obtain rfl := Option.some.inj hstep
      exact (onConnected_replayed json context env s.hub).1.allStored h
  | onReconnected context env =>
      obtain rfl := Option.some.inj hstep
      change AllStored json (exec (onReconnected context env) s.hub).2.messageLog
      rw [(onReconnected_log context env s.hub).1]
      exact h
  | onDisconnected context env =>
      obtain rfl := Option.some.inj hstep
      change AllStored json (exec (onDisconnected context env) s.hub).2.messageLog
      rw [(onDisconnected_log context env s.hub).1]
      exact h
  | audited position headers =>
      obtain ⟨copy, -, rfl⟩ := Option.map_eq_some_iff.mp hstep
      exact h.insert _ headers
  | auditedElsewhere message headers =>
      obtain ⟨-, hstep⟩ := Option.ite_none_left_eq_some.mp hstep
      obtain rfl := Option.some.inj hstep
      exact h.insert message headers
  | lost position | acknowledgementDiscarded position | completionDiscarded position =>
      obtain rfl := Option.some.inj hstep
      exact h
  | subscriber event =>
      obtain ⟨-, hstep⟩ := Option.ite_none_right_eq_some.mp hstep
      obtain ⟨subscriber, -, rfl⟩ := Option.map_eq_some_iff.mp hstep
      exact h
  | posted position now outcome =>
      obtain ⟨ack, -, rfl⟩ := Option.map_eq_some_iff.mp hstep
      exact allStored_acknowledge h position ack now outcome
  | sagaCompleted position consumed =>
      obtain ⟨c, -, rfl⟩ := Option.map_eq_some_iff.mp hstep
      exact h
  | completionAudited position now consumed =>
      obtain ⟨c, -, rfl⟩ := Option.map_eq_some_iff.mp hstep
      exact h.complete c now

theorem step_pathOnly {e : PathEvent} (he : ofPathOnly e = true)
    (hstep : RemotePath.step json s e = some t) : (pathOnly json).step s e = some t :=
  Machine.under_step.mpr ⟨he, hstep⟩

theorem Grounded.step (hs : Grounded json s) {e : PathEvent}
    (hstep : (pathOnly json).step s e = some t) : Grounded json t := by
  obtain ⟨he, hstep⟩ := Machine.under_step.mp hstep
  refine ⟨hs.sagas.step hstep, allStored_step hs.stored hstep, ?_⟩
  rw [(step_ofPathOnly he hstep).1]
  exact hs.brokers

/-- A replayable row is of the remote broker, and its text is a command that was
emitted. -/
theorem Grounded.replayable (hs : Grounded json s) {m : MessageLog Json}
    (hm : m ∈ s.hub.messageLog.rows) (hreplayable : Replayable m) :
    m ∈ unacknowledged s.hub.messageLog 123 m.createDate ∧
      ∀ command, json.deserialize m.body = .ok command →
        command.correlationId = m.correlationId := by
  obtain ⟨command, hcommand, hstores⟩ :=
    hs.sagas.provenance.rows m hm hreplayable.messageType
  have hbroker : m.brokerId = 123 :=
    hstores.brokerId.trans (hs.brokers command (List.mem_of_getElem? hcommand))
  constructor
  · exact mem_unacknowledged.mpr ⟨hm, hbroker, hreplayable.completionDate, hreplayable.retries,
      hreplayable.messageType, HubEndpoint.created_in_time (Nat.le_refl _)⟩
  · intro read hread
    have hrestored : json.deserialize m.body = .ok command := by
      rw [hstores.body]
      exact json.restores command
    obtain rfl : command = read := Except.ok.inj (hrestored.symm.trans hread)
    exact hstores.correlationId.symm

end Grounded

section Forward
variable {json : JsonSerializer Json} {s : Path Json} {copy : Copy}

theorem exists_fresh (ids : List String) : ∃ i : String, i ∉ ids := by
  obtain ⟨i, hi⟩ := Infinite.exists_notMem_finset ids.toFinset
  exact ⟨i, fun hmem => hi (List.mem_toFinset.mpr hmem)⟩

/-- The remote broker connects and nothing throws. -/
theorem Grounded.connect (hs : Grounded json s) (now : DateTime) :
    ∃ t, (∃ e, (pathOnly json).step s e = some t) ∧
      t.hubQueue = s.hubQueue ∧ t.pushed = s.pushed ∧
      (∃ b ∈ t.hub.brokerConnections.entries, b.brokerId = 123 ∧ b.expired = false) ∧
      ∀ m ∈ unacknowledged s.hub.messageLog 123 now, ∃ command,
        json.deserialize m.body = .ok command ∧ ⟨s.rowOrigin m.id, command⟩ ∈ t.channel := by
  obtain ⟨connectionId, hfresh⟩ := exists_fresh s.hub.brokerConnections.connectionIds
  let context : HubCallerContext := ⟨connectionId, principal "123" "0"⟩
  let env := Environment.calm now
  have hregisters : registers context env = true := rfl
  have hbroker : context.user.brokerId = .ok 123 := rfl
  obtain ⟨_, hub, hexec⟩ : Returns (onConnected json context env) s.hub :=
    onConnected_returns.mpr ⟨hregisters, fun _ _ =>
      replayCalm_of_stored hs.stored rfl (fun _ => rfl) fun _ => rfl⟩
  have hregistration := onConnected_registration json context env s.hub
  rw [hexec] at hregistration
  refine ⟨s.replay hub, ⟨.onConnected context env, step_pathOnly rfl ?_⟩, rfl, rfl, ?_, ?_⟩
  · simp only [RemotePath.step, hexec]
  · cases hregistration with
    | unreached hnot _ _ =>
        rw [hregisters] at hnot
        cases hnot
    | reached _ brokerId tokenExpiresOn hb hregistry =>
        obtain rfl : 123 = brokerId := Except.ok.inj (hbroker.symm.trans hb)
        refine ⟨⟨connectionId, 123, tokenExpiresOn, false⟩, ?_, rfl, rfl⟩
        change _ ∈ hub.brokerConnections.entries
        rw [hregistry]
        exact (BrokerConnections.mem_entries_addConnection hfresh).mpr (Or.inl rfl)
  · intro m hm
    obtain ⟨b, read, hb, hread, hreplayed, -⟩ := onConnected_ok hs.stored hexec
    obtain rfl : 123 = b := Except.ok.inj (hbroker.symm.trans hb)
    obtain ⟨hrows, htexts⟩ := deserializeAll_ok hread
    change m ∈ unacknowledged s.hub.messageLog 123 env.now at hm
    rw [← hrows] at hm
    obtain ⟨r, hr, rfl⟩ := List.mem_map.mp hm
    refine ⟨r.2, htexts r hr, ?_⟩
    have hchannel : (s.replay hub).channel =
        s.channel ++ read.map fun r => ⟨s.rowOrigin r.1.id, r.2⟩ := by
      rw [Path.replay, hreplayed, List.drop_left, List.map_map]
      rfl
    rw [hchannel]
    exact List.mem_append_right _ (List.mem_map.mpr ⟨r, hr, rfl⟩)

/-- The acknowledgement is posted and the request answered. -/
theorem reach_of_acknowledged {ack : SendAcknowledgementCommand} (hack : ack ∈ s.acknowledgements)
    (hsuccess : ack.success = true) :
    (pathOnly json).CanReach (fun t => ack.correlationId ∈ t.completions) s := by
  obtain ⟨position, hposition⟩ := List.mem_iff_getElem?.mp hack
  have hstep : RemotePath.step json s (.posted position 0 .answered) =
      some (s.acknowledge position ack 0 .answered) := by
    simp only [RemotePath.step, hposition, Option.map_some]
  refine .step (step_pathOnly rfl hstep) (.here ?_)
  exact List.mem_append_right s.completions (mem_post_sent.mpr ⟨hsuccess, rfl⟩)

/-- The subscriber handles what it has queued while nothing arrives, and what it
sends is to be posted. -/
theorem run_subscriber {events : List SubscriberEvent} {u : Subscriber}
    (hevents : ∀ e ∈ events, ∀ copy, e ≠ .queued copy)
    (hrun : DocumentHandler.subscriber.run s.subscriber events = some u) :
    ∃ t new, (pathOnly json).run s (events.map .subscriber) = some t ∧
      u.sent = s.subscriber.sent ++ new ∧ t.acknowledgements = s.acknowledgements ++ new := by
  induction events generalizing s with
  | nil =>
      obtain rfl := Option.some.inj hrun
      exact ⟨s, [], rfl, (List.append_nil _).symm, (List.append_nil _).symm⟩
  | cons e events ih =>
      obtain ⟨v, hv, hrest⟩ := (Machine.run_cons_eq_some _).mp hrun
      change DocumentHandler.step s.subscriber e = some v at hv
      have harrives : s.arrives e = true := by
        cases e with
        | queued copy => exact absurd rfl (hevents _ List.mem_cons_self copy)
        | _ => rfl
      have hstep : RemotePath.step json s (.subscriber e) = some (s.advance e v) := by
        simp only [RemotePath.step, harrives, if_true, hv, Option.map_some]
      obtain ⟨sent, hsent⟩ : ∃ sent, v.sent = s.subscriber.sent ++ sent := by
        rcases step_sent hv with hsame | ⟨h, -, -, -, -, hnew⟩
        · exact ⟨[], hsame.trans (List.append_nil _).symm⟩
        · exact ⟨_, hnew⟩
      have hqueued : (s.advance e v).acknowledgements = s.acknowledgements ++ sent := by
        change s.acknowledgements ++ v.sent.drop s.subscriber.sent.length = _
        rw [hsent, List.drop_left]
      obtain ⟨t, new, hlater, hnew, hacknowledgements⟩ :=
        ih (s := s.advance e v) (fun e' he' => hevents e' (List.mem_cons_of_mem e he')) hrest
      refine ⟨t, sent ++ new, ?_, ?_, ?_⟩
      · exact (Machine.run_cons_eq_some _).mpr ⟨_, step_pathOnly rfl hstep, hlater⟩
      · rw [← List.append_assoc, ← hsent]
        exact hnew
      · rw [hacknowledgements, hqueued, List.append_assoc]

/-- An idle subscriber can take a queued message and handle it to its end. -/
theorem handled_to_end {u : Subscriber} {position : ℕ} (hidle : u.handling = none)
    (hposition : u.queue[position]? = some copy) :
    ∃ events v, DocumentHandler.subscriber.run u events = some v ∧
      (∀ e ∈ events, ∀ c, e ≠ .queued c) ∧
      v.sent = u.sent ++ [successAcknowledgement copy.command] := by
  let taken : Subscriber := { u with
    queue := u.queue.eraseIdx position
    handling := some ⟨copy, .messageExists, [], false⟩ }
  let acknowledged : Subscriber := { taken with
    handling := none
    sent := u.sent ++ [successAcknowledgement copy.command]
    handled := u.handled ++ [copy] }
  have htaken : DocumentHandler.subscriber.step u (.taken position) = some taken := by
    change DocumentHandler.step u (.taken position) = _
    simp only [DocumentHandler.step, hidle, hposition]
    rfl
  cases hexists : messageExists u.store copy.command.id with
  | true =>
      refine ⟨[.taken position, .messageExists (.ok ()), .send (.ok ()), .ended], acknowledged,
        (Machine.run_cons_eq_some _).mpr ⟨taken, htaken, ?_⟩, by simp, rfl⟩
      simp [DocumentHandler.subscriber, DocumentHandler.step, handleStep, Subscriber.goto,
        Subscriber.sendAndReturn, Subscriber.commit, taken, acknowledged, hexists]
  | false =>
      refine ⟨[.taken position, .messageExists (.ok ()), .addMessageId true (.ok ()),
        .insertDocument (.ok true), .send (.ok ()), .ended],
        { acknowledged with
          store := addMessageId u.store copy.command.id
          calls := (copy, .ok true) :: u.calls },
        (Machine.run_cons_eq_some _).mpr ⟨taken, htaken, ?_⟩, by simp, rfl⟩
      simp [DocumentHandler.subscriber, DocumentHandler.step, handleStep, Subscriber.goto,
        Subscriber.sendAndReturn, Subscriber.commit, taken, acknowledged, hexists]

/-- A copy in the queue or in hand is handled, after a restart of the subscriber if
a message is in hand. -/
theorem reach_of_held (hcopy : Held s.subscriber copy) :
    (pathOnly json).CanReach
      (fun t => successAcknowledgement copy.command ∈ t.acknowledgements) s := by
  have hidle : ∀ s : Path Json, s.subscriber.handling = none → copy ∈ s.subscriber.queue →
      (pathOnly json).CanReach
        (fun t => successAcknowledgement copy.command ∈ t.acknowledgements) s := by
    intro s hnone hqueued
    obtain ⟨position, hposition⟩ := List.mem_iff_getElem?.mp hqueued
    obtain ⟨events, v, hrun, hevents, hsent⟩ := handled_to_end hnone hposition
    obtain ⟨t, new, hpath, hnew, hacknowledgements⟩ := run_subscriber hevents hrun
    obtain rfl : new = [successAcknowledgement copy.command] :=
      List.append_cancel_left (hnew.symm.trans hsent)
    refine ⟨_, t, hpath, ?_⟩
    change successAcknowledgement copy.command ∈ t.acknowledgements
    rw [hacknowledgements]
    exact List.mem_append_right _ List.mem_cons_self
  cases hhandling : s.subscriber.handling with
  | none =>
      refine hidle s hhandling (hcopy.resolve_right ?_)
      intro ⟨h, hh, _⟩
      rw [hhandling] at hh
      cases hh
  | some h =>
      have hcrash : RemotePath.step json s (.subscriber .crashed) =
          some (s.advance .crashed (s.subscriber.rollback h)) := by
        simp only [RemotePath.step, Path.arrives, DocumentHandler.step, hhandling, handleStep,
          if_true, Option.map_some]
      refine .step (step_pathOnly rfl hcrash) (hidle _ rfl ?_)
      change copy ∈ s.subscriber.queue ++ [h.copy]
      rcases hcopy with hqueued | ⟨h', hh, rfl⟩
      · exact List.mem_append_left _ hqueued
      · obtain rfl := Option.some.inj (hhandling.symm.trans hh)
        exact List.mem_append_right _ List.mem_cons_self

theorem Grounded.keep (s : Path Json) (e : PathEvent) (t : Path Json) (hs : Grounded json s)
    (hstep : (pathOnly json).step s e = some t) : Grounded json t := hs.step hstep

theorem reach_of_subscriber (hs : Grounded json s) (hcopy : Held s.subscriber copy) :
    (pathOnly json).CanReach (fun t => copy.command.correlationId ∈ t.completions) s :=
  (reach_of_held hcopy).trans Grounded.keep hs fun _ _ hsent =>
    reach_of_acknowledged hsent rfl

theorem reach_of_channel (hs : Grounded json s) (hcopy : copy ∈ s.channel) :
    (pathOnly json).CanReach (fun t => copy.command.correlationId ∈ t.completions) s := by
  have harrives : s.arrives (.queued copy) = true := List.contains_iff_mem.mpr hcopy
  have hstep : RemotePath.step json s (.subscriber (.queued copy)) =
      some (s.advance (.queued copy)
        { s.subscriber with queue := s.subscriber.queue ++ [copy] }) := by
    simp only [RemotePath.step, harrives, if_true, DocumentHandler.step, Option.map_some]
  have hstep := step_pathOnly rfl hstep
  refine .step hstep (reach_of_subscriber (hs.step hstep) (Or.inl ?_))
  exact List.mem_append_right _ List.mem_cons_self

/-- The row is replayed when its broker connects on the day of its creation. -/
theorem reach_of_row (hs : Grounded json s) {m : MessageLog Json}
    (hm : m ∈ s.hub.messageLog.rows) (hreplayable : Replayable m) :
    (pathOnly json).CanReach (fun t => m.correlationId ∈ t.completions) s := by
  obtain ⟨hselected, hread⟩ := hs.replayable hm hreplayable
  obtain ⟨t, ⟨e, hstep⟩, -, -, -, hreplayed⟩ := hs.connect m.createDate
  obtain ⟨command, htext, hchannel⟩ := hreplayed m hselected
  rw [← hread command htext]
  exact .step hstep (reach_of_channel (hs.step hstep) hchannel)

theorem reach_of_auditQueue (hs : Grounded json s) (hcopy : copy ∈ s.auditQueue) :
    (pathOnly json).CanReach (fun t => copy.command.correlationId ∈ t.completions) s := by
  obtain ⟨position, hposition⟩ := List.mem_iff_getElem?.mp hcopy
  have hstep : RemotePath.step json s (.audited position []) =
      some (s.audit json position copy []) := by
    simp only [RemotePath.step, hposition, Option.map_some]
  have hstep := step_pathOnly rfl hstep
  let row := create json (.insertDocumentIntoRemoteBackOfficeCommand copy.command) []
    s.hub.messageLog.next
  have hrow : row ∈ (s.audit json position copy []).hub.messageLog.rows :=
    List.mem_append_right _ List.mem_cons_self
  have hreplayable : Replayable row := ⟨rfl, rfl, Nat.zero_lt_succ 9⟩
  exact .step hstep (reach_of_row (hs.step hstep) hrow hreplayable)

/-- The token check finds the connection, and the handler ends without an exception. -/
theorem reach_of_pushed (hs : Grounded json s) (hcopy : copy ∈ s.pushed) :
    (pathOnly json).CanReach (fun t => copy.command.correlationId ∈ t.completions) s := by
  obtain ⟨t, ⟨e, hconnect⟩, -, hpushed, hactive, -⟩ := hs.connect 0
  have ht := hs.step hconnect
  have hbroker : copy.command.brokerId = 123 :=
    hs.brokers _ (List.mem_of_getElem? (hs.sagas.provenance.pushed copy hcopy))
  obtain ⟨position, hposition⟩ := List.mem_iff_getElem?.mp (hpushed.symm ▸ hcopy)
  obtain ⟨due, hdue⟩ :
      ∃ due, activeBrokerTokenIsDueToExpire t.hub.brokerConnections.entries 123 0 = .ok due :=
    HubAttempts.activeBrokerTokenIsDueToExpire_ok_iff.mpr hactive
  have hstep : RemotePath.step json t (.throttled position 0) =
      some { t with
        pushed := t.pushed.eraseIdx position
        auditQueue := t.auditQueue ++ [copy] } := by
    simp only [RemotePath.step, hposition, Option.map_some, Path.throttle, hbroker, hdue]
  have hstep := step_pathOnly rfl hstep
  refine .step hconnect (.step hstep (reach_of_auditQueue (ht.step hstep) ?_))
  exact List.mem_append_right _ List.mem_cons_self

theorem reach_of_hubQueue (hs : Grounded json s) (hcopy : copy ∈ s.hubQueue) :
    (pathOnly json).CanReach (fun t => copy.command.correlationId ∈ t.completions) s := by
  obtain ⟨t, ⟨e, hconnect⟩, hqueue, -, hactive, -⟩ := hs.connect 0
  have ht := hs.step hconnect
  have hbroker : copy.command.brokerId = 123 :=
    hs.brokers _ (List.mem_of_getElem? (hs.sagas.provenance.hubQueue copy hcopy))
  obtain ⟨position, hposition⟩ := List.mem_iff_getElem?.mp (hqueue.symm ▸ hcopy)
  have hconnected : isBrokerConnected t.hub.brokerConnections.entries 123 = true := by
    obtain ⟨b, hb, hb123, -⟩ := hactive
    exact isBrokerConnected_iff.mpr ⟨b, hb, hb123⟩
  have hrequired : HubEndpoint.requireConnected t.hub.brokerConnections.entries copy.command =
      .ok () := by
    rw [HubEndpoint.requireConnected, hbroker, hconnected]
    rfl
  have hstep : RemotePath.step json t (.pushed position (.ok ())) =
      some { t with
        hubQueue := t.hubQueue.eraseIdx position
        pushed := t.pushed ++ [copy]
        channel := t.channel ++ [copy] } := by
    simp only [RemotePath.step, hposition, Option.map_some, Path.push, hrequired]
  have hstep := step_pathOnly rfl hstep
  refine .step hconnect (.step hstep (reach_of_channel (ht.step hstep) ?_))
  exact List.mem_append_right _ List.mem_cons_self

/-- Of whatever is left of a command, a message for its saga can still come. -/
theorem Alive.reach (hs : Grounded json s) {c : Guid} (h : Alive s c) :
    (pathOnly json).CanReach (fun t => c ∈ t.completions) s := by
  cases h with
  | carried copy hcarried hc =>
      subst hc
      cases hcarried with
      | hubQueue hmem => exact reach_of_hubQueue hs hmem
      | pushed hmem => exact reach_of_pushed hs hmem
      | auditQueue hmem => exact reach_of_auditQueue hs hmem
      | channel hmem => exact reach_of_channel hs hmem
      | subscriber hheld => exact reach_of_subscriber hs hheld
  | row m hm hreplayable hc =>
      subst hc
      exact reach_of_row hs hm hreplayable
  | acknowledged ack hack hsuccess hc =>
      subst hc
      exact reach_of_acknowledged hack hsuccess
  | completing hmem => exact .here hmem

end Forward

section Backward
variable {json : JsonSerializer Json} {s t : Path Json} {c : Guid}

/-- What is left afterwards was left before if each of its parts was. -/
theorem Alive.of_parts (h : Alive t c)
    (hcarried : ∀ copy, Carried t copy → Alive s copy.command.correlationId)
    (hrows : ∀ m ∈ t.hub.messageLog.rows, Replayable m → Alive s m.correlationId)
    (hacknowledged : ∀ ack ∈ t.acknowledgements, ack.success = true → Alive s ack.correlationId)
    (hcompletions : ∀ c ∈ t.completions, Alive s c) : Alive s c := by
  cases h with
  | carried copy hcopy hc => exact hc ▸ hcarried copy hcopy
  | row m hm hreplayable hc => exact hc ▸ hrows m hm hreplayable
  | acknowledged ack hack hsuccess hc => exact hc ▸ hacknowledged ack hack hsuccess
  | completing hmem => exact hcompletions c hmem

theorem Carried.same {copy : Copy} (h : Carried t copy) (hhubQueue : t.hubQueue = s.hubQueue)
    (hpushed : t.pushed = s.pushed) (hauditQueue : t.auditQueue = s.auditQueue)
    (hchannel : t.channel = s.channel) (hsubscriber : t.subscriber = s.subscriber) :
    Carried s copy := by
  cases h with
  | hubQueue hmem => exact .hubQueue (hhubQueue ▸ hmem)
  | pushed hmem => exact .pushed (hpushed ▸ hmem)
  | auditQueue hmem => exact .auditQueue (hauditQueue ▸ hmem)
  | channel hmem => exact .channel (hchannel ▸ hmem)
  | subscriber hheld => exact .subscriber (hsubscriber ▸ hheld)

theorem Carried.alive {copy : Copy} (h : Carried s copy) : Alive s copy.command.correlationId :=
  .carried copy h rfl

theorem alive_row {m : MessageLog Json} (hm : m ∈ s.hub.messageLog.rows)
    (hreplayable : Replayable m) : Alive s m.correlationId := .row m hm hreplayable rfl

theorem alive_acknowledged {ack : SendAcknowledgementCommand} (hack : ack ∈ s.acknowledgements)
    (hsuccess : ack.success = true) : Alive s ack.correlationId :=
  .acknowledged ack hack hsuccess rfl

/-- The copies outside the subscriber have changed, and what is queued for the audit
web API and the saga has become less at most. -/
theorem Alive.of_copies (h : Alive t c) (hlog : t.hub.messageLog = s.hub.messageLog)
    (hsubscriber : t.subscriber = s.subscriber)
    (hacknowledgements : ∀ ack ∈ t.acknowledgements, ack ∈ s.acknowledgements)
    (hcompletions : ∀ c ∈ t.completions, c ∈ s.completions)
    (hhubQueue : ∀ x ∈ t.hubQueue, Carried s x) (hpushed : ∀ x ∈ t.pushed, Carried s x)
    (hauditQueue : ∀ x ∈ t.auditQueue, Carried s x) (hchannel : ∀ x ∈ t.channel, Carried s x) :
    Alive s c := by
  refine h.of_parts (fun copy hcopy => Carried.alive ?_) ?_ ?_ ?_
  · cases hcopy with
    | hubQueue hmem => exact hhubQueue copy hmem
    | pushed hmem => exact hpushed copy hmem
    | auditQueue hmem => exact hauditQueue copy hmem
    | channel hmem => exact hchannel copy hmem
    | subscriber hheld => exact .subscriber (hsubscriber ▸ hheld)
  · rw [hlog]
    exact fun m => alive_row
  · exact fun ack hack => alive_acknowledged (hacknowledgements ack hack)
  · exact fun c hc => .completing (hcompletions c hc)

/-- Only the log has changed. -/
theorem Alive.of_log {log : AuditTable Json} (h : Alive (s.withLog log) c)
    (hrows : ∀ m ∈ log.rows, Replayable m → Alive s m.correlationId) : Alive s c := by
  exact h.of_parts (fun copy hcopy => (hcopy.same (s := s) rfl rfl rfl rfl rfl).alive) hrows
    (fun ack (hack : ack ∈ s.acknowledgements) => alive_acknowledged hack)
    fun c (hc : c ∈ s.completions) => .completing hc

/-- A row that is replayable after a completion was so before. -/
theorem replayable_complete {log : AuditTable Json} {correlationId : Guid} {now : DateTime}
    {n : MessageLog Json} (hn : n ∈ (completeCorrelatedMessages log correlationId now).rows)
    (hreplayable : Replayable n) :
    ∃ m ∈ log.rows, Replayable m ∧ m.correlationId = n.correlationId := by
  obtain ⟨m, hm, rfl⟩ := List.mem_map.mp hn
  have hsame := complete_sameRecord correlationId now m
  refine ⟨m, hm, ⟨?_, ?_, ?_⟩, hsame.correlationId.symm⟩
  · exact hsame.messageType.symm.trans hreplayable.messageType
  · by_contra hdate
    exact (complete_completionDate correlationId now m).mpr (Or.inl hdate)
      hreplayable.completionDate
  · rw [← complete_retries correlationId now m]
    exact hreplayable.retries

/-- Counting replays does not bring a row back either. -/
theorem replayable_countFirst {log : AuditTable Json} {brokerId : ℤ} {k : ℕ}
    {n : MessageLog Json} (hn : n ∈ (countFirst log brokerId k).rows) (hreplayable : Replayable n) :
    ∃ m ∈ log.rows, Replayable m ∧ m.correlationId = n.correlationId := by
  unfold countFirst at hn
  split at hn
  · exact ⟨n, hn, hreplayable, rfl⟩
  · next f _ =>
    obtain ⟨m, hm, rfl⟩ := List.mem_map.mp hn
    split at hreplayable
    · next hid =>
      refine ⟨m, hm, ⟨hreplayable.messageType, hreplayable.completionDate, ?_⟩, ?_⟩
      · exact Nat.lt_of_le_of_lt (Nat.le_add_right m.retries k) hreplayable.retries
      · rw [if_pos hid]
    · next hid => exact ⟨m, hm, hreplayable, by rw [if_neg hid]⟩

theorem Alive.of_complete {correlationId : Guid} {now : DateTime}
    (h : Alive (s.withLog (completeCorrelatedMessages s.hub.messageLog correlationId now)) c) :
    Alive s c := by
  refine h.of_log fun n hn hreplayable => ?_
  obtain ⟨m, hm, hm', hc⟩ := replayable_complete hn hreplayable
  exact hc ▸ alive_row hm hm'

/-- The subscriber holds what it held before and what has arrived. -/
theorem held_step {u v : Subscriber} {e : SubscriberEvent} {copy : Copy}
    (hstep : DocumentHandler.step u e = some v) (h : Held v copy) :
    Held u copy ∨ e = .queued copy := by
  cases step_effect hstep with
  | queue hqueue hhandling _ _ _ _ =>
      rcases h with hqueued | hhand
      · exact (hqueue copy hqueued).imp Or.inl id
      · exact Or.inl (Or.inr (hhandling ▸ hhand))
  | taken taken hmem hqueue hhandling _ _ _ _ =>
      left
      rcases h with hqueued | ⟨h, hh, rfl⟩
      · exact Or.inl (hqueue copy hqueued)
      · rw [hhandling] at hh
        obtain rfl := Option.some.inj hh
        exact Or.inl hmem
  | handle hand hhand houtcome =>
      left
      have hin : Held u hand.copy := Or.inr ⟨hand, hhand, rfl⟩
      cases houtcome.effect with
      | rolledBack hhandling hqueue _ _ _ =>
          rcases h with hqueued | ⟨h, hh, rfl⟩
          · rw [hqueue] at hqueued
            rcases List.mem_append.mp hqueued with hold | hback
            · exact Or.inl hold
            · rw [List.mem_singleton.mp hback]
              exact hin
          · rw [hhandling] at hh
            cases hh
      | committed _ _ _ hhandling hqueue _ _ _ =>
          rcases h with hqueued | ⟨h, hh, rfl⟩
          · exact Or.inl (hqueue ▸ hqueued)
          · rw [hhandling] at hh
            cases hh
      | continued next hhandling hcopy hqueue _ _ _ =>
          rcases h with hqueued | ⟨h, hh, rfl⟩
          · exact Or.inl (hqueue ▸ hqueued)
          · rw [hhandling] at hh
            obtain rfl := Option.some.inj hh
            rw [hcopy]
            exact hin

theorem carried_hubQueue (s : Path Json) : ∀ x ∈ s.hubQueue, Carried s x := fun _ => .hubQueue

theorem carried_pushed (s : Path Json) : ∀ x ∈ s.pushed, Carried s x := fun _ => .pushed

theorem carried_auditQueue (s : Path Json) : ∀ x ∈ s.auditQueue, Carried s x :=
  fun _ => .auditQueue

theorem carried_channel (s : Path Json) : ∀ x ∈ s.channel, Carried s x := fun _ => .channel

theorem carried_concat {xs : List Copy} {copy : Copy} (hxs : ∀ x ∈ xs, Carried s x)
    (hcopy : Carried s copy) : ∀ x ∈ xs ++ [copy], Carried s x :=
  List.forall_mem_append.mpr ⟨hxs, List.forall_mem_singleton.mpr hcopy⟩

theorem carried_eraseIdx {xs : List Copy} (hxs : ∀ x ∈ xs, Carried s x) (position : ℕ) :
    ∀ x ∈ xs.eraseIdx position, Carried s x :=
  fun x hx => hxs x (List.mem_of_mem_eraseIdx hx)

/-- The commands that a connect replays are in rows that were replayable. -/
theorem Alive.of_onConnected (hs : Grounded json s) {context : HubCallerContext}
    {env : Environment} (h : Alive (s.replay (exec (onConnected json context env) s.hub).2) c) :
    Alive s c := by
  have heffect := onConnected_effect context env hs.stored
  refine h.of_parts (fun copy hcopy => ?_) (fun n hn hreplayable => ?_)
    (fun ack (hack : ack ∈ s.acknowledgements) => alive_acknowledged hack)
    fun c (hc : c ∈ s.completions) => .completing hc
  · cases hcopy with
    | hubQueue hmem => exact (Carried.hubQueue (s := s) hmem).alive
    | pushed hmem => exact (Carried.pushed (s := s) hmem).alive
    | auditQueue hmem => exact (Carried.auditQueue (s := s) hmem).alive
    | subscriber hheld => exact (Carried.subscriber (s := s) hheld).alive
    | channel hmem =>
        rcases List.mem_append.mp hmem with hold | hnew
        · exact (Carried.channel (s := s) hold).alive
        · obtain ⟨p, hp, rfl⟩ := List.mem_map.mp hnew
          obtain ⟨-, new, hreplayed, hrows⟩ := onConnected_replayed json context env s.hub
          rw [hreplayed, List.drop_left] at hp
          obtain ⟨brokerId, -, -, m, hm, -, hread⟩ := hrows p hp
          obtain ⟨hrow, hselected⟩ := mem_unacknowledged.mp hm
          have hreplayable : Replayable m :=
            ⟨hselected.messageType, hselected.completionDate, hselected.retries⟩
          rw [(hs.replayable hrow hreplayable).2 p.command hread]
          exact alive_row hrow hreplayable
  · change n ∈ (exec (onConnected json context env) s.hub).2.messageLog.rows at hn
    cases heffect with
    | unreached hlog _ =>
        rw [hlog] at hn
        exact alive_row hn hreplayable
    | replayed brokerId read j k _ _ _ _ _ hlog =>
        rw [hlog] at hn
        obtain ⟨m, hm, hm', hc⟩ := replayable_countFirst hn hreplayable
        exact hc ▸ alive_row hm hm'

theorem Alive.of_audited {position : ℕ} {copy : Copy} {headers : Headers}
    (hcopy : s.auditQueue[position]? = some copy)
    (h : Alive (s.audit json position copy headers) c) : Alive s c := by
  have hin : Carried s copy := .auditQueue (List.mem_of_getElem? hcopy)
  refine h.of_parts (fun x hx => ?_) (fun n hn hreplayable => ?_)
    (fun ack (hack : ack ∈ s.acknowledgements) => alive_acknowledged hack)
    fun c (hc : c ∈ s.completions) => .completing hc
  · cases hx with
    | hubQueue hmem => exact (Carried.hubQueue (s := s) hmem).alive
    | pushed hmem => exact (Carried.pushed (s := s) hmem).alive
    | auditQueue hmem => exact (carried_eraseIdx (carried_auditQueue s) position x hmem).alive
    | channel hmem => exact (Carried.channel (s := s) hmem).alive
    | subscriber hheld => exact (Carried.subscriber (s := s) hheld).alive
  · rcases List.mem_append.mp hn with hold | hnew
    · exact alive_row hold hreplayable
    · rw [List.mem_singleton.mp hnew]
      exact hin.alive

theorem Alive.of_subscriber (hs : Grounded json s) {event : SubscriberEvent} {v : Subscriber}
    (harrives : s.arrives event = true)
    (hstep : DocumentHandler.step s.subscriber event = some v)
    (h : Alive (s.advance event v) c) : Alive s c := by
  refine h.of_parts (fun x hx => Carried.alive ?_) (fun m (hm : m ∈ s.hub.messageLog.rows) =>
    alive_row hm) (fun ack hack hsuccess => ?_) fun c (hc : c ∈ s.completions) => .completing hc
  · cases hx with
    | hubQueue hmem => exact carried_hubQueue s x hmem
    | pushed hmem => exact carried_pushed s x hmem
    | auditQueue hmem => exact carried_auditQueue s x hmem
    | channel hmem => exact carried_channel s x (mem_channel_advance hmem)
    | subscriber hheld =>
        rcases held_step hstep hheld with hold | harrived
        · exact .subscriber hold
        · rw [harrived] at harrives
          exact .channel (List.contains_iff_mem.mp harrives)
  · rcases mem_acknowledgements_advance hs.sagas.reachable hstep hack with
      hold | ⟨hand, hhand, rfl⟩
    · exact alive_acknowledged hold hsuccess
    · exact (Carried.subscriber (Or.inr ⟨hand, hhand, rfl⟩)).alive

/-- What a request leaves was left before: `Post` sends for the completion of the
acknowledged correlation only. -/
theorem Alive.of_acknowledge {position : ℕ} {ack : SendAcknowledgementCommand} {now : DateTime}
    {outcome : PostOutcome} (hack : ack ∈ s.acknowledgements)
    (h : Alive (s.acknowledge position ack now outcome) c) : Alive s c := by
  have hrows : ∀ n ∈ (post s.hub.messageLog ack now).1.rows, Replayable n →
      Alive s n.correlationId := by
    apply post_log (P := fun log => ∀ n ∈ log.rows, Replayable n → Alive s n.correlationId)
    · exact fun n => alive_row
    intro _ n hn hreplayable
    obtain ⟨m, hm, hm', hc⟩ := replayable_complete hn hreplayable
    exact hc ▸ alive_row hm hm'
  have hsent : ∀ c ∈ s.completions ++ (post s.hub.messageLog ack now).2, Alive s c := by
    intro c hc
    rcases List.mem_append.mp hc with hold | hnew
    · exact .completing hold
    · obtain ⟨hsuccess, rfl⟩ := mem_post_sent.mp hnew
      exact alive_acknowledged hack hsuccess
  cases outcome with
  | answered =>
      exact h.of_parts (fun x hx => (hx.same (s := s) rfl rfl rfl rfl rfl).alive) hrows
        (fun a ha => alive_acknowledged (List.mem_of_mem_eraseIdx ha)) hsent
  | unanswered =>
      exact h.of_parts (fun x hx => (hx.same (s := s) rfl rfl rfl rfl rfl).alive) hrows
        (fun a (ha : a ∈ s.acknowledgements) => alive_acknowledged ha) hsent
  | sendThrew => exact h.of_log hrows

theorem Alive.of_step (hs : Grounded json s) {e : PathEvent} (he : ofPathOnly e = true)
    (hstep : RemotePath.step json s e = some t) (h : Alive t c) : Alive s c := by
  cases e with
  | emitted command => cases he
  | sagaCompleted position consumed => cases he
  | pushed position outcome =>
      obtain ⟨copy, hcopy, rfl⟩ := Option.map_eq_some_iff.mp hstep
      have hin : Carried s copy := .hubQueue (List.mem_of_getElem? hcopy)
      unfold Path.push at h
      split at h
      · exact h.of_copies rfl rfl (fun _ => id) (fun _ => id)
          (carried_eraseIdx (carried_hubQueue s) position)
          (carried_concat (carried_pushed s) hin) (carried_auditQueue s)
          (carried_concat (carried_channel s) hin)
      · exact h
  | throttled position now =>
      obtain ⟨copy, hcopy, rfl⟩ := Option.map_eq_some_iff.mp hstep
      have hin : Carried s copy := .pushed (List.mem_of_getElem? hcopy)
      unfold Path.throttle at h
      split at h
      · exact h.of_copies rfl rfl (fun _ => id) (fun _ => id)
          (carried_concat (carried_hubQueue s) hin) (carried_eraseIdx (carried_pushed s) position)
          (carried_auditQueue s) (carried_channel s)
      · exact h.of_copies rfl rfl (fun _ => id) (fun _ => id) (carried_hubQueue s)
          (carried_eraseIdx (carried_pushed s) position)
          (carried_concat (carried_auditQueue s) hin) (carried_channel s)
  | discarded position =>
      obtain ⟨copy, -, rfl⟩ := Option.map_eq_some_iff.mp hstep
      exact h.of_copies rfl rfl (fun _ => id) (fun _ => id)
        (carried_eraseIdx (carried_hubQueue s) position) (carried_pushed s)
        (carried_auditQueue s) (carried_channel s)
  | auditDiscarded position =>
      obtain ⟨copy, -, rfl⟩ := Option.map_eq_some_iff.mp hstep
      exact h.of_copies rfl rfl (fun _ => id) (fun _ => id) (carried_hubQueue s)
        (carried_pushed s) (carried_eraseIdx (carried_auditQueue s) position) (carried_channel s)
  | duplicated position =>
      obtain ⟨copy, hcopy, rfl⟩ := Option.map_eq_some_iff.mp hstep
      have hin : Carried s copy := .channel (List.mem_of_getElem? hcopy)
      exact h.of_copies rfl rfl (fun _ => id) (fun _ => id) (carried_hubQueue s)
        (carried_pushed s) (carried_auditQueue s) (carried_concat (carried_channel s) hin)
  | lost position =>
      obtain rfl := Option.some.inj hstep
      exact h.of_copies rfl rfl (fun _ => id) (fun _ => id) (carried_hubQueue s)
        (carried_pushed s) (carried_auditQueue s) (carried_eraseIdx (carried_channel s) position)
  | acknowledgementDiscarded position =>
      obtain rfl := Option.some.inj hstep
      exact h.of_copies rfl rfl (fun _ => List.mem_of_mem_eraseIdx) (fun _ => id)
        (carried_hubQueue s) (carried_pushed s) (carried_auditQueue s) (carried_channel s)
  | completionDiscarded position =>
      obtain rfl := Option.some.inj hstep
      exact h.of_copies rfl rfl (fun _ => id) (fun _ => List.mem_of_mem_eraseIdx)
        (carried_hubQueue s) (carried_pushed s) (carried_auditQueue s) (carried_channel s)
  | onConnected context env =>
      obtain rfl := Option.some.inj hstep
      exact h.of_onConnected hs
  | onReconnected context env =>
      obtain rfl := Option.some.inj hstep
      exact h.of_copies (onReconnected_log context env s.hub).1 rfl (fun _ => id) (fun _ => id)
        (carried_hubQueue s) (carried_pushed s) (carried_auditQueue s) (carried_channel s)
  | onDisconnected context env =>
      obtain rfl := Option.some.inj hstep
      exact h.of_copies (onDisconnected_log context env s.hub).1 rfl (fun _ => id) (fun _ => id)
        (carried_hubQueue s) (carried_pushed s) (carried_auditQueue s) (carried_channel s)
  | audited position headers =>
      obtain ⟨copy, hcopy, rfl⟩ := Option.map_eq_some_iff.mp hstep
      exact h.of_audited hcopy
  | auditedElsewhere message headers =>
      obtain ⟨hother, hstep⟩ := Option.ite_none_left_eq_some.mp hstep
      obtain rfl := Option.some.inj hstep
      refine h.of_log fun m hm hreplayable => ?_
      rcases List.mem_append.mp hm with hold | hnew
      · exact alive_row hold hreplayable
      · rw [List.mem_singleton.mp hnew] at hreplayable
        exact absurd hreplayable.messageType hother
  | subscriber event =>
      obtain ⟨harrives, hstep⟩ := Option.ite_none_right_eq_some.mp hstep
      obtain ⟨v, hv, rfl⟩ := Option.map_eq_some_iff.mp hstep
      exact h.of_subscriber hs harrives hv
  | posted position now outcome =>
      obtain ⟨ack, hack, rfl⟩ := Option.map_eq_some_iff.mp hstep
      exact h.of_acknowledge (List.mem_of_getElem? hack)
  | completionAudited position now consumed =>
      obtain ⟨correlationId, -, rfl⟩ := Option.map_eq_some_iff.mp hstep
      have hlog := h.of_copies (s := s.withLog (completeCorrelatedMessages s.hub.messageLog
        correlationId now)) rfl rfl (fun _ => id) (fun _ => id) (fun _ h => .hubQueue h)
        (fun _ h => .pushed h) (fun _ h => .auditQueue h) fun _ h => .channel h
      exact hlog.of_complete

end Backward

end ReliableSignalR.CommandRecovery
