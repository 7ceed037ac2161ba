import ReliableSignalR.DocumentHandler

/-!
# One delivery of a document command

A delivery begins when the handler has taken a message and lasts until the run
of its body is over, by its end, by an exception or because the process stopped.
Meanwhile messages may arrive in the queue and leave it.

The message store keeps an identifier from the moment at which `AddMessageId`
has committed it, so a delivery leaves the store as it was only if it does not
get as far as the call of `InsertDocument`. A refused insert aborts the ambient
transaction: the message is not consumed and its acknowledgement does not leave.
-/
namespace ReliableSignalR.HandlerDeliveries
open DotNet EventRuns Messages DocumentHandler

structure Delivery (s : Subscriber) (copy : Copy) (es : List SubscriberEvent) (t : Subscriber) :
    Prop where
  begun : s.handling = some ⟨copy, .messageExists, [], false⟩
  untaken : ∀ position, .taken position ∉ es
  run : subscriber.run s es = some t
  finished : t.handling = none

/-- An event of a delivery changes the queue or is one of the run in hand. -/
inductive DeliveryStep (s : Subscriber) (e : SubscriberEvent) (t : Subscriber) : Prop
  | queue (quiet : ∀ outcome, e ≠ .insertDocument outcome) (handling : t.handling = s.handling)
      (store : t.store = s.store) (sent : t.sent = s.sent) (handled : t.handled = s.handled)
  | handle (h : Handling) (handling : s.handling = some h) (outcome : HandleOutcome s h e t)

theorem delivery_step {s t : Subscriber} {e : SubscriberEvent}
    (huntaken : ∀ position, e ≠ .taken position) (hstep : step s e = some t) :
    DeliveryStep s e t := by
  cases e with
  | queued copy =>
      obtain rfl := Option.some.inj hstep
      exact .queue nofun rfl rfl rfl rfl
  | discarded position =>
      obtain rfl := Option.some.inj hstep
      exact .queue nofun rfl rfl rfl rfl
  | taken position => exact absurd rfl (huntaken position)
  | _ =>
      simp only [step] at hstep
      split at hstep
      · cases hstep
      · next h hh => exact .handle h hh (handleStep_outcome hstep)

/-- The induction on the history of a delivery. -/
theorem Delivery.history {s t : Subscriber} {copy : Copy} {es : List SubscriberEvent}
    (d : Delivery s copy es t) {P : List SubscriberEvent → Subscriber → Prop} (start : P [] s)
    (more : ∀ es u e t, (∀ position, e ≠ .taken position) → P es u →
      step u e = some t → P (es ++ [e]) t) : P es t := by
  have hhistory : (∀ position, .taken position ∉ es) → P es t := by
    refine Machine.run_history (M := subscriber) (s := s)
      (P := fun es u => (∀ position, .taken position ∉ es) → P es u) (fun _ => start) ?_ d.run
    intro es u e t _ ih hstep huntaken
    have hes : ∀ position, .taken position ∉ es :=
      fun position hin => huntaken position (List.mem_append_left _ hin)
    have he : ∀ position, e ≠ .taken position := fun position heq =>
      huntaken position (List.mem_append_right _ (List.mem_singleton.mpr heq.symm))
    exact more es u e t he (ih hes) hstep
  exact hhistory d.untaken

/-- What the store holds in the course of a delivery: the identifier of its
command is added between `AddMessageId` and `InsertDocument`, nothing else is. -/
structure StoreSofar (s : Subscriber) (copy : Copy) (es : List SubscriberEvent)
    (u : Subscriber) : Prop where
  inHand : ∀ h, u.handling = some h → h.copy = copy
  before : ∀ h, u.handling = some h → h.phase = .messageExists ∨ h.phase = .addMessageId →
    u.store = s.store
  after : ∀ h, u.handling = some h → h.phase ≠ .messageExists → h.phase ≠ .addMessageId →
    u.store = copy.command.id :: s.store
  called : ∀ outcome, .insertDocument outcome ∈ es → u.store = copy.command.id :: s.store

section Store
variable {s u t : Subscriber} {copy : Copy} {es : List SubscriberEvent} {e : SubscriberEvent}
  {h next : Handling}

theorem StoreSofar.finished (hidle : t.handling = none)
    (hcalled : ∀ outcome, .insertDocument outcome ∈ es → t.store = copy.command.id :: s.store) :
    StoreSofar s copy es t := by
  refine ⟨fun h hh => ?_, fun h hh => ?_, fun h hh => ?_, hcalled⟩
  all_goals
    rw [hidle] at hh
    cases hh

/-- The run goes on with the identifier not yet stored. -/
theorem StoreSofar.unstored (hhandling : t.handling = some next) (hcopy : next.copy = copy)
    (hphase : next.phase = .messageExists ∨ next.phase = .addMessageId)
    (hstore : t.store = s.store)
    (hcalled : ∀ outcome, .insertDocument outcome ∈ es → t.store = copy.command.id :: s.store) :
    StoreSofar s copy es t := by
  have hnext : ∀ h, t.handling = some h → next = h :=
    fun h hh => Option.some.inj (hhandling.symm.trans hh)
  refine ⟨fun h hh => hnext h hh ▸ hcopy, fun _ _ _ => hstore, fun h hh hne hne' => ?_, hcalled⟩
  rw [← hnext h hh] at hne hne'
  exact absurd hphase (not_or.mpr ⟨hne, hne'⟩)

/-- The run goes on with the identifier stored. -/
theorem StoreSofar.stored (hhandling : t.handling = some next) (hcopy : next.copy = copy)
    (hexists : next.phase ≠ .messageExists) (hadd : next.phase ≠ .addMessageId)
    (hstore : t.store = copy.command.id :: s.store) : StoreSofar s copy es t := by
  have hnext : ∀ h, t.handling = some h → next = h :=
    fun h hh => Option.some.inj (hhandling.symm.trans hh)
  refine ⟨fun h hh => hnext h hh ▸ hcopy, fun h hh hphase => ?_, fun _ _ _ _ => hstore,
    fun _ _ => hstore⟩
  rw [← hnext h hh] at hphase
  exact absurd hphase (not_or.mpr ⟨hexists, hadd⟩)

theorem StoreSofar.begin (hbegun : s.handling = some ⟨copy, .messageExists, [], false⟩) :
    StoreSofar s copy [] s :=
  .unstored hbegun rfl (Or.inl rfl) rfl nofun

theorem StoreSofar.handle (hfresh : copy.command.id ∉ s.store) (hsofar : StoreSofar s copy es u)
    (hh : u.handling = some h) (houtcome : HandleOutcome u h e t) :
    StoreSofar s copy (es ++ [e]) t := by
  have hcopy := hsofar.inHand h hh
  have hbefore := hsofar.before h hh
  have hafter := hsofar.after h hh
  have hadded : h.phase = .addMessageId →
      addMessageId u.store h.copy.command.id = copy.command.id :: s.store := by
    intro hphase
    rw [hbefore (Or.inr hphase), hcopy]
    exact addMessageId_of_unseen hfresh
  have hcalled : (∀ outcome, e ≠ .insertDocument outcome) → ∀ outcome,
      .insertDocument outcome ∈ es ++ [e] → u.store = copy.command.id :: s.store := by
    intro hquiet outcome hin
    rcases List.mem_append.mp hin with hold | hnew
    · exact hsofar.called outcome hold
    · exact absurd (List.mem_singleton.mp hnew).symm (hquiet outcome)
  have hinserting : h.phase = .insertDocument → u.store = copy.command.id :: s.store :=
    fun hphase => hafter (by simp [hphase]) (by simp [hphase])
  cases houtcome with
  | messageExistsThrew x hphase => exact .finished rfl (hcalled nofun)
  | found hphase hmem =>
      rw [hbefore (Or.inl hphase), hcopy] at hmem
      exact absurd hmem hfresh
  | missed hphase hnotMem =>
      exact .unstored rfl hcopy (Or.inr rfl) (hbefore (Or.inl hphase)) (hcalled nofun)
  | addMessageIdThrew x hphase => exact .finished rfl (hcalled nofun)
  | addMessageIdCut x hphase => exact .finished rfl fun _ _ => hadded hphase
  | stored committed hphase => exact .stored rfl hcopy nofun nofun (hadded hphase)
  | insertDocumentThrew x hphase => exact .finished rfl fun _ _ => hinserting hphase
  | inserted hphase => exact .stored rfl hcopy nofun nofun (hinserting hphase)
  | refused hphase => exact .stored rfl hcopy nofun nofun (hinserting hphase)
  | sendThrew x hphase => exact .finished rfl (hcalled nofun)
  | sent ack hphase hsuccess =>
      have hstore := hafter (by intro heq; simp [heq] at hphase)
        (by intro heq; simp [heq] at hphase)
      exact .stored rfl hcopy nofun nofun hstore
  | abortedAtEnd hphase haborted => exact .finished rfl (hcalled nofun)
  | committed hphase haborted => exact .finished rfl (hcalled nofun)
  | crashed => exact .finished rfl (hcalled nofun)

theorem StoreSofar.step (hfresh : copy.command.id ∉ s.store) (hsofar : StoreSofar s copy es u)
    (huntaken : ∀ position, e ≠ .taken position) (hstep : DocumentHandler.step u e = some t) :
    StoreSofar s copy (es ++ [e]) t := by
  cases delivery_step huntaken hstep with
  | queue hquiet hhandling hstore _ _ =>
      constructor
      · rw [hhandling]
        exact hsofar.inHand
      · rw [hhandling, hstore]
        exact hsofar.before
      · rw [hhandling, hstore]
        exact hsofar.after
      · intro outcome hin
        rw [hstore]
        rcases List.mem_append.mp hin with hold | hnew
        · exact hsofar.called outcome hold
        · exact absurd (List.mem_singleton.mp hnew).symm (hquiet outcome)
  | handle h hh houtcome => exact hsofar.handle hfresh hh houtcome

theorem Delivery.store (d : Delivery s copy es t) (hfresh : copy.command.id ∉ s.store) :
    StoreSofar s copy es t := by
  apply d.history
  · exact .begin d.begun
  · exact fun es u e t huntaken hsofar hstep => hsofar.step hfresh huntaken hstep

end Store

/-- `InsertDocument` was called and returned false or threw. -/
def InsertFailed (es : List SubscriberEvent) : Prop :=
  .insertDocument (.ok false) ∈ es ∨ ∃ x, .insertDocument (.error x) ∈ es

/-- The store afterwards knows the identifiers that it knew before and, if the
document was inserted and the handler completed, that of the command. -/
structure StoreFollowsOutcome (s : Subscriber) (copy : Copy) (es : List SubscriberEvent)
    (t : Subscriber) : Prop where
  failed : InsertFailed es → ∀ i, messageExists t.store i = messageExists s.store i
  completed : .insertDocument (.ok true) ∈ es → .ended ∈ es → ∀ i,
    messageExists t.store i = true ↔ i = copy.command.id ∨ messageExists s.store i = true

/-- The store follows the outcome of a delivery of an unknown command precisely
if the back office does not fail in it. -/
theorem store_follows_outcome_exactly_when {s t : Subscriber} {copy : Copy}
    {es : List SubscriberEvent} (d : Delivery s copy es t)
    (hfresh : messageExists s.store copy.command.id = false) :
    StoreFollowsOutcome s copy es t ↔ ¬InsertFailed es := by
  have hnotMem : copy.command.id ∉ s.store := by
    intro hmem
    rw [messageExists_iff.mpr hmem] at hfresh
    cases hfresh
  have hstore := d.store hnotMem
  constructor
  · intro h hfailed
    have hcalled : t.store = copy.command.id :: s.store := by
      rcases hfailed with hfalse | ⟨x, hthrew⟩
      · exact hstore.called _ hfalse
      · exact hstore.called _ hthrew
    have hsame := h.failed hfailed copy.command.id
    rw [hfresh, hcalled, messageExists_iff.mpr List.mem_cons_self] at hsame
    cases hsame
  · intro hsucceeded
    refine ⟨fun hfailed => absurd hfailed hsucceeded, fun htrue _ i => ?_⟩
    rw [hstore.called _ htrue, messageExists_iff, messageExists_iff, List.mem_cons]

def insertCommand : InsertDocumentIntoRemoteBackOfficeCommand where
  id := 7
  correlationId := 7
  brokerId := 123
  createDate := 0
  agreementId := 1
  document := []

/-- The subscriber has just taken its only message. -/
def justTaken (store : MessageStore) : Subscriber :=
  ⟨[], store, [], some ⟨⟨0, insertCommand⟩, .messageExists, [], false⟩, [], []⟩

theorem inserted_command_stored :
    ∃ t, Delivery (justTaken [3]) ⟨0, insertCommand⟩
        [.messageExists (.ok ()), .addMessageId true (.ok ()), .insertDocument (.ok true),
          .send (.ok ()), .ended] t ∧
      StoreFollowsOutcome (justTaken [3]) ⟨0, insertCommand⟩
        [.messageExists (.ok ()), .addMessageId true (.ok ()), .insertDocument (.ok true),
          .send (.ok ()), .ended] t := by
  have d : Delivery (justTaken [3]) ⟨0, insertCommand⟩
      [.messageExists (.ok ()), .addMessageId true (.ok ()), .insertDocument (.ok true),
        .send (.ok ()), .ended] _ := ⟨rfl, by simp, rfl, rfl⟩
  refine ⟨_, d, (store_follows_outcome_exactly_when d (by decide)).mpr ?_⟩
  simp [InsertFailed]

/-- The back office refuses the document, and the identifier stays in the store:
the redelivered command is acknowledged without a call of `InsertDocument`. -/
theorem failed_insert_stays_stored :
    ∃ t u, Delivery (justTaken []) ⟨0, insertCommand⟩
        [.messageExists (.ok ()), .addMessageId true (.ok ()), .insertDocument (.error .external)]
        t ∧
      messageExists [] insertCommand.id = false ∧
      messageExists t.store insertCommand.id = true ∧
      subscriber.run t [.taken 0, .messageExists (.ok ()), .send (.ok ()), .ended] = some u ∧
      u.calls = t.calls ∧ u.sent = [⟨7, true, none⟩] ∧
      ¬StoreFollowsOutcome (justTaken []) ⟨0, insertCommand⟩
        [.messageExists (.ok ()), .addMessageId true (.ok ()), .insertDocument (.error .external)]
        t := by
  refine ⟨_, _, ⟨rfl, by simp, rfl, rfl⟩, by decide, by decide, rfl, rfl, rfl, fun h => ?_⟩
  have hsame := h.failed (Or.inr ⟨.external, by simp⟩) 7
  revert hsame
  decide

/-- Nothing leaves in the course of a delivery before its commit, and a refused
insert rules the commit out. -/
structure RefusalSofar (s : Subscriber) (es : List SubscriberEvent) (u : Subscriber) : Prop where
  pending : ∀ h, u.handling = some h → u.sent = s.sent ∧ u.handled = s.handled
  refused : .insertDocument (.ok false) ∈ es →
    u.sent = s.sent ∧ u.handled = s.handled ∧ ∀ h, u.handling = some h → h.aborted = true

section Refusal
variable {s u t : Subscriber} {copy : Copy} {es : List SubscriberEvent} {e : SubscriberEvent}
  {h next : Handling}

theorem RefusalSofar.finished (hidle : t.handling = none)
    (hrefused : .insertDocument (.ok false) ∈ es → t.sent = s.sent ∧ t.handled = s.handled) :
    RefusalSofar s es t := by
  have hnone : ∀ h, t.handling ≠ some h := fun h hh => by
    rw [hidle] at hh
    cases hh
  refine ⟨fun h hh => absurd hh (hnone h), fun hin => ?_⟩
  exact ⟨(hrefused hin).1, (hrefused hin).2, fun h hh => absurd hh (hnone h)⟩

theorem RefusalSofar.continued (hhandling : t.handling = some next) (hsent : t.sent = s.sent)
    (hhandled : t.handled = s.handled)
    (haborted : .insertDocument (.ok false) ∈ es → next.aborted = true) : RefusalSofar s es t := by
  refine ⟨fun _ _ => ⟨hsent, hhandled⟩, fun hin => ⟨hsent, hhandled, fun h hh => ?_⟩⟩
  rw [← Option.some.inj (hhandling.symm.trans hh)]
  exact haborted hin

theorem RefusalSofar.handle (hsofar : RefusalSofar s es u) (hh : u.handling = some h)
    (houtcome : HandleOutcome u h e t) : RefusalSofar s (es ++ [e]) t := by
  obtain ⟨hsent, hhandled⟩ := hsofar.pending h hh
  have hold : e ≠ .insertDocument (.ok false) →
      .insertDocument (.ok false) ∈ es ++ [e] → h.aborted = true := by
    intro hne hin
    rcases List.mem_append.mp hin with hold | hnew
    · exact (hsofar.refused hold).2.2 h hh
    · exact absurd (List.mem_singleton.mp hnew).symm hne
  cases houtcome with
  | messageExistsThrew x hphase => exact .finished rfl fun _ => ⟨hsent, hhandled⟩
  | found hphase hmem => exact .continued rfl hsent hhandled (hold nofun)
  | missed hphase hnotMem => exact .continued rfl hsent hhandled (hold nofun)
  | addMessageIdThrew x hphase => exact .finished rfl fun _ => ⟨hsent, hhandled⟩
  | addMessageIdCut x hphase => exact .finished rfl fun _ => ⟨hsent, hhandled⟩
  | stored committed hphase => exact .continued rfl hsent hhandled (hold nofun)
  | insertDocumentThrew x hphase => exact .finished rfl fun _ => ⟨hsent, hhandled⟩
  | inserted hphase => exact .continued rfl hsent hhandled (hold nofun)
  | refused hphase => exact .continued rfl hsent hhandled fun _ => rfl
  | sendThrew x hphase => exact .finished rfl fun _ => ⟨hsent, hhandled⟩
  | sent ack hphase hsuccess => exact .continued rfl hsent hhandled (hold nofun)
  | abortedAtEnd hphase haborted => exact .finished rfl fun _ => ⟨hsent, hhandled⟩
  | committed hphase haborted =>
      apply RefusalSofar.finished rfl
      intro hin
      have htrue := hold nofun hin
      rw [haborted] at htrue
      cases htrue
  | crashed => exact .finished rfl fun _ => ⟨hsent, hhandled⟩

theorem RefusalSofar.step (hsofar : RefusalSofar s es u)
    (huntaken : ∀ position, e ≠ .taken position) (hstep : DocumentHandler.step u e = some t) :
    RefusalSofar s (es ++ [e]) t := by
  cases delivery_step huntaken hstep with
  | queue hquiet hhandling _ hsent hhandled =>
      constructor
      · rw [hhandling, hsent, hhandled]
        exact hsofar.pending
      · rw [hhandling, hsent, hhandled]
        intro hin
        rcases List.mem_append.mp hin with hold | hnew
        · exact hsofar.refused hold
        · exact absurd (List.mem_singleton.mp hnew).symm (hquiet _)
  | handle h hh houtcome => exact hsofar.handle hh houtcome

theorem Delivery.refusal (d : Delivery s copy es t) : RefusalSofar s es t := by
  apply d.history
  · exact ⟨fun _ _ => ⟨rfl, rfl⟩, nofun⟩
  · exact fun es u e t huntaken hsofar hstep => hsofar.step huntaken hstep

end Refusal

/-- The delivery has consumed the message, and one acknowledgement has left the
endpoint that reports a failure under the correlation of the command. -/
structure RefusalReported (s : Subscriber) (copy : Copy) (t : Subscriber) : Prop where
  consumed : t.handled = s.handled ++ [copy]
  reported : ∃ ack, t.sent = s.sent ++ [ack] ∧ ack.success = false ∧
    ack.correlationId = copy.command.correlationId

/-- No delivery in which the back office refuses the document reports that: the
message is not consumed, and no acknowledgement leaves. -/
theorem refused_insert_never_reported {s t : Subscriber} {copy : Copy}
    {es : List SubscriberEvent} (d : Delivery s copy es t)
    (hrefused : .insertDocument (.ok false) ∈ es) :
    t.handled = s.handled ∧ t.sent = s.sent ∧ ¬RefusalReported s copy t := by
  obtain ⟨hsent, hhandled, -⟩ := d.refusal.refused hrefused
  refine ⟨hhandled, hsent, fun hreported => ?_⟩
  have hlength := congrArg List.length (hreported.consumed.symm.trans hhandled)
  simp at hlength

/-- Whatever leaves the endpoint, in any run, reports a success. -/
theorem acknowledgements_report_success {s : Subscriber} (h : subscriber.Reachable s) :
    ∀ ack ∈ s.sent, ack.success = true := by
  have hinvariant : Consistent s ∧ ∀ ack ∈ s.sent, ack.success = true := by
    apply h.invariant (I := fun s => Consistent s ∧ ∀ ack ∈ s.sent, ack.success = true)
    · intro s e t hs hstep
      refine ⟨hs.1.step hstep, ?_⟩
      rcases step_sent hstep with hsame | ⟨h, -, hh, hphase, haborted, hsent⟩
      · rw [hsame]
        exact hs.2
      · intro ack hack
        rw [hsent, (hs.1.handling h hh).acknowledged hphase haborted] at hack
        rcases List.mem_append.mp hack with hold | hnew
        · exact hs.2 ack hold
        · rw [List.mem_singleton.mp hnew]
          rfl
    · exact ⟨Consistent.initial, nofun⟩
  exact hinvariant.2

/-- The refused command goes back to the queue without an acknowledgement; its
next delivery finds the identifier and reports a success. -/
theorem refused_insert_reported_as_success :
    ∃ t u, Delivery (justTaken []) ⟨0, insertCommand⟩
        [.messageExists (.ok ()), .addMessageId true (.ok ()), .insertDocument (.ok false),
          .send (.ok ()), .ended] t ∧
      messageExists [] insertCommand.id = false ∧
      t.queue = [⟨0, insertCommand⟩] ∧ t.handled = [] ∧ t.sent = [] ∧
      ¬RefusalReported (justTaken []) ⟨0, insertCommand⟩ t ∧
      subscriber.run t [.taken 0, .messageExists (.ok ()), .send (.ok ()), .ended] = some u ∧
      u.handled = [⟨0, insertCommand⟩] ∧ u.sent = [⟨7, true, none⟩] := by
  refine ⟨_, _, ⟨rfl, by simp, rfl, rfl⟩, by decide, rfl, rfl, rfl, fun h => ?_, rfl, rfl, rfl⟩
  cases h.consumed

/-- The theorem applies to that delivery. -/
theorem refused_insert_not_consumed :
    ∃ t, Delivery (justTaken []) ⟨0, insertCommand⟩
        [.messageExists (.ok ()), .addMessageId true (.ok ()), .insertDocument (.ok false),
          .send (.ok ()), .ended] t ∧
      t.handled = [] ∧ t.sent = [] ∧ ¬RefusalReported (justTaken []) ⟨0, insertCommand⟩ t := by
  have d : Delivery (justTaken []) ⟨0, insertCommand⟩
      [.messageExists (.ok ()), .addMessageId true (.ok ()), .insertDocument (.ok false),
        .send (.ok ()), .ended] _ := ⟨rfl, by simp, rfl, rfl⟩
  exact ⟨_, d, refused_insert_never_reported d (by simp)⟩

end ReliableSignalR.HandlerDeliveries
