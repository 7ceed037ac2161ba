import ReliableSignalR.MessageStoreCreation
import ReliableSignalR.DocumentHandler

/-!
# What the message store remembers

The document handler sees the store as a list of identifiers: `AddMessageId` adds
one, `MessageExists` asks for one, and nothing is ever forgotten. The store is a
database on disk, made by the first process that needs it and opened by all later
ones, which start, crash and fail in any order.

The database refines the list as long as no start ends between the creation of the
file and the commit. After a start that does, every later process fails to answer.
-/
namespace ReliableSignalR.MessageStoreContents
open DotNet EventRuns MessageStoreCreation

/-- What an event does to the list of the document handler. -/
def remember (store : DocumentHandler.MessageStore) : StoreEvent → DocumentHandler.MessageStore
  | .messageAdded messageId _ => DocumentHandler.addMessageId store messageId
  | _ => store

def remembered (events : List StoreEvent) : DocumentHandler.MessageStore :=
  events.foldl remember []

def listStore : Machine DocumentHandler.MessageStore StoreEvent where
  init := []
  step store e := some (remember store e)

theorem listStore_run (store : DocumentHandler.MessageStore) (events : List StoreEvent) :
    listStore.run store events = some (events.foldl remember store) := by
  induction events generalizing store with
  | nil => rfl
  | cons e events ih => exact ih (remember store e)

theorem remember_nodup {store : DocumentHandler.MessageStore} (h : store.Nodup) (e : StoreEvent) :
    (remember store e).Nodup := by
  cases e with
  | messageAdded messageId now =>
      change (DocumentHandler.addMessageId store messageId).Nodup
      unfold DocumentHandler.addMessageId
      split
      · exact h
      · next hnew =>
        exact List.nodup_cons.mpr
          ⟨fun hmem => hnew (DocumentHandler.messageExists_iff.mpr hmem), h⟩
  | _ => exact h

theorem remembered_nodup (events : List StoreEvent) : (remembered events).Nodup :=
  (Machine.always_of_step (M := listStore) (I := List.Nodup)
    (fun _ _ _ h hstep => Option.some.inj hstep ▸ remember_nodup h _) events List.nodup_nil).last
    (listStore_run [] events)

section Refinement
variable {disk disk' : Option Database} {s t : MessageStore} {store : DocumentHandler.MessageStore}

/-- An addition does to the records what it does to the list. -/
theorem ids_addMessageId {messageId : Guid} {now : DateTime} (h : HasMessageTable disk)
    (hadded : addMessageId disk messageId now = .ok disk') (hids : ids disk = store.reverse) :
    ids disk' = (DocumentHandler.addMessageId store messageId).reverse := by
  have hexists : hasMessageAlreadyBeenProcessed disk messageId =
      .ok (decide (messageId ∈ ids disk)) := messageExists_eq h
  have hmem : messageId ∈ ids disk ↔ messageId ∈ store := by
    rw [hids, List.mem_reverse]
  unfold addMessageId at hadded
  rw [hexists] at hadded
  unfold DocumentHandler.addMessageId
  by_cases hin : messageId ∈ store
  · rw [decide_eq_true (hmem.mpr hin)] at hadded
    obtain rfl : disk = disk' := Except.ok.inj hadded
    rw [if_pos (DocumentHandler.messageExists_iff.mpr hin)]
    exact hids
  · rw [decide_eq_false (mt hmem.mp hin)] at hadded
    have hinsert := h.insertMessage messageId now
    change insertMessage disk messageId now = _ at hadded
    rw [hinsert] at hadded
    obtain rfl := Except.ok.inj hadded
    obtain ⟨table, hopen, -, -⟩ := h
    rw [if_neg fun hexists => hin (DocumentHandler.messageExists_iff.mp hexists),
      List.reverse_cons, ← hids]
    cases disk with
    | none => cases hopen
    | some database =>
        rw [Option.map_some, ids, openTable_insert database "Message" _ hopen, ids, hopen]
        simp

/-- No statement of `CreateDatabaseIfRequired` loses a record. -/
theorem ids_perform {uncommitted : Option Table} {statement : Statement}
    {rest : List Statement} (h : Progress disk uncommitted (statement :: rest)) :
    ids (perform disk uncommitted rest statement).disk = ids disk := by
  generalize hall : statement :: rest = all at h
  cases h with
  | initializing _ =>
      obtain ⟨rfl, rfl⟩ := List.cons.inj hall
      rfl
  | checking _ =>
      obtain ⟨rfl, rfl⟩ := List.cons.inj hall
      cases disk <;> rfl
  | creating =>
      obtain ⟨rfl, rfl⟩ := List.cons.inj hall
      rfl
  | building built left hparts =>
      cases left with
      | nil =>
          obtain ⟨rfl, rfl⟩ := List.cons.inj hall
          rw [List.append_nil] at hparts
          rw [← hparts]
          rfl
      | cons next left =>
          obtain ⟨rfl, rfl⟩ := List.cons.inj hall
          have hnext : statement ∈ createMessageTable := by
            rw [hparts]
            exact List.mem_append_right built List.mem_cons_self
          rw [perform_building hnext]
  | ending _ hleft =>
      subst hall
      have hmem : statement ∈ closing := hleft.subset List.mem_cons_self
      rcases List.mem_cons.mp hmem with rfl | hmem
      · rfl
      · rw [List.mem_singleton.mp hmem]
        rfl

/-- The database is whole or in the making, and its records are those of the list. -/
structure Refines (s : MessageStore) (store : DocumentHandler.MessageStore) : Prop where
  sound : Sound s
  ids : ids s.disk = store.reverse

theorem Refines.step (h : Refines s store) {e : StoreEvent} (hends : EndsOutsideWindow s e)
    (hstep : step s e = some t) : Refines t (remember store e) := by
  refine ⟨h.sound.step hends hstep, ?_⟩
  have hsound := h.sound
  have hids := h.ids
  obtain ⟨disk, process⟩ := s
  cases e with
  | started =>
      obtain ⟨-, rfl⟩ := guarded hstep
      exact hids
  | advanced =>
      cases process with
      | creating rest uncommitted =>
          cases rest with
          | nil =>
              obtain rfl := Option.some.inj hstep
              exact hids
          | cons statement rest =>
              obtain rfl := Option.some.inj hstep
              have hprogress : Progress disk uncommitted (statement :: rest) := hsound
              exact (ids_perform hprogress).trans hids
      | _ => cases hstep
  | threw =>
      cases process with
      | creating rest uncommitted =>
          obtain rfl := Option.some.inj hstep
          exact hids
      | _ => cases hstep
  | crashed =>
      obtain rfl := Option.some.inj hstep
      exact hids
  | messageAdded messageId now =>
      obtain ⟨hready, hstep⟩ := Option.ite_none_right_eq_some.mp hstep
      simp only at hready
      subst hready
      obtain ⟨disk', hadded, -⟩ := HasMessageTable.addMessageId hsound messageId now
      simp only [hadded, Option.some.injEq] at hstep
      subst hstep
      exact ids_addMessageId hsound hadded hids

end Refinement

/-- The file is there and will never have the table: a start that finds it returns. -/
structure Damaged (s : MessageStore) : Prop where
  disk : s.disk = some ⟨[]⟩
  start : ∀ rest uncommitted, s.process = .creating rest uncommitted →
    rest = createDatabaseIfRequired ∨ rest = createDatabaseIfRequired.tail

section Damage
variable {s t : MessageStore} {e : StoreEvent}

theorem Damaged.of_sound (h : Sound s) (hends : ¬EndsOutsideWindow s e)
    (hstep : step s e = some t) : Damaged t := by
  cases e with
  | crashed =>
      have hdisk := h.disk_in_window (not_not.mp hends)
      obtain rfl := Option.some.inj hstep
      exact ⟨hdisk, nofun⟩
  | threw =>
      have hdisk := h.disk_in_window (not_not.mp hends)
      obtain ⟨disk, process⟩ := s
      cases process with
      | creating rest uncommitted =>
          obtain rfl := Option.some.inj hstep
          exact ⟨hdisk, nofun⟩
      | _ => cases hstep
  | _ => exact absurd trivial hends

theorem Damaged.step (h : Damaged s) (hstep : step s e = some t) : Damaged t := by
  obtain ⟨hdisk, hstart⟩ := h
  obtain ⟨disk, process⟩ := s
  simp only at hdisk
  subst hdisk
  cases e with
  | started =>
      obtain ⟨-, rfl⟩ := guarded hstep
      refine ⟨rfl, fun rest uncommitted hprocess => Or.inl ?_⟩
      cases hprocess
      rfl
  | advanced =>
      cases process with
      | creating rest uncommitted =>
          rcases hstart rest uncommitted rfl with rfl | rfl
          · obtain rfl := Option.some.inj hstep
            refine ⟨rfl, fun rest uncommitted hprocess => Or.inr ?_⟩
            cases hprocess
            rfl
          · obtain rfl := Option.some.inj hstep
            exact ⟨rfl, nofun⟩
      | _ => cases hstep
  | threw =>
      cases process with
      | creating rest uncommitted =>
          obtain rfl := Option.some.inj hstep
          exact ⟨rfl, nofun⟩
      | _ => cases hstep
  | crashed =>
      obtain rfl := Option.some.inj hstep
      exact ⟨rfl, nofun⟩
  | messageAdded messageId now =>
      obtain ⟨hready, hstep⟩ := Option.ite_none_right_eq_some.mp hstep
      obtain rfl := Option.some.inj hstep
      exact ⟨rfl, hstart⟩

end Damage

instance (s : MessageStore) : Decidable (InWindow s) :=
  match h : s.process with
  | .creating rest uncommitted =>
      decidable_of_iff (.createDatabase ∉ rest ∧ .commit ∈ rest)
        ⟨fun hwindow => ⟨rest, uncommitted, h, hwindow⟩, fun ⟨rest', _, h', hwindow⟩ => by
          rw [h] at h'
          cases h'
          exact hwindow⟩
  | .stopped | .ready | .faulted => isFalse fun ⟨_, _, h', _⟩ => by
      rw [h] at h'
      cases h'

instance (s : MessageStore) : ∀ e, Decidable (EndsOutsideWindow s e)
  | .crashed | .threw => inferInstanceAs (Decidable (¬InWindow s))
  | .started | .advanced | .messageAdded .. => isTrue trivial

/-- The runs in which no start ends in the window refine the list. -/
theorem refines_run {events : List StoreEvent} {s : MessageStore}
    (hrun : messageStore.run messageStore.init events = some s)
    (hends : messageStore.Meets EndsOutsideWindow messageStore.init events) :
    Refines s (remembered events) := by
  have hstart : Refines messageStore.init [] := ⟨Or.inl rfl, rfl⟩
  obtain ⟨store, hstore, hrefines⟩ := Machine.run_simulates
    (M := messageStore.under EndsOutsideWindow) (N := listStore) (S := Refines)
    (fun s store e t h hstep => ⟨_, rfl, h.step (Machine.under_step.mp hstep).1
      (Machine.under_step.mp hstep).2⟩) hstart ((Machine.run_under hends).trans hrun)
  rw [listStore_run, Option.some.injEq] at hstore
  rw [← hstore] at hrefines
  exact hrefines

/-- In every run, through all starts, crashes and exceptions, a store that has got
through its constructor answers `MessageExists` like the list of all identifiers
added so far precisely if no start has ended between the creation of the file and
the commit. The records then are those of these identifiers, one of each. -/
theorem store_remembers_exactly_when (events : List StoreEvent) {s : MessageStore}
    (hrun : messageStore.run messageStore.init events = some s) (hready : s.process = .ready) :
    ((∀ messageId, messageExists s.disk messageId =
        .ok (DocumentHandler.messageExists (remembered events) messageId)) ↔
      messageStore.Meets EndsOutsideWindow messageStore.init events) ∧
    (messageStore.Meets EndsOutsideWindow messageStore.init events →
      (∀ messageId, messageId ∈ ids s.disk ↔ messageId ∈ remembered events) ∧
        (ids s.disk).Nodup) := by
  have hrefines := fun hends => refines_run hrun hends
  refine ⟨⟨fun hanswers => ?_, fun hends messageId => ?_⟩, fun hends => ?_⟩
  · have hsound : Sound messageStore.init := Or.inl rfl
    rcases Machine.final_of_meets (G := Sound) (B := Damaged) (fun s e t h hends hstep =>
      h.step hends hstep) (fun s e t h hends hstep => .of_sound h hends hstep)
      (fun s e t h hstep => h.step hstep) hsound hrun with ⟨-, hends⟩ | ⟨hdamaged, -⟩
    · exact hends
    · have hanswer := hanswers 0
      rw [hdamaged.disk] at hanswer
      cases hanswer
  · have htable : HasMessageTable s.disk := by
      have hsound := (hrefines hends).sound
      unfold Sound at hsound
      rw [hready] at hsound
      exact hsound
    rw [messageExists_eq htable, (hrefines hends).ids]
    congr 1
    rw [Bool.eq_iff_iff, decide_eq_true_iff, List.mem_reverse,
      DocumentHandler.messageExists_iff]
  · rw [(hrefines hends).ids]
    exact ⟨fun messageId => List.mem_reverse, List.nodup_reverse.mpr (remembered_nodup events)⟩

/-- The first process is stopped before it has made the file, the second one adds two
identifiers, one of them twice, and the third one opens the store. -/
def threeProcesses : List StoreEvent :=
  [.started, .advanced, .crashed, .started] ++ List.replicate 12 .advanced ++
    [.messageAdded 7 0, .messageAdded 8 1, .messageAdded 7 2, .crashed, .started, .advanced,
      .advanced]

theorem three_processes_remember :
    ∃ s, messageStore.run messageStore.init threeProcesses = some s ∧
      (∀ messageId, messageId ∈ ids s.disk ↔ messageId ∈ remembered threeProcesses) ∧
      (ids s.disk).Nodup ∧ remembered threeProcesses = [8, 7] ∧
      messageExists s.disk 7 = .ok true ∧ messageExists s.disk 9 = .ok false := by
  have hrun : ((messageStore.run messageStore.init threeProcesses).any fun s =>
      s.process == .ready) = true := by decide +kernel
  obtain ⟨s, hs, hready⟩ := (Option.any_eq_true _ _).mp hrun
  have hends : messageStore.Meets EndsOutsideWindow messageStore.init threeProcesses := by
    decide +kernel
  obtain ⟨hanswers, hrecords⟩ :=
    store_remembers_exactly_when threeProcesses hs (beq_iff_eq.mp hready)
  obtain ⟨hids, hnodup⟩ := hrecords hends
  exact ⟨s, hs, hids, hnodup, by decide, hanswers.mpr hends 7, hanswers.mpr hends 9⟩

end ReliableSignalR.MessageStoreContents
