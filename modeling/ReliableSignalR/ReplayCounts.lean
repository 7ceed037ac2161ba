import ReliableSignalR.HubRuns

/-!
# What the retry counter counts

The runs of this module are those in which every `OnConnected` returns. The loop
of a replay selects rows by one predicate and counts by another lookup: each
push raises the counter of the broker's first row. The counter of every row
therefore equals the number of its own replays precisely as long as each
selected row is the first row of its broker.
-/
namespace ReliableSignalR.ReplayCounts
open DotNet Messages KeyedTable RetainedEffects EventRuns
open AuditEndpoint BackOfficeHub HubRuns

variable {Json : Type}

/-- The hub with callbacks that run to their end: no other `OnConnected` is a step. -/
def undisturbed (json : JsonSerializer Json) : Machine (HubRun Json) HubEvent where
  init := HubRun.initial
  step s
    | .onConnected context env =>
        match exec (onConnected json context env) s.hub with
        | (.ok _, hub) => some (s.arrive context.connectionId hub)
        | (.error _, _) => none
    | e => some (step json s e)

def timesReplayed (replayed : List Replay) (row : ℕ) : ℕ :=
  replayed.countP fun p => p.row == row

/-- Each counter equals the number of replays of its row, no row is replayed
more than ten times, and none is withheld before its tenth replay. -/
def CountsReplays (s : HubRun Json) : Prop :=
  ∀ m ∈ s.hub.messageLog.rows,
    m.retries = timesReplayed s.hub.replayed m.id ∧
      timesReplayed s.hub.replayed m.id ≤ 10 ∧
      (m.completionDate = none → ¬m.retries < 10 → 10 ≤ timesReplayed s.hub.replayed m.id)

/-- The last two parts follow from the first one and the bound. -/
theorem countsReplays_iff {s : HubRun Json} :
    CountsReplays s ↔ ∀ m ∈ s.hub.messageLog.rows,
      m.retries = timesReplayed s.hub.replayed m.id ∧
        timesReplayed s.hub.replayed m.id ≤ 10 := by
  constructor
  · exact fun h m hm => ⟨(h m hm).1, (h m hm).2.1⟩
  · intro h m hm
    obtain ⟨hcounter, hle⟩ := h m hm
    exact ⟨hcounter, hle, fun _ hretries => by omega⟩

/-- The condition on a connect: a selected row is the broker's first row. -/
def SelectsFirstRow (s : HubRun Json) : HubEvent → Prop
  | .onConnected context env =>
      ∀ brokerId, context.user.brokerId = .ok brokerId →
        ∀ m ∈ unacknowledged s.hub.messageLog brokerId env.now,
          s.hub.messageLog.first? (fun a => a.brokerId == brokerId) = some m
  | _ => True

/-- The log holds what was audited, and only its rows have been replayed. -/
structure Recorded (json : JsonSerializer Json) (s : HubRun Json) : Prop where
  stored : AllStored json s.hub.messageLog
  below : ∀ p ∈ s.hub.replayed, p.row < s.hub.messageLog.next

section Counting
variable {json : JsonSerializer Json} {s : HubRun Json}

theorem timesReplayed_append (old new : List Replay) (row : ℕ) :
    timesReplayed (old ++ new) row = timesReplayed old row + timesReplayed new row :=
  List.countP_append

theorem timesReplayed_eq_zero {replayed : List Replay} {next : ℕ}
    (h : ∀ p ∈ replayed, p.row < next) : timesReplayed replayed next = 0 := by
  apply List.countP_eq_zero.mpr
  intro p hp heq
  have hlt := h p hp
  rw [beq_iff_eq.mp heq] at hlt
  exact Nat.lt_irrefl _ hlt

theorem timesReplayed_read {log : AuditTable Json} {brokerId : ℤ} {now : DateTime}
    {read : List (MessageLog Json × InsertDocumentIntoRemoteBackOfficeCommand)}
    (hread : deserializeAll json (unacknowledged log brokerId now) = .ok read) (user : String)
    (row : ℕ) :
    timesReplayed (read.map fun r => ⟨user, r.1.id, r.2⟩) row =
      ((unacknowledged log brokerId now).map MessageLog.id).count row := by
  rw [← (deserializeAll_ok hread).1, timesReplayed, List.count, List.countP_map,
    List.countP_map, List.countP_map]
  rfl

/-- One replay loop pushes each selected row once, and no other row. -/
theorem count_unacknowledged {log : AuditTable Json} {brokerId : ℤ} {now : DateTime}
    {m : MessageLog Json} (hm : m ∈ log.rows) :
    (m ∈ unacknowledged log brokerId now →
        ((unacknowledged log brokerId now).map MessageLog.id).count m.id = 1) ∧
      (m ∉ unacknowledged log brokerId now →
        ((unacknowledged log brokerId now).map MessageLog.id).count m.id = 0) := by
  have hnodup : ((unacknowledged log brokerId now).map MessageLog.id).Nodup :=
    log.keys_nodup.sublist (List.filter_sublist.map _)
  constructor
  · intro h
    exact List.count_eq_one_of_mem hnodup (List.mem_map_of_mem h)
  · intro h
    apply List.count_eq_zero_of_not_mem
    intro hmem
    obtain ⟨n, hn, hid⟩ := List.mem_map.mp hmem
    have hnm := log.eq_of_key_eq (mem_unacknowledged.mp hn).1 hm hid
    exact h (hnm ▸ hn)

/-- The lookup of a broker with a selected row finds a row of that broker. -/
theorem exists_first_of_selected {log : AuditTable Json} {brokerId : ℤ} {now : DateTime}
    {m : MessageLog Json} (hm : m ∈ unacknowledged log brokerId now) :
    ∃ f ∈ log.rows, log.first? (fun a => a.brokerId == brokerId) = some f := by
  obtain ⟨hrow, hselected⟩ := mem_unacknowledged.mp hm
  obtain ⟨f, hf⟩ := Table.exists_first? (p := fun a => a.brokerId == brokerId) hrow
    (beq_iff_eq.mpr hselected.brokerId)
  exact ⟨f, (Table.mem_of_first? hf).1, hf⟩

/-- If only first rows are selected, the loop runs over one row at most. -/
theorem unacknowledged_cases {log : AuditTable Json} {brokerId : ℤ} {now : DateTime}
    (hfirst : ∀ m ∈ unacknowledged log brokerId now,
      log.first? (fun a => a.brokerId == brokerId) = some m) :
    unacknowledged log brokerId now = [] ∨
      ∃ f ∈ log.rows, f.retries < 10 ∧ unacknowledged log brokerId now = [f] ∧
        countFirst log brokerId 1 = addRetries log f.id 1 := by
  cases hsel : unacknowledged log brokerId now with
  | nil => exact Or.inl rfl
  | cons f rest =>
      have hf : f ∈ unacknowledged log brokerId now := by rw [hsel]; exact List.mem_cons_self
      obtain ⟨hrow, hselected⟩ := mem_unacknowledged.mp hf
      have hcount : countFirst log brokerId 1 = addRetries log f.id 1 := by
        rw [countFirst, hfirst f hf]
      refine Or.inr ⟨f, hrow, hselected.retries, ?_, hcount⟩
      cases rest with
      | nil => rfl
      | cons g rest =>
          have hg : g ∈ unacknowledged log brokerId now := by simp [hsel]
          have hfg : f = g := by
            have heq := hfirst f hf
            rw [hfirst g hg] at heq
            exact (Option.some.inj heq).symm
          have hpair : (unacknowledged log brokerId now).Pairwise fun q r => q.id < r.id :=
            log.sorted.sublist List.filter_sublist
          rw [hsel, List.pairwise_cons] at hpair
          have hlt := hpair.1 g List.mem_cons_self
          rw [hfg] at hlt
          exact absurd hlt (Nat.lt_irrefl _)

/-- After a connect that returns, a row's counter has grown by the length of the
loop if it is the broker's first row, and its replays by one if it is selected. -/
structure Connected (json : JsonSerializer Json) (s : HubRun Json) (brokerId : ℤ)
    (now : DateTime) (t : HubRun Json) : Prop where
  log : t.hub.messageLog = countFirst s.hub.messageLog brokerId
    (unacknowledged s.hub.messageLog brokerId now).length
  replayed : ∀ row, timesReplayed t.hub.replayed row = timesReplayed s.hub.replayed row +
    ((unacknowledged s.hub.messageLog brokerId now).map MessageLog.id).count row

theorem undisturbed_onConnected {context : HubCallerContext} {env : Environment}
    {t : HubRun Json} (hs : Recorded json s)
    (h : (undisturbed json).step s (.onConnected context env) = some t) :
    ∃ brokerId, context.user.brokerId = .ok brokerId ∧ Connected json s brokerId env.now t := by
  simp only [undisturbed] at h
  split at h
  · next hub hexec =>
    obtain ⟨brokerId, read, hbroker, hread, hreplayed, hlog⟩ := onConnected_ok hs.stored hexec
    obtain rfl := Option.some.inj h
    refine ⟨brokerId, hbroker, ?_, fun row => ?_⟩
    · rw [← (deserializeAll_ok hread).1, List.length_map]
      exact hlog
    · rw [← timesReplayed_read hread (toString brokerId), ← timesReplayed_append, ← hreplayed]
      rfl
  · cases h

/-- A loop over the first row alone counts right. -/
theorem Connected.countsReplays {brokerId : ℤ} {now : DateTime} {t : HubRun Json}
    (h : Connected json s brokerId now t) (hs : CountsReplays s)
    (hfirst : ∀ m ∈ unacknowledged s.hub.messageLog brokerId now,
      s.hub.messageLog.first? (fun a => a.brokerId == brokerId) = some m) :
    CountsReplays t := by
  intro n hn
  rw [h.replayed n.id]
  rcases unacknowledged_cases hfirst with hnone | ⟨f, hf, hretries, hone, hcount⟩
  · have hlog : t.hub.messageLog = s.hub.messageLog := by
      rw [h.log, hnone]
      exact countFirst_zero _ _
    rw [hlog] at hn
    simpa only [hnone, List.map_nil, List.count_nil, Nat.add_zero] using hs n hn
  · have hlog : t.hub.messageLog = addRetries s.hub.messageLog f.id 1 := by
      rw [h.log, hone, ← hcount]
      rfl
    rw [hlog] at hn
    obtain ⟨m, hm, rfl⟩ := List.mem_map.mp hn
    obtain ⟨hcounter, hle, hwithheld⟩ := hs m hm
    simp only [hone, List.map_cons, List.map_nil]
    by_cases hid : m.id = f.id
    · have hmf := s.hub.messageLog.eq_of_key_eq hm hf hid
      subst hmf
      simp only [if_true, List.count_singleton_self]
      omega
    · have hzero : [f.id].count m.id = 0 := by
        apply List.count_eq_zero_of_not_mem
        simpa using hid
      simp only [if_neg hid, hzero, Nat.add_zero]
      exact ⟨hcounter, hle, hwithheld⟩

theorem Connected.selectsFirstRow {brokerId : ℤ} {now : DateTime} {t : HubRun Json}
    (h : Connected json s brokerId now t) (hs : CountsReplays s) (ht : CountsReplays t) :
    ∀ m ∈ unacknowledged s.hub.messageLog brokerId now,
      s.hub.messageLog.first? (fun a => a.brokerId == brokerId) = some m := by
  intro m hm
  obtain ⟨f, hf, hfirst⟩ := exists_first_of_selected hm
  have hrow := (mem_unacknowledged.mp hm).1
  have heq : m.id = f.id := by
    by_contra hne
    have hrow' : m ∈ t.hub.messageLog.rows := by
      rw [h.log, countFirst, hfirst]
      exact List.mem_map.mpr ⟨m, hrow, if_neg hne⟩
    have hbefore := (hs m hrow).1
    have hafter := (ht m hrow').1
    rw [h.replayed, (count_unacknowledged hrow).1 hm] at hafter
    omega
  rw [hfirst, s.hub.messageLog.eq_of_key_eq hrow hf heq]

theorem undisturbed_step {t : HubRun Json} {e : HubEvent}
    (h : (undisturbed json).step s e = some t) : t = step json s e := by
  cases e with
  | onConnected context env =>
      simp only [undisturbed] at h
      split at h
      · next hub hexec =>
        rw [← Option.some.inj h, step, hexec]
      · cases h
  | onReconnected context env => exact (Option.some.inj h).symm
  | onDisconnected context env => exact (Option.some.inj h).symm
  | audited message headers => exact (Option.some.inj h).symm
  | posted ack now => exact (Option.some.inj h).symm
  | completed correlationId now => exact (Option.some.inj h).symm

theorem Recorded.step (hs : Recorded json s) (e : HubEvent) : Recorded json (step json s e) := by
  cases e with
  | onConnected context env =>
      obtain ⟨hlog, new, hnew, hrows⟩ := onConnected_replayed json context env s.hub
      refine ⟨hlog.allStored hs.stored, fun p hp => ?_⟩
      simp only [HubRuns.step, HubRun.arrive] at hp ⊢
      rw [hlog.1]
      rw [hnew] at hp
      rcases List.mem_append.mp hp with hold | hnew
      · exact hs.below p hold
      · obtain ⟨brokerId, -, -, m, hm, hid, -⟩ := hrows p hnew
        rw [← hid]
        exact s.hub.messageLog.below m (mem_unacknowledged.mp hm).1
  | onReconnected context env =>
      obtain ⟨hlog, hreplayed⟩ := onReconnected_log context env s.hub
      refine ⟨?_, ?_⟩
      · simp only [HubRuns.step, HubRun.arrive, hlog]
        exact hs.stored
      · simp only [HubRuns.step, HubRun.arrive, hlog, hreplayed]
        exact hs.below
  | onDisconnected context env =>
      obtain ⟨hlog, hreplayed⟩ := onDisconnected_log context env s.hub
      refine ⟨?_, ?_⟩
      · simp only [HubRuns.step, HubRun.depart, hlog]
        exact hs.stored
      · simp only [HubRuns.step, HubRun.depart, hlog, hreplayed]
        exact hs.below
  | audited message headers =>
      refine ⟨hs.stored.insert message headers, fun p hp => ?_⟩
      exact Nat.lt_succ_of_lt (hs.below p hp)
  | posted ack now =>
      cases hsuccess : ack.success with
      | false =>
          simp only [HubRuns.step, post, hsuccess]
          exact ⟨hs.stored, hs.below⟩
      | true =>
          simp only [HubRuns.step, post, hsuccess]
          exact ⟨hs.stored.complete ack.correlationId now, hs.below⟩
  | completed correlationId now => exact ⟨hs.stored.complete correlationId now, hs.below⟩

theorem CountsReplays.complete (hs : CountsReplays s) (correlationId : Guid) (now : DateTime) :
    CountsReplays
      (s.withLog (completeCorrelatedMessages s.hub.messageLog correlationId now)) := by
  rw [countsReplays_iff] at hs ⊢
  intro n hn
  obtain ⟨m, hm, rfl⟩ := List.mem_map.mp hn
  rw [complete_retries, complete_id]
  exact hs m hm

/-- A new row starts with no replay and a zero counter. -/
theorem CountsReplays.audited (hs : CountsReplays s) (hrecorded : Recorded json s)
    (message : StandardAuditMessage) (headers : Headers) :
    CountsReplays (HubRuns.step json s (.audited message headers)) := by
  rw [countsReplays_iff] at hs ⊢
  intro n hn
  rcases List.mem_append.mp hn with hold | hnew
  · exact hs n hold
  · have hzero := timesReplayed_eq_zero hrecorded.below
    rw [List.mem_singleton.mp hnew]
    change 0 = timesReplayed s.hub.replayed s.hub.messageLog.next ∧
      timesReplayed s.hub.replayed s.hub.messageLog.next ≤ 10
    omega

end Counting

/-- In every run of returning connects, audits and completions, the counters
count the replays precisely if each connect selects only first rows. -/
theorem counters_count_replays_exactly_when (json : JsonSerializer Json)
    (events : List HubEvent) :
    (undisturbed json).Always CountsReplays (undisturbed json).init events ↔
      (undisturbed json).Meets SelectsFirstRow (undisturbed json).init events := by
  refine Machine.always_iff_meets (B := Recorded json) ?_ ?_ events ?_ ?_
  · intro s e t hs hstep
    rw [undisturbed_step hstep]
    exact hs.step e
  · intro s e t hrecorded hs hstep
    cases e with
    | onConnected context env =>
        obtain ⟨brokerId, hbroker, hconnected⟩ := undisturbed_onConnected hrecorded hstep
        constructor
        · intro ht b hb
          obtain rfl : brokerId = b := Except.ok.inj (hbroker.symm.trans hb)
          exact hconnected.selectsFirstRow hs ht
        · exact fun hfirst => hconnected.countsReplays hs (hfirst brokerId hbroker)
    | onReconnected context env =>
        refine ⟨fun _ => trivial, fun _ => ?_⟩
        rw [undisturbed_step hstep, CountsReplays, step, HubRun.arrive]
        simp only [onReconnected_log]
        exact hs
    | onDisconnected context env =>
        refine ⟨fun _ => trivial, fun _ => ?_⟩
        rw [undisturbed_step hstep, CountsReplays, step, HubRun.depart]
        simp only [onDisconnected_log]
        exact hs
    | audited message headers =>
        refine ⟨fun _ => trivial, fun _ => ?_⟩
        rw [undisturbed_step hstep]
        exact hs.audited hrecorded message headers
    | posted ack now =>
        refine ⟨fun _ => trivial, fun _ => ?_⟩
        rw [undisturbed_step hstep, step, post]
        split
        · exact hs
        · exact hs.complete ack.correlationId now
    | completed correlationId now =>
        refine ⟨fun _ => trivial, fun _ => ?_⟩
        rw [undisturbed_step hstep]
        exact hs.complete correlationId now
  · exact ⟨AllStored.empty json, fun p hp => by cases hp⟩
  · intro m hm
    cases hm

/-- Two commands for one broker and eleven of its connects. -/
def twoRowsElevenConnects : List HubEvent :=
  [.audited (.insertDocumentIntoRemoteBackOfficeCommand (insertCommand 7 123)) [],
    .audited (.insertDocumentIntoRemoteBackOfficeCommand (insertCommand 8 123)) []] ++
    List.replicate 11 (.onConnected ⟨"conn1", principal "123" "0"⟩ (Environment.calm 0))

/-- Each connect raises the counter of the first row by two at first, so that
row is withheld after five replays, while the second row never is. -/
theorem second_row_counted_on_first :
    ∃ s, (undisturbed JsonSerializer.transparent).run
        (undisturbed JsonSerializer.transparent).init twoRowsElevenConnects = some s ∧
      s.hub.messageLog.rows.map (fun m => (m.id, m.retries, m.completionDate)) =
        [(1, 16, none), (2, 0, none)] ∧
      timesReplayed s.hub.replayed 1 = 5 ∧ timesReplayed s.hub.replayed 2 = 11 ∧
      ¬CountsReplays s := by
  have hrun : ((undisturbed JsonSerializer.transparent).run
      (undisturbed JsonSerializer.transparent).init twoRowsElevenConnects).map
        (fun s => (s.hub.messageLog.rows.map fun m => (m.id, m.retries, m.completionDate),
          timesReplayed s.hub.replayed 1, timesReplayed s.hub.replayed 2)) =
      some ([(1, 16, none), (2, 0, none)], 5, 11) := by decide +kernel
  obtain ⟨s, hs, hfinal⟩ := Option.map_eq_some_iff.mp hrun
  simp only [Prod.mk.injEq] at hfinal
  obtain ⟨hrows, hfirst, hsecond⟩ := hfinal
  refine ⟨s, hs, hrows, hfirst, hsecond, fun h => ?_⟩
  have hmem : (2, 0, none) ∈ s.hub.messageLog.rows.map
      fun m => (m.id, m.retries, m.completionDate) := by
    rw [hrows]
    exact List.mem_cons_of_mem _ List.mem_cons_self
  obtain ⟨m, hm, heq⟩ := List.mem_map.mp hmem
  simp only [Prod.mk.injEq] at heq
  have hle := (h m hm).2.1
  rw [heq.1, hsecond] at hle
  omega

end ReliableSignalR.ReplayCounts
