import ReliableSignalR.ReplayCounts
import ReliableSignalR.HubEndpoint

/-!
# What the limit of ten replays withholds

The replay query asks for rows with a counter below ten, and each push raises the
counter of the broker's first row. The connects run one after another, and the
counters stay below 2^31. In a run whose connects return, the counter of that row is
the number of all pushes to the broker, and every other counter stays zero. So the
limit withholds the first row alone, after ten pushes of any rows of its broker.
Every other open row is pushed by each connect of its broker.
-/
namespace ReliableSignalR.ReplayLimit
open DotNet Messages KeyedTable RetainedEffects EventRuns
open AuditEndpoint BackOfficeHub HubRuns ReplayCounts
open HubEndpoint (countFirst_onlyRetries)

variable {Json : Type}

/-- The lookup of `UpdateMessageRetries` for the broker of the row finds the row. -/
def isFirstOfBroker (log : AuditTable Json) (m : MessageLog Json) : Bool :=
  (log.first? fun a => a.brokerId == m.brokerId).any fun f => f.id == m.id

def pushesTo (replayed : List Replay) (brokerId : ℤ) : ℕ :=
  replayed.countP fun p => p.user == toString brokerId

/-- What the query asks of a row apart from its counter. -/
def isOpen (brokerId : ℤ) (maxiumDeliveryDate : DateTime) (m : MessageLog Json) : Bool :=
  m.brokerId == brokerId && m.completionDate.isNone && m.messageType == remoteCommandType &&
    decide (m.createDate ≤ maxiumDeliveryDate)

/-- The row is the first of its broker, to which ten commands have been pushed. -/
def isWithheld (s : HubState Json) (m : MessageLog Json) : Bool :=
  isFirstOfBroker s.messageLog m && decide (10 ≤ pushesTo s.replayed m.brokerId)

/-- How often a connect meets the row open and not withheld: once, or not at all. -/
def meetsRow (row : ℕ) (s : HubRun Json) : HubEvent → ℕ
  | .onConnected context env =>
      match context.user.brokerId with
      | .ok brokerId => s.hub.messageLog.rows.countP fun m => m.id == row &&
          (isOpen brokerId (DateTime.addDays (DateTime.today env.now) 1) m && !isWithheld s.hub m)
      | .error _ => 0
  | _ => 0

/-- The counter of a first row counts the pushes to its broker, the others nothing. -/
def CountsOnFirst (s : HubRun Json) : Prop :=
  ∀ m ∈ s.hub.messageLog.rows, m.retries =
    if isFirstOfBroker s.hub.messageLog m then pushesTo s.hub.replayed m.brokerId else 0

structure Limited (json : JsonSerializer Json) (s : HubRun Json) : Prop where
  recorded : Recorded json s
  pushed : ∀ p ∈ s.hub.replayed, ∃ m ∈ s.hub.messageLog.rows,
    m.id = p.row ∧ p.user = toString m.brokerId
  counters : CountsOnFirst s
  bounded : ∀ m ∈ s.hub.messageLog.rows, isFirstOfBroker s.hub.messageLog m = true →
    timesReplayed s.hub.replayed m.id ≤ 10

section FirstRows
variable {log : AuditTable Json} {m : MessageLog Json} {b : ℤ}

theorem isFirstOfBroker_iff (hm : m ∈ log.rows) :
    isFirstOfBroker log m = true ↔ (log.first? fun a => a.brokerId == m.brokerId) = some m := by
  rw [isFirstOfBroker, Option.any_eq_true]
  constructor
  · intro ⟨f, hf, hid⟩
    rw [hf, log.eq_of_key_eq (Table.mem_of_first? hf).1 hm (beq_iff_eq.mp hid)]
  · exact fun h => ⟨m, h, beq_self_eq_true m.id⟩

theorem isFirstOfBroker_update {f : MessageLog Json → MessageLog Json}
    (hkey : ∀ m, (f m).id = m.id) (hbroker : ∀ m, (f m).brokerId = m.brokerId) :
    isFirstOfBroker (log.update f hkey) (f m) = isFirstOfBroker log m := by
  unfold isFirstOfBroker
  rw [hbroker, hkey, Table.first?_update (fun a => by rw [hbroker]), Option.any_map]
  simp only [hkey]

theorem first?_insert {p : MessageLog Json → Bool} {make : ℕ → MessageLog Json}
    (hkey : ∀ k, (make k).id = k) {f : MessageLog Json} (hf : log.first? p = some f) :
    (log.insert make hkey).first? p = some f := by
  rw [Table.first?] at hf
  rw [Table.first?, Table.rows_insert, List.find?_append, hf, Option.some_or]

/-- A row that is appended does not change which rows are first. -/
theorem isFirstOfBroker_insert {make : ℕ → MessageLog Json} (hkey : ∀ k, (make k).id = k)
    (hm : m ∈ log.rows) : isFirstOfBroker (log.insert make hkey) m = isFirstOfBroker log m := by
  obtain ⟨f, hf⟩ := Table.exists_first? (p := fun a => a.brokerId == m.brokerId) hm
    (beq_self_eq_true m.brokerId)
  rw [isFirstOfBroker, isFirstOfBroker, hf, first?_insert hkey hf]

/-- The row that the log appends is first if its broker has no other. -/
theorem no_row_of_isFirstOfBroker_new {make : ℕ → MessageLog Json} (hkey : ∀ k, (make k).id = k)
    (hfirst : isFirstOfBroker (log.insert make hkey) (make log.next) = true) :
    ∀ m ∈ log.rows, m.brokerId ≠ (make log.next).brokerId := by
  intro m hm hbroker
  obtain ⟨f, hf⟩ := Table.exists_first? (p := fun a => a.brokerId == (make log.next).brokerId) hm
    (beq_iff_eq.mpr hbroker)
  rw [isFirstOfBroker, first?_insert hkey hf, Option.any_some, beq_iff_eq, hkey] at hfirst
  have hlt := log.below f (Table.mem_of_first? hf).1
  omega

/-- Counting on the first row of a broker. -/
theorem mem_countFirst {k : ℕ} {n : MessageLog Json} (hn : n ∈ (countFirst log b k).rows) :
    ∃ m ∈ log.rows, n.id = m.id ∧ n.brokerId = m.brokerId ∧
      isFirstOfBroker (countFirst log b k) n = isFirstOfBroker log m ∧
      n.retries =
        m.retries + if isFirstOfBroker log m = true ∧ m.brokerId = b then k else 0 := by
  unfold countFirst at hn ⊢
  cases hfirst : log.first? fun a => a.brokerId == b with
  | none =>
      simp only [hfirst] at hn ⊢
      refine ⟨n, hn, rfl, rfl, rfl, ?_⟩
      rw [if_neg, Nat.add_zero]
      intro ⟨_, hbroker⟩
      obtain ⟨f, hf⟩ := Table.exists_first? (p := fun a => a.brokerId == b) hn
        (beq_iff_eq.mpr hbroker)
      rw [hfirst] at hf
      cases hf
  | some f =>
      simp only [hfirst] at hn ⊢
      obtain ⟨hrow, hbroker⟩ := Table.mem_of_first? hfirst
      obtain ⟨m, hm, rfl⟩ := List.mem_map.mp hn
      have hfound : m.id = f.id ↔ isFirstOfBroker log m = true ∧ m.brokerId = b := by
        constructor
        · intro hid
          obtain rfl := log.eq_of_key_eq hm hrow hid
          have hb := beq_iff_eq.mp hbroker
          exact ⟨(isFirstOfBroker_iff hm).mpr (hb ▸ hfirst), hb⟩
        · rintro ⟨hm, rfl⟩
          rw [isFirstOfBroker, hfirst, Option.any_some, beq_iff_eq] at hm
          exact hm.symm
      refine ⟨m, hm, ?_, ?_, isFirstOfBroker_update _ fun a => by split <;> rfl, ?_⟩
      · split <;> rfl
      · split <;> rfl
      · simp only [← hfound]
        split <;> rfl

end FirstRows

theorem toString_injective {a b : ℤ} (h : toString a = toString b) : a = b := by
  have hread := signed_trim_toString a
  rw [h, signed_trim_toString] at hread
  exact (Option.some.inj hread).symm

section Steps
variable {json : JsonSerializer Json} {s t : HubRun Json}

theorem pushesTo_append (old new : List Replay) (b : ℤ) :
    pushesTo (old ++ new) b = pushesTo old b + pushesTo new b :=
  List.countP_append

theorem pushesTo_of_user {new : List Replay} {a : ℤ} (h : ∀ p ∈ new, p.user = toString a) (b : ℤ) :
    pushesTo new b = if b = a then new.length else 0 := by
  split
  · next heq =>
    exact List.countP_eq_length.mpr fun p hp => beq_iff_eq.mpr (heq ▸ h p hp)
  · next hne =>
    refine List.countP_eq_zero.mpr fun p hp heq => hne ?_
    exact toString_injective ((beq_iff_eq.mp heq).symm.trans (h p hp))

/-- Each replay of a row is a push to its broker. -/
theorem Limited.timesReplayed_le (hs : Limited json s) {m : MessageLog Json}
    (hm : m ∈ s.hub.messageLog.rows) :
    timesReplayed s.hub.replayed m.id ≤ pushesTo s.hub.replayed m.brokerId := by
  refine List.countP_mono_left fun p hp hrow => ?_
  obtain ⟨n, hn, hid, huser⟩ := hs.pushed p hp
  have hnm := s.hub.messageLog.eq_of_key_eq hn hm (hid.trans (beq_iff_eq.mp hrow))
  rw [huser, hnm]
  exact beq_self_eq_true _

/-- Under the invariant the query selects the rows that are open and not withheld. -/
theorem Limited.isUnacknowledged_eq (hs : Limited json s) {m : MessageLog Json}
    (hm : m ∈ s.hub.messageLog.rows) (b : ℤ) (maxiumDeliveryDate : DateTime) :
    isUnacknowledged b maxiumDeliveryDate m =
      (isOpen b maxiumDeliveryDate m && !isWithheld s.hub m) := by
  have hcounter : decide (m.retries < 10) = !isWithheld s.hub m := by
    rw [hs.counters m hm, isWithheld]
    cases isFirstOfBroker s.hub.messageLog m with
    | false => rfl
    | true =>
        rw [if_pos rfl, Bool.true_and, ← decide_not]
        exact decide_eq_decide.mpr Nat.not_le.symm
  unfold isUnacknowledged isOpen
  rw [hcounter]
  ac_rfl

/-- A connect that returns has pushed the selected rows to its broker. -/
structure Pushed (json : JsonSerializer Json) (s : HubRun Json) (b : ℤ) (now : DateTime)
    (t : HubRun Json) : Prop where
  connected : Connected json s b now t
  replayed : ∃ new, t.hub.replayed = s.hub.replayed ++ new ∧
    new.length = (unacknowledged s.hub.messageLog b now).length ∧
    ∀ p ∈ new, p.user = toString b ∧ ∃ m ∈ unacknowledged s.hub.messageLog b now, m.id = p.row

theorem pushed_onConnected {context : HubCallerContext} {env : Environment}
    (hs : Recorded json s) (h : (undisturbed json).step s (.onConnected context env) = some t) :
    ∃ b, context.user.brokerId = .ok b ∧ Pushed json s b env.now t := by
  obtain ⟨b, hbroker, hconnected⟩ := undisturbed_onConnected hs h
  refine ⟨b, hbroker, hconnected, ?_⟩
  simp only [undisturbed] at h
  split at h
  · next hub hexec =>
    obtain ⟨b', read, hbroker', hread, hreplayed, -⟩ := onConnected_ok hs.stored hexec
    obtain rfl : b = b' := Except.ok.inj (hbroker.symm.trans hbroker')
    obtain rfl := Option.some.inj h
    have hrows := (deserializeAll_ok hread).1
    refine ⟨_, hreplayed, ?_, fun p hp => ?_⟩
    · rw [← hrows, List.length_map, List.length_map]
    · obtain ⟨r, hr, rfl⟩ := List.mem_map.mp hp
      exact ⟨rfl, r.1, hrows ▸ List.mem_map_of_mem hr, rfl⟩
  · cases h

theorem Pushed.pushesTo {b : ℤ} {now : DateTime} (h : Pushed json s b now t) (a : ℤ) :
    pushesTo t.hub.replayed a = pushesTo s.hub.replayed a +
      if a = b then (unacknowledged s.hub.messageLog b now).length else 0 := by
  obtain ⟨new, hnew, hlength, husers⟩ := h.replayed
  rw [hnew, pushesTo_append, pushesTo_of_user (fun p hp => (husers p hp).1), hlength]

theorem Limited.pushed_step (hs : Limited json s) (hrecorded : Recorded json t) {b : ℤ}
    {now : DateTime} (h : Pushed json s b now t) : Limited json t := by
  refine ⟨hrecorded, fun p hp => ?_, fun n hn => ?_, fun n hn hfirst => ?_⟩
  · obtain ⟨new, hnew, -, hrows⟩ := h.replayed
    rw [hnew] at hp
    have hrow : ∃ m ∈ s.hub.messageLog.rows, m.id = p.row ∧ p.user = toString m.brokerId := by
      rcases List.mem_append.mp hp with hold | hp
      · exact hs.pushed p hold
      · obtain ⟨huser, m, hm, hid⟩ := hrows p hp
        obtain ⟨hm, hselected⟩ := mem_unacknowledged.mp hm
        exact ⟨m, hm, hid, hselected.brokerId.symm ▸ huser⟩
    obtain ⟨m, hm, hid, huser⟩ := hrow
    have hlog : OnlyRetries s.hub.messageLog t.hub.messageLog :=
      h.connected.log ▸ countFirst_onlyRetries _ _
    obtain ⟨n, hn, heq⟩ := hlog.symm.exists_row hm
    rw [heq] at hid huser
    exact ⟨n, hn, hid, huser⟩
  · rw [h.connected.log] at hn ⊢
    obtain ⟨m, hm, -, hbroker, hfirst, hretries⟩ := mem_countFirst hn
    rw [hretries, hs.counters m hm, hfirst, hbroker, h.pushesTo]
    cases isFirstOfBroker s.hub.messageLog m with
    | false => simp
    | true => simp
  · rw [h.connected.log] at hn hfirst
    obtain ⟨m, hm, hid, hbroker, hfirst', -⟩ := mem_countFirst hn
    rw [hfirst'] at hfirst
    rw [h.connected.replayed, hid]
    have hbound := hs.bounded m hm hfirst
    by_cases hselected : m ∈ unacknowledged s.hub.messageLog b now
    · have hretries := (mem_unacknowledged.mp hselected).2.retries
      rw [hs.counters m hm, if_pos hfirst] at hretries
      have hle := hs.timesReplayed_le hm
      rw [(count_unacknowledged hm).1 hselected]
      omega
    · rw [(count_unacknowledged hm).2 hselected]
      omega

theorem Limited.unchanged (hs : Limited json s) (hrecorded : Recorded json t)
    (hlog : t.hub.messageLog = s.hub.messageLog) (hreplayed : t.hub.replayed = s.hub.replayed) :
    Limited json t where
  recorded := hrecorded
  pushed := by
    rw [hlog, hreplayed]
    exact hs.pushed
  counters := by
    rw [CountsOnFirst, hlog, hreplayed]
    exact hs.counters
  bounded := by
    rw [hlog, hreplayed]
    exact hs.bounded

theorem Limited.complete (hs : Limited json s) (correlationId : Guid) (now : DateTime)
    (hrecorded : Recorded json t)
    (hlog : t.hub.messageLog = completeCorrelatedMessages s.hub.messageLog correlationId now)
    (hreplayed : t.hub.replayed = s.hub.replayed) : Limited json t := by
  have hbroker : ∀ m : MessageLog Json, (AuditEndpoint.complete correlationId now m).brokerId =
      m.brokerId := fun m => (complete_sameRecord correlationId now m).brokerId
  have hfirst : ∀ m, isFirstOfBroker (completeCorrelatedMessages s.hub.messageLog correlationId
      now) (AuditEndpoint.complete correlationId now m) = isFirstOfBroker s.hub.messageLog m :=
    fun m => isFirstOfBroker_update _ hbroker
  refine ⟨hrecorded, fun p hp => ?_, fun n hn => ?_, fun n hn => ?_⟩
  · rw [hreplayed] at hp
    obtain ⟨m, hm, hid, huser⟩ := hs.pushed p hp
    rw [hlog]
    refine ⟨_, List.mem_map_of_mem hm, ?_, ?_⟩
    · rw [complete_id, hid]
    · rw [hbroker, huser]
  · rw [hlog] at hn ⊢
    obtain ⟨m, hm, rfl⟩ := List.mem_map.mp hn
    rw [complete_retries, hfirst, hbroker, hreplayed]
    exact hs.counters m hm
  · rw [hlog] at hn ⊢
    obtain ⟨m, hm, rfl⟩ := List.mem_map.mp hn
    rw [hfirst, complete_id, hreplayed]
    exact hs.bounded m hm

theorem Limited.audited (hs : Limited json s) (message : StandardAuditMessage)
    (headers : Headers) :
    Limited json (HubRuns.step json s (.audited message headers)) := by
  refine ⟨hs.recorded.step (.audited message headers), fun p hp => ?_, fun n hn => ?_,
    fun n hn hfirst => ?_⟩
  · obtain ⟨m, hm, hid, huser⟩ := hs.pushed p hp
    exact ⟨m, List.mem_append_left _ hm, hid, huser⟩
  · change n.retries = if isFirstOfBroker (s.hub.messageLog.insert (create json message headers)
      (create_id json message headers)) n = true then pushesTo s.hub.replayed n.brokerId else 0
    rcases List.mem_append.mp hn with hold | hnew
    · rw [isFirstOfBroker_insert _ hold]
      exact hs.counters n hold
    · rw [List.mem_singleton.mp hnew]
      split
      · next hfirst =>
        have hnone := no_row_of_isFirstOfBroker_new _ hfirst
        refine (List.countP_eq_zero.mpr fun p hp heq => ?_).symm
        obtain ⟨m, hm, -, huser⟩ := hs.pushed p hp
        exact hnone m hm (toString_injective (huser.symm.trans (beq_iff_eq.mp heq)))
      · rfl
  · change timesReplayed s.hub.replayed n.id ≤ 10
    rcases List.mem_append.mp hn with hold | hnew
    · refine hs.bounded n hold ?_
      rw [← isFirstOfBroker_insert (create_id json message headers) hold]
      exact hfirst
    · have hzero := timesReplayed_eq_zero hs.recorded.below
      rw [List.mem_singleton.mp hnew, create_id, hzero]
      exact Nat.zero_le 10

theorem Limited.step (hs : Limited json s) {e : HubEvent}
    (h : (undisturbed json).step s e = some t) : Limited json t := by
  have hrecorded : Recorded json t := by
    rw [undisturbed_step h]
    exact hs.recorded.step e
  cases e with
  | onConnected context env =>
      obtain ⟨b, -, hpushed⟩ := pushed_onConnected hs.recorded h
      exact hs.pushed_step hrecorded hpushed
  | onReconnected context env =>
      obtain rfl := Option.some.inj h
      obtain ⟨hlog, hreplayed⟩ := onReconnected_log context env s.hub
      exact hs.unchanged hrecorded hlog hreplayed
  | onDisconnected context env =>
      obtain rfl := Option.some.inj h
      obtain ⟨hlog, hreplayed⟩ := onDisconnected_log context env s.hub
      exact hs.unchanged hrecorded hlog hreplayed
  | audited message headers =>
      obtain rfl := Option.some.inj h
      exact hs.audited message headers
  | posted ack now =>
      obtain rfl := Option.some.inj h
      cases hsuccess : ack.success with
      | false =>
          refine hs.unchanged hrecorded ?_ rfl
          simp [HubRuns.step, HubRun.withLog, post, hsuccess]
      | true =>
          refine hs.complete ack.correlationId now hrecorded ?_ rfl
          simp [HubRuns.step, HubRun.withLog, post, hsuccess]
  | completed correlationId now =>
      obtain rfl := Option.some.inj h
      exact hs.complete correlationId now hrecorded rfl rfl

/-- A connect replays the row as often as it meets it. -/
theorem Limited.balance (hs : Limited json s) {e : HubEvent}
    (h : (undisturbed json).step s e = some t) (row : ℕ) :
    timesReplayed t.hub.replayed row =
      timesReplayed s.hub.replayed row + meetsRow row s e := by
  cases e with
  | onConnected context env =>
      obtain ⟨b, hbroker, hpushed⟩ := pushed_onConnected hs.recorded h
      rw [hpushed.connected.replayed, meetsRow, hbroker, List.count, List.countP_map,
        unacknowledged, List.countP_filter]
      congr 1
      refine List.countP_congr fun m hm => ?_
      rw [hs.isUnacknowledged_eq hm]
      rfl
  | onReconnected context env =>
      obtain rfl := Option.some.inj h
      exact congrArg (timesReplayed · row) (onReconnected_log context env s.hub).2
  | onDisconnected context env =>
      obtain rfl := Option.some.inj h
      exact congrArg (timesReplayed · row) (onDisconnected_log context env s.hub).2
  | audited message headers =>
      obtain rfl := Option.some.inj h
      rfl
  | posted ack now =>
      obtain rfl := Option.some.inj h
      rfl
  | completed correlationId now =>
      obtain rfl := Option.some.inj h
      rfl

end Steps

/-- In every run whose connects return, a first row's counter is the number of pushes to
its broker and the other counters are zero. Each row has been replayed once by each connect
of its broker that met it open, save that a first row is withheld after ten pushes to the
broker; a first row has been replayed ten times at most. -/
theorem limit_withholds_first_rows_only (json : JsonSerializer Json) (events : List HubEvent)
    {s : HubRun Json} (h : (undisturbed json).run (undisturbed json).init events = some s) :
    CountsOnFirst s ∧ ∀ m ∈ s.hub.messageLog.rows,
      timesReplayed s.hub.replayed m.id =
          (undisturbed json).tally (meetsRow m.id) (undisturbed json).init events ∧
        (isFirstOfBroker s.hub.messageLog m = true → timesReplayed s.hub.replayed m.id ≤ 10) := by
  have hstart : Limited json (undisturbed json).init :=
    ⟨⟨AllStored.empty json, nofun⟩, nofun, nofun, nofun⟩
  have hs : Limited json s :=
    (Machine.always_of_step (fun _ _ _ hs => hs.step) events hstart).last h
  refine ⟨hs.counters, fun m hm => ⟨?_, hs.bounded m hm⟩⟩
  have htimes : timesReplayed s.hub.replayed m.id = 0 +
      (undisturbed json).tally (meetsRow m.id) (undisturbed json).init events :=
    Machine.run_gains (fun _ _ _ hs => hs.step) (fun _ _ _ hs hstep => hs.balance hstep m.id)
      hstart h
  rwa [Nat.zero_add] at htimes

/-- The first row of two is withheld after five replays, the second one never. -/
theorem second_row_replayed_at_each_connect :
    ∃ s, (undisturbed JsonSerializer.transparent).run
        (undisturbed JsonSerializer.transparent).init twoRowsElevenConnects = some s ∧
      CountsOnFirst s ∧ pushesTo s.hub.replayed 123 = 16 ∧
      timesReplayed s.hub.replayed 1 = 5 ∧ timesReplayed s.hub.replayed 2 = 11 ∧
      (undisturbed JsonSerializer.transparent).tally (meetsRow 1)
        (undisturbed JsonSerializer.transparent).init twoRowsElevenConnects = 5 := by
  have hrun : ((undisturbed JsonSerializer.transparent).run
      (undisturbed JsonSerializer.transparent).init twoRowsElevenConnects).map
        (fun s => (s.hub.messageLog.rows.map MessageLog.id, pushesTo s.hub.replayed 123,
          timesReplayed s.hub.replayed 1, timesReplayed s.hub.replayed 2)) =
      some ([1, 2], 16, 5, 11) := by decide +kernel
  obtain ⟨s, hs, hfinal⟩ := Option.map_eq_some_iff.mp hrun
  simp only [Prod.mk.injEq] at hfinal
  obtain ⟨hrows, hpushes, hfirst, hsecond⟩ := hfinal
  obtain ⟨hcounters, htimes⟩ :=
    limit_withholds_first_rows_only JsonSerializer.transparent twoRowsElevenConnects hs
  refine ⟨s, hs, hcounters, hpushes, hfirst, hsecond, ?_⟩
  have hmem : 1 ∈ s.hub.messageLog.rows.map MessageLog.id := by
    rw [hrows]
    exact List.mem_cons_self
  obtain ⟨m, hm, hid⟩ := List.mem_map.mp hmem
  have hone := (htimes m hm).1
  rw [hid, hfirst] at hone
  exact hone.symm

end ReliableSignalR.ReplayLimit
