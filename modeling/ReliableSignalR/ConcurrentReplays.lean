import ReliableSignalR.EventRuns
import ReliableSignalR.SharedCounter
import ReliableSignalR.HubRuns
import Mathlib.Algebra.Ring.Nat

/-!
# Concurrent replays of one broker

Each replay has an `AuditContext` of its own. The query loads rows and tracks them;
`First` finds the broker's first row again, but a tracked row keeps its values in
memory. So the transaction around the update increments a copy that may be older
than the transaction, and the copies of several replays increment one column.

Reads see committed values. A write is seen by others from the commit on, and until
then no other replay writes the row.
-/
namespace ReliableSignalR.ConcurrentReplays
open DotNet Messages KeyedTable EventRuns AuditEndpoint BackOfficeHub SharedCounter
open HubRuns (insertCommand)

variable {Json : Type}

inductive Phase
  | started
  | looping
  | pushed
  /-- The counter of this row has been incremented in memory. -/
  | incremented (id : ℕ)
  /-- This counter has been written to this row; the transaction is open. -/
  | saved (id retries : ℕ)
  | disposed
deriving DecidableEq, Repr

structure ActiveReplay (Json : Type) where
  /-- The rows that the context tracks, with their values in memory. -/
  tracked : List (MessageLog Json)
  remaining : List InsertDocumentIntoRemoteBackOfficeCommand
  phase : Phase

namespace ActiveReplay

def start : ActiveReplay Json := ⟨[], [], .started⟩

/-- The lifetime scope is left, at the end or by an exception; an open transaction
is rolled back. -/
def dispose : ActiveReplay Json := ⟨[], [], .disposed⟩

def inMemory (p : ActiveReplay Json) (id : ℕ) : Option ℕ :=
  (p.tracked.find? fun m => m.id == id).map MessageLog.retries

/-- A query returns a row: it is tracked from now on, unless it was before. -/
def track (p : ActiveReplay Json) (row : MessageLog Json) : ActiveReplay Json :=
  if (p.inMemory row.id).isSome then p else { p with tracked := p.tracked ++ [row] }

/-- `messageToUpdate.Retries ++` -/
def increment (p : ActiveReplay Json) (id : ℕ) : ActiveReplay Json :=
  { p with
    tracked := p.tracked.map fun m => if m.id = id then { m with retries := m.retries + 1 } else m
    phase := .incremented id }

end ActiveReplay

structure ReplayState (Json : Type) where
  messageLog : AuditTable Json
  replays : List (ActiveReplay Json)
  committed : ℕ

inductive Act
  | getUnacknowledgedMessages (now : DateTime)
  | resendUnacknowledgedMessageToRemoteClient
  | first
  | saveChanges
  | dispose
deriving DecidableEq, Repr

inductive ReplayEvent
  | started
  | performed (i : ℕ) (act : Act)
  | committed (i : ℕ)
deriving DecidableEq, Repr

def firstOf (log : AuditTable Json) (brokerId : ℤ) : Option (MessageLog Json) :=
  log.first? fun a => a.brokerId == brokerId

section Steps
variable (json : JsonSerializer Json) (brokerId : ℤ)

def ActiveReplay.perform (log : AuditTable Json) (locked : ℕ → Bool) (p : ActiveReplay Json) :
    Act → Option (ActiveReplay Json)
  | .getUnacknowledgedMessages now =>
      if p.phase = .started then
        match deserializeAll json (unacknowledged log brokerId now) with
        | .error _ => some dispose
        | .ok read => some ⟨read.map Prod.fst, read.map Prod.snd, .looping⟩
      else none
  | .resendUnacknowledgedMessageToRemoteClient =>
      if p.phase = .looping ∧ p.remaining ≠ [] then some { p with phase := .pushed } else none
  | .first =>
      match p.phase, p.remaining with
      | .pushed, replayedMessage :: _ =>
          match firstOf log replayedMessage.brokerId with
          | none => some dispose
          | some messageToUpdate =>
              some ((p.track messageToUpdate).increment messageToUpdate.id)
      | _, _ => none
  | .saveChanges =>
      match p.phase with
      | .incremented id =>
          if locked id then none
          else (p.inMemory id).map fun retries => { p with phase := .saved id retries }
      | _ => none
  | .dispose => some dispose

/-- Only the changed column is written. -/
def setRetries (log : AuditTable Json) (id retries : ℕ) : AuditTable Json :=
  log.update (fun m => if m.id = id then { m with retries := retries } else m)
    fun m => by split <;> rfl

/-- Some replay has written the row and not committed. -/
def ReplayState.locked (s : ReplayState Json) (id : ℕ) : Bool :=
  s.replays.any fun p => match p.phase with
    | .saved written _ => written == id
    | _ => false

def step (s : ReplayState Json) : ReplayEvent → Option (ReplayState Json)
  | .started => some { s with replays := s.replays ++ [.start] }
  | .performed i act =>
      s.replays[i]?.bind fun p =>
        (p.perform json brokerId s.messageLog s.locked act).map fun q =>
          { s with replays := s.replays.set i q }
  | .committed i =>
      s.replays[i]?.bind fun p =>
        match p.phase with
        | .saved id retries =>
            some ⟨setRetries s.messageLog id retries,
              s.replays.set i { p with remaining := p.remaining.tail, phase := .looping },
              s.committed + 1⟩
        | _ => none

/-- A log whose rows were made by the audit endpoint. -/
structure AuditedLog where
  log : AuditTable Json
  stored : AllStored json log

def replays (audited : AuditedLog json) : Machine (ReplayState Json) ReplayEvent where
  init := ⟨audited.log, [], 0⟩
  step := step json brokerId

end Steps

/-- The sum of `Retries` over the rows of a broker. -/
def retriesOf (log : AuditTable Json) (brokerId : ℤ) : ℕ :=
  ((log.rows.filter fun a => a.brokerId == brokerId).map MessageLog.retries).sum

/-- At a commit the counter in the table still is the one that was incremented. -/
def CopyIsCurrent (s : ReplayState Json) : ReplayEvent → Prop
  | .committed i => ∀ p id retries, s.replays[i]? = some p → p.phase = .saved id retries →
      ∀ m ∈ s.messageLog.rows, m.id = id → m.retries + 1 = retries
  | _ => True

def keyOf (log : AuditTable Json) (brokerId : ℤ) : Option ℕ :=
  (firstOf log brokerId).map MessageLog.id

def counterOf (log : AuditTable Json) (brokerId : ℤ) : ℕ :=
  ((firstOf log brokerId).map MessageLog.retries).getD 0

/-- The value that a replay increments: between `Retries ++` and the commit the
context holds its successor. -/
def ActiveReplay.copy (p : ActiveReplay Json) (id : ℕ) : Option ℕ :=
  match p.phase with
  | .incremented _ | .saved _ _ => (p.inMemory id).map Nat.pred
  | _ => p.inMemory id

def copyOf (key : Option ℕ) (p : ActiveReplay Json) : Option ℕ := key.bind p.copy

/-- The counter that the replays of a broker share, with their copies of it. -/
def ReplayState.counter (brokerId : ℤ) (key : Option ℕ) (s : ReplayState Json) : Counter ℕ where
  value := counterOf s.messageLog brokerId
  copy i := s.replays[i]?.bind (copyOf key)
  increments := s.committed

section Copies
variable {p : ActiveReplay Json}

theorem inMemory_track (row : MessageLog Json) :
    (p.track row).inMemory row.id = some ((p.inMemory row.id).getD row.retries) := by
  unfold ActiveReplay.track
  cases hin : p.inMemory row.id with
  | some k => rw [Option.isSome_some, if_pos rfl, hin, Option.getD_some]
  | none =>
      rw [Option.isSome_none, if_neg Bool.false_ne_true, Option.getD_none]
      have hfind : p.tracked.find? (fun m => m.id == row.id) = none := Option.map_eq_none_iff.mp hin
      rw [ActiveReplay.inMemory, List.find?_append, hfind]
      simp

theorem inMemory_increment (id : ℕ) :
    (p.increment id).inMemory id = (p.inMemory id).map Nat.succ := by
  have hsame : ((fun m : MessageLog Json => m.id == id) ∘ fun m =>
      if m.id = id then { m with retries := m.retries + 1 } else m) = fun m => m.id == id := by
    funext m
    simp only [Function.comp_apply]
    split <;> rfl
  rw [ActiveReplay.inMemory, ActiveReplay.increment, List.find?_map, hsame, ActiveReplay.inMemory,
    Option.map_map, Option.map_map]
  refine Option.map_congr fun m hm => ?_
  have hid : (m.id == id) = true := List.find?_some (p := fun m : MessageLog Json => m.id == id) hm
  simp [beq_iff_eq.mp hid]

end Copies

/-- Before the query nothing is tracked; from `First` to the commit the context
holds the first row with a counter that has been incremented. -/
def HoldsFirst (key : Option ℕ) (p : ActiveReplay Json) : Prop :=
  match p.phase with
  | .started => p.tracked = []
  | .incremented id => key = some id ∧ ∃ k, p.inMemory id = some (k + 1)
  | .saved id retries => key = some id ∧ ∃ k, p.inMemory id = some (k + 1) ∧ k + 1 = retries
  | _ => True

/-- What a replay has in hand agrees with the log. -/
structure Coherent (key : Option ℕ) (brokerId : ℤ) (p : ActiveReplay Json) : Prop where
  commands : ∀ c ∈ p.remaining, c.brokerId = brokerId
  row : HoldsFirst key p

section Acts
variable {json : JsonSerializer Json} {brokerId : ℤ} {log : AuditTable Json} {key : Option ℕ}
  {locked : ℕ → Bool} {p q : ActiveReplay Json}

theorem coherent_start : Coherent key brokerId (.start : ActiveReplay Json) :=
  ⟨fun _ hc => absurd hc List.not_mem_nil, rfl⟩

theorem coherent_dispose : Coherent key brokerId (.dispose : ActiveReplay Json) :=
  ⟨fun _ hc => absurd hc List.not_mem_nil, trivial⟩

theorem copyOf_dispose : copyOf key (.dispose : ActiveReplay Json) = none := by
  cases key <;> rfl

/-- A replay that holds no row in memory has no copy. -/
theorem copyOf_of_untracked (h : p.tracked = []) : copyOf key p = none := by
  cases key with
  | none => rfl
  | some id =>
      rw [copyOf, Option.bind_some, ActiveReplay.copy]
      simp only [ActiveReplay.inMemory, h, List.find?_nil, Option.map_none]
      split <;> rfl

/-- The copy that a replay has after one of its own acts: the one from before, the
counter as it is in the table, or none. -/
def CopyMoves (key : Option ℕ) (value : ℕ) (p q : ActiveReplay Json) : Prop :=
  copyOf key q = copyOf key p ∨ copyOf key q = some value ∨ copyOf key q = none

theorem keyOf_of_firstOf {m : MessageLog Json} (h : firstOf log brokerId = some m) :
    keyOf log brokerId = some m.id ∧ counterOf log brokerId = m.retries := by
  rw [keyOf, counterOf, h]
  exact ⟨rfl, rfl⟩

/-- The query tracks the first row with the counter in the table, or not at all. -/
theorem copyMoves_query {rows : List (MessageLog Json)} (hrows : ∀ m ∈ rows, m ∈ log.rows)
    (remaining : List InsertDocumentIntoRemoteBackOfficeCommand) :
    CopyMoves (keyOf log brokerId) (counterOf log brokerId) p ⟨rows, remaining, .looping⟩ := by
  cases hfirst : firstOf log brokerId with
  | none =>
      rw [keyOf, hfirst]
      exact Or.inr (Or.inr rfl)
  | some m =>
      obtain ⟨hkey, hcounter⟩ := keyOf_of_firstOf hfirst
      rw [hkey, hcounter]
      cases hfind : rows.find? fun a => a.id == m.id with
      | none =>
          refine Or.inr (Or.inr ?_)
          simp [copyOf, ActiveReplay.copy, ActiveReplay.inMemory, hfind]
      | some a =>
          have hid : (a.id == m.id) = true :=
            List.find?_some (p := fun a : MessageLog Json => a.id == m.id) hfind
          have ha := hrows a (List.mem_of_find?_eq_some hfind)
          have heq : a = m :=
            Table.eq_of_key_eq ha (Table.mem_of_first? hfirst).1 (beq_iff_eq.mp hid)
          refine Or.inr (Or.inl ?_)
          simp [copyOf, ActiveReplay.copy, ActiveReplay.inMemory, hfind, heq]

theorem perform_getUnacknowledgedMessages (hlog : AllStored json log)
    {now : DateTime}
    (h : p.perform json brokerId log locked (.getUnacknowledgedMessages now) = some q) :
    Coherent (keyOf log brokerId) brokerId q ∧
      CopyMoves (keyOf log brokerId) (counterOf log brokerId) p q := by
  obtain ⟨-, h⟩ := Option.ite_none_right_eq_some.mp h
  cases hread : deserializeAll json (unacknowledged log brokerId now) with
  | error e =>
      simp only [hread, Option.some.injEq] at h
      subst h
      exact ⟨coherent_dispose, Or.inr (Or.inr copyOf_dispose)⟩
  | ok read =>
      simp only [hread, Option.some.injEq] at h
      subst h
      refine ⟨⟨fun c hc => ?_, trivial⟩, copyMoves_query (fun m hm => ?_) _⟩
      · obtain ⟨m, hm, rfl⟩ := List.mem_map.mp hc
        exact read_brokerId hlog hread m hm
      · rw [(deserializeAll_ok hread).1] at hm
        exact (mem_unacknowledged.mp hm).1

theorem perform_first (hp : Coherent (keyOf log brokerId) brokerId p)
    (h : p.perform json brokerId log locked .first = some q) :
    Coherent (keyOf log brokerId) brokerId q ∧
      CopyMoves (keyOf log brokerId) (counterOf log brokerId) p q := by
  simp only [ActiveReplay.perform] at h
  split at h
  · next replayedMessage rest hphase hremaining =>
    have hbroker : replayedMessage.brokerId = brokerId :=
      hp.commands _ (hremaining ▸ List.mem_cons_self)
    rw [hbroker] at h
    cases hfirst : firstOf log brokerId with
    | none =>
        simp only [hfirst, Option.some.injEq] at h
        subst h
        exact ⟨coherent_dispose, Or.inr (Or.inr copyOf_dispose)⟩
    | some row =>
        simp only [hfirst, Option.some.injEq] at h
        subst h
        obtain ⟨hkey, hcounter⟩ := keyOf_of_firstOf hfirst
        have hmemory := inMemory_increment (p := p.track row) row.id
        rw [inMemory_track, Option.map_some] at hmemory
        have hcommands : ((p.track row).increment row.id).remaining = p.remaining := by
          unfold ActiveReplay.track
          split <;> rfl
        refine ⟨⟨hcommands ▸ hp.commands, hkey, _, hmemory⟩, ?_⟩
        rw [hkey, hcounter]
        have hcopy : copyOf (some row.id) ((p.track row).increment row.id) =
            some ((p.inMemory row.id).getD row.retries) := by
          change ((((p.track row).increment row.id).inMemory row.id).map Nat.pred) = _
          rw [hmemory]
          rfl
        have hbefore : copyOf (some row.id) p = p.inMemory row.id := by
          rw [copyOf, Option.bind_some, ActiveReplay.copy, hphase]
        cases hin : p.inMemory row.id with
        | some k => exact Or.inl (by rw [hcopy, hbefore, hin, Option.getD_some])
        | none => exact Or.inr (Or.inl (by rw [hcopy, hin, Option.getD_none]))
  · cases h

theorem Coherent.perform (hlog : AllStored json log) (hp : Coherent (keyOf log brokerId) brokerId p)
    {act : Act} (h : p.perform json brokerId log locked act = some q) :
    Coherent (keyOf log brokerId) brokerId q ∧
      CopyMoves (keyOf log brokerId) (counterOf log brokerId) p q := by
  cases act with
  | getUnacknowledgedMessages now => exact perform_getUnacknowledgedMessages hlog h
  | resendUnacknowledgedMessageToRemoteClient =>
      obtain ⟨⟨hphase, -⟩, rfl⟩ := guarded h
      refine ⟨⟨hp.commands, trivial⟩, Or.inl ?_⟩
      have hsame : ActiveReplay.copy { p with phase := .pushed } = p.copy := by
        funext id
        rw [ActiveReplay.copy, ActiveReplay.copy, hphase]
        rfl
      rw [copyOf, copyOf, hsame]
  | first => exact perform_first hp h
  | saveChanges =>
      simp only [ActiveReplay.perform] at h
      split at h
      · next id hphase =>
        obtain ⟨-, h⟩ := Option.ite_none_left_eq_some.mp h
        obtain ⟨retries, hretries, rfl⟩ := Option.map_eq_some_iff.mp h
        have hrow := hp.row
        rw [HoldsFirst, hphase] at hrow
        obtain ⟨hkey, k, hk⟩ := hrow
        refine ⟨⟨hp.commands, hkey, k, hk, Option.some.inj (hk.symm.trans hretries)⟩, Or.inl ?_⟩
        have hsame : ActiveReplay.copy { p with phase := .saved id retries } = p.copy := by
          funext j
          rw [ActiveReplay.copy, ActiveReplay.copy, hphase]
          rfl
        rw [copyOf, copyOf, hsame]
      · cases h
  | dispose =>
      obtain rfl := Option.some.inj h
      exact ⟨coherent_dispose, Or.inr (Or.inr copyOf_dispose)⟩

end Acts

section Commit
variable {log : AuditTable Json} {brokerId : ℤ} {m : MessageLog Json}

theorem firstOf_setRetries (h : firstOf log brokerId = some m) (retries : ℕ) :
    firstOf (setRetries log m.id retries) brokerId = some { m with retries := retries } := by
  rw [firstOf, setRetries, Table.first?_update fun a => by split <;> rfl]
  change Option.map _ (firstOf log brokerId) = _
  rw [h, Option.map_some, if_pos rfl]

theorem setRetries_stored {json : JsonSerializer Json} (h : AllStored json log) (id retries : ℕ) :
    AllStored json (setRetries log id retries) := by
  apply h.update
  intro a
  split
  · exact ⟨rfl, rfl, rfl, rfl, rfl, rfl, rfl, rfl⟩
  · exact ⟨rfl, rfl, rfl, rfl, rfl, rfl, rfl, rfl⟩

/-- The sum changes by what the first row's counter changes. -/
theorem retriesOf_setRetries (h : firstOf log brokerId = some m) (retries : ℕ) :
    retriesOf (setRetries log m.id retries) brokerId + m.retries =
      retriesOf log brokerId + retries := by
  have hsame : ((fun a : MessageLog Json => a.brokerId == brokerId) ∘ fun a =>
      if a.id = m.id then { a with retries := retries } else a) =
        fun a => a.brokerId == brokerId := by
    funext a
    simp only [Function.comp_apply]
    split <;> rfl
  have hsorted := log.sorted.filter fun a => a.brokerId == brokerId
  have hhead : (log.rows.filter fun a => a.brokerId == brokerId).head? = some m := by
    rw [List.head?_filter]
    exact h
  rw [retriesOf, retriesOf, setRetries, Table.rows_update, List.filter_map, hsame]
  cases hrows : log.rows.filter fun a => a.brokerId == brokerId with
  | nil =>
      rw [hrows] at hhead
      cases hhead
  | cons a rest =>
      rw [hrows] at hhead hsorted
      obtain rfl := Option.some.inj hhead
      have hrest : rest.map (fun b => if b.id = a.id then { b with retries := retries } else b) =
          rest := by
        refine (List.map_congr_left fun b hb => ?_).trans (List.map_id _)
        have hlt := List.rel_of_pairwise_cons hsorted hb
        exact if_neg (Nat.ne_of_gt hlt)
      simp only [List.map_cons, hrest, if_pos, List.sum_cons]
      omega

end Commit

/-- What holds in every run from this log: the first row stays the first, and only
its counter changes the sum. -/
structure Consistent (json : JsonSerializer Json) (brokerId : ℤ) (initial : AuditTable Json)
    (s : ReplayState Json) : Prop where
  stored : AllStored json s.messageLog
  key : keyOf s.messageLog brokerId = keyOf initial brokerId
  coherent : ∀ p ∈ s.replays, Coherent (keyOf initial brokerId) brokerId p
  sum : retriesOf s.messageLog brokerId + counterOf initial brokerId =
    retriesOf initial brokerId + counterOf s.messageLog brokerId

section Runs
variable {json : JsonSerializer Json} {brokerId : ℤ} {initial : AuditTable Json}
  {s t : ReplayState Json}

theorem counter_set {key : Option ℕ} {i : ℕ} {p q : ActiveReplay Json} {log : AuditTable Json}
    {committed : ℕ} (hi : s.replays[i]? = some p) :
    ReplayState.counter brokerId key ⟨log, s.replays.set i q, committed⟩ =
      ⟨counterOf log brokerId,
        Function.update (s.counter brokerId key).copy i (copyOf key q), committed⟩ := by
  rw [ReplayState.counter]
  congr 1
  funext j
  by_cases hj : j = i
  · subst hj
    have hlt := (List.getElem?_eq_some_iff.mp hi).1
    rw [Function.update_self, List.getElem?_set_self hlt, Option.bind_some]
  · rw [Function.update_of_ne hj, List.getElem?_set_ne (Ne.symm hj)]
    rfl

theorem counter_copy {key : Option ℕ} {i : ℕ} {p : ActiveReplay Json}
    (hi : s.replays[i]? = some p) : (s.counter brokerId key).copy i = copyOf key p := by
  rw [ReplayState.counter]
  simp only [hi, Option.bind_some]

theorem coherent_set {key : Option ℕ} {i : ℕ} {q : ActiveReplay Json}
    (h : ∀ p ∈ s.replays, Coherent key brokerId p) (hq : Coherent key brokerId q) :
    ∀ p ∈ s.replays.set i q, Coherent key brokerId p := by
  intro p hp
  rcases List.mem_or_eq_of_mem_set hp with hp | rfl
  · exact h p hp
  · exact hq

/-- A new replay has no copy. -/
theorem Consistent.started (h : Consistent json brokerId initial s) :
    Consistent json brokerId initial { s with replays := s.replays ++ [.start] } ∧
      ReplayState.counter brokerId (keyOf initial brokerId)
        { s with replays := s.replays ++ [.start] } =
          s.counter brokerId (keyOf initial brokerId) := by
  refine ⟨⟨h.stored, h.key, fun p hp => ?_, h.sum⟩, ?_⟩
  · rcases List.mem_append.mp hp with hp | hp
    · exact h.coherent p hp
    · rw [List.mem_singleton.mp hp]
      exact coherent_start
  · rw [ReplayState.counter, ReplayState.counter]
    congr 1
    funext j
    by_cases hj : j < s.replays.length
    · rw [List.getElem?_append_left hj]
    · rw [List.getElem?_append_right (Nat.le_of_not_lt hj),
        List.getElem?_eq_none (Nat.le_of_not_lt hj)]
      cases hlast : [(ActiveReplay.start : ActiveReplay Json)][j - s.replays.length]? with
      | none => rfl
      | some p =>
          have hp := List.mem_singleton.mp (List.mem_of_getElem? hlast)
          rw [Option.bind_some, Option.bind_none, hp]
          exact copyOf_of_untracked rfl

theorem Consistent.performed (h : Consistent json brokerId initial s) {i : ℕ} {act : Act}
    (hstep : step json brokerId s (.performed i act) = some t) :
    Consistent json brokerId initial t ∧
      Counter.Simulates (ReplayState.counter brokerId (keyOf initial brokerId)) CopyIsCurrent s
        (.performed i act) t := by
  obtain ⟨p, hp, hstep⟩ := Option.bind_eq_some_iff.mp hstep
  obtain ⟨q, hq, rfl⟩ := Option.map_eq_some_iff.mp hstep
  have hcoherent := h.coherent p (List.mem_of_getElem? hp)
  rw [← h.key] at hcoherent
  obtain ⟨hqcoherent, hmoves⟩ := hcoherent.perform h.stored hq
  rw [h.key] at hqcoherent hmoves
  refine ⟨⟨h.stored, h.key, coherent_set h.coherent hqcoherent, h.sum⟩, ?_⟩
  rcases hmoves with hsame | hload | hforget
  · refine Or.inl ⟨?_, trivial⟩
    rw [counter_set hp, hsame, ← counter_copy hp, Function.update_eq_self]
    rfl
  · refine Or.inr ⟨.load i, ?_, Iff.rfl⟩
    rw [counter_set hp, hload]
    rfl
  · refine Or.inr ⟨.forget i, ?_, Iff.rfl⟩
    rw [counter_set hp, hforget]
    rfl

/-- A replay that is about to commit has written the successor of its copy to the
first row. -/
theorem Consistent.committing (h : Consistent json brokerId initial s) {i id retries : ℕ}
    {p : ActiveReplay Json} (hp : s.replays[i]? = some p) (hphase : p.phase = .saved id retries) :
    ∃ m k, firstOf s.messageLog brokerId = some m ∧ m.id = id ∧
      keyOf initial brokerId = some id ∧ p.inMemory id = some (k + 1) ∧ k + 1 = retries ∧
        copyOf (keyOf initial brokerId) p = some k := by
  have hrow := (h.coherent p (List.mem_of_getElem? hp)).row
  rw [HoldsFirst, hphase] at hrow
  obtain ⟨hkey, k, hk, hretries⟩ := hrow
  obtain ⟨m, hm, hid⟩ := Option.map_eq_some_iff.mp (h.key.trans hkey)
  refine ⟨m, k, hm, hid, hkey, hk, hretries, ?_⟩
  rw [hkey, copyOf, Option.bind_some, ActiveReplay.copy, hphase]
  simp only [hk, Option.map_some, Nat.pred_succ]

theorem Consistent.copyIsCurrent_iff (h : Consistent json brokerId initial s) {i id retries : ℕ}
    {p : ActiveReplay Json} (hp : s.replays[i]? = some p) (hphase : p.phase = .saved id retries) :
    CopyIsCurrent s (.committed i) ↔
      copyOf (keyOf initial brokerId) p = some (counterOf s.messageLog brokerId) := by
  obtain ⟨m, k, hm, rfl, -, -, rfl, hcopy⟩ := h.committing hp hphase
  rw [hcopy, (keyOf_of_firstOf hm).2, Option.some.injEq]
  constructor
  · intro hcurrent
    have heq := hcurrent p m.id (k + 1) hp hphase m (Table.mem_of_first? hm).1 rfl
    exact (Nat.succ.inj heq).symm
  · intro hk q id retries hq hphase' a ha hid
    obtain rfl : p = q := Option.some.inj (hp.symm.trans hq)
    obtain ⟨rfl, rfl⟩ := Phase.saved.inj (hphase.symm.trans hphase')
    rw [Table.eq_of_key_eq ha (Table.mem_of_first? hm).1 hid, hk]

theorem committed_eq_some {i : ℕ} (hstep : step json brokerId s (.committed i) = some t) :
    ∃ p id retries, s.replays[i]? = some p ∧ p.phase = .saved id retries ∧
      ⟨setRetries s.messageLog id retries,
        s.replays.set i { p with remaining := p.remaining.tail, phase := .looping },
        s.committed + 1⟩ = t := by
  obtain ⟨p, hp, hstep⟩ := Option.bind_eq_some_iff.mp hstep
  split at hstep
  · next id retries hphase => exact ⟨p, id, retries, hp, hphase, Option.some.inj hstep⟩
  · cases hstep

theorem Consistent.committed (h : Consistent json brokerId initial s) {i : ℕ}
    (hstep : step json brokerId s (.committed i) = some t) :
    Consistent json brokerId initial t ∧
      Counter.Simulates (ReplayState.counter brokerId (keyOf initial brokerId)) CopyIsCurrent s
        (.committed i) t := by
  obtain ⟨p, id, retries, hp, hphase, rfl⟩ := committed_eq_some hstep
  have hcurrent := h.copyIsCurrent_iff hp hphase
  have hcoherent := h.coherent p (List.mem_of_getElem? hp)
  obtain ⟨m, k, hm, rfl, hkey, hk, rfl, hcopy⟩ := h.committing hp hphase
  obtain ⟨hkeyAfter, hcounter⟩ := keyOf_of_firstOf (firstOf_setRetries hm (k + 1))
  constructor
  · refine ⟨setRetries_stored h.stored m.id (k + 1), hkeyAfter.trans hkey.symm, ?_, ?_⟩
    · apply coherent_set h.coherent
      exact ⟨fun c hc => hcoherent.commands c (List.mem_of_mem_tail hc), trivial⟩
    · have hsum := h.sum
      have hchange := retriesOf_setRetries hm (k + 1)
      rw [(keyOf_of_firstOf hm).2] at hsum
      rw [hcounter]
      simp only
      omega
  · have hafter : copyOf (keyOf initial brokerId)
        { p with remaining := p.remaining.tail, phase := .looping } = some (k + 1) := hkey ▸ hk
    refine Or.inr ⟨.write i, ?_, ?_⟩
    · apply Counter.write_eq_some.mpr
      refine ⟨k, (counter_copy hp).trans hcopy, ?_⟩
      rw [counter_set hp, hafter, hcounter]
      rfl
    · rw [hcurrent, Counter.Fresh, counter_copy hp]
      rfl

theorem Consistent.step (h : Consistent json brokerId initial s) {e : ReplayEvent}
    (hstep : step json brokerId s e = some t) :
    Consistent json brokerId initial t ∧
      Counter.Simulates (ReplayState.counter brokerId (keyOf initial brokerId)) CopyIsCurrent
        s e t := by
  cases e with
  | started =>
      obtain rfl := Option.some.inj hstep
      exact ⟨h.started.1, Or.inl ⟨h.started.2, trivial⟩⟩
  | performed i act => exact h.performed hstep
  | committed i => exact h.committed hstep

theorem consistent_init (brokerId : ℤ) (audited : AuditedLog json) :
    Consistent json brokerId audited.log (replays json brokerId audited).init :=
  ⟨audited.stored, rfl, fun _ hp => absurd hp List.not_mem_nil, rfl⟩

end Runs

/-- For every log of the audit endpoint, any number of replays of the broker and any
interleaving of their steps, the sum of the counters has grown by the number of
committed updates precisely if each commit found the counter in the table as the
context had read it. -/
theorem no_increment_lost_exactly_when (json : JsonSerializer Json) (brokerId : ℤ)
    (audited : AuditedLog json) (events : List ReplayEvent) (t : ReplayState Json)
    (h : (replays json brokerId audited).run (replays json brokerId audited).init events = some t) :
    retriesOf t.messageLog brokerId = retriesOf audited.log brokerId + t.committed ↔
      (replays json brokerId audited).Meets CopyIsCurrent (replays json brokerId audited).init
        events := by
  have hinit := consistent_init brokerId audited
  have hkeep : ∀ s e u, Consistent json brokerId audited.log s →
      (replays json brokerId audited).step s e = some u →
        Consistent json brokerId audited.log u := fun s e u hs hu => (hs.step hu).1
  have hsum := ((Machine.always_of_step hkeep events hinit).last h).sum
  have hcomplete : Counter.Complete (counterOf audited.log brokerId)
      (ReplayState.counter brokerId (keyOf audited.log brokerId)
        (replays json brokerId audited).init) := ⟨rfl, fun i k hk => by cases hk⟩
  have hcounts := Counter.counts_iff_meets hkeep (fun s e u hs hu => (hs.step hu).2) hinit
    hcomplete h
  rw [← hcounts]
  change _ ↔ counterOf t.messageLog brokerId = counterOf audited.log brokerId + t.committed
  omega

/-- The log with one command of broker 123. -/
def oneCommand : AuditedLog JsonSerializer.transparent where
  log := handleStandardAuditMessage JsonSerializer.transparent Table.empty
    (.insertDocumentIntoRemoteBackOfficeCommand (insertCommand 7 123)) []
  stored := (AllStored.empty _).insert _ _

/-- The steps of one iteration of the loop. -/
def iteration (i : ℕ) : List ReplayEvent :=
  [.performed i .resendUnacknowledgedMessageToRemoteClient, .performed i .first,
    .performed i .saveChanges, .committed i]

/-- One replay after the other: both updates are counted. -/
theorem replays_in_turn :
    ∃ t, (replays JsonSerializer.transparent 123 oneCommand).run
        (replays JsonSerializer.transparent 123 oneCommand).init
        ([.started, .performed 0 (.getUnacknowledgedMessages 0)] ++ iteration 0 ++
          [.started, .performed 1 (.getUnacknowledgedMessages 0)] ++ iteration 1) = some t ∧
      retriesOf t.messageLog 123 = 2 ∧ t.committed = 2 ∧
      (replays JsonSerializer.transparent 123 oneCommand).Meets CopyIsCurrent
        (replays JsonSerializer.transparent 123 oneCommand).init
        ([.started, .performed 0 (.getUnacknowledgedMessages 0)] ++ iteration 0 ++
          [.started, .performed 1 (.getUnacknowledgedMessages 0)] ++ iteration 1) := by
  refine ⟨_, rfl, rfl, rfl, ?_⟩
  exact (no_increment_lost_exactly_when _ 123 oneCommand _ _ rfl).mp rfl

/-- Two replays that have both read the row before either of them writes it: two
updates are committed and one is counted. -/
theorem interleaved_replays_lose_increment :
    ∃ t, (replays JsonSerializer.transparent 123 oneCommand).run
        (replays JsonSerializer.transparent 123 oneCommand).init
        ([.started, .started, .performed 0 (.getUnacknowledgedMessages 0),
          .performed 1 (.getUnacknowledgedMessages 0)] ++ iteration 0 ++ iteration 1) = some t ∧
      t.committed = 2 ∧ retriesOf oneCommand.log 123 = 0 ∧ retriesOf t.messageLog 123 = 1 ∧
      retriesOf t.messageLog 123 ≠ retriesOf oneCommand.log 123 + t.committed :=
  ⟨_, rfl, rfl, rfl, rfl, by decide⟩

/-- The replay has run its query and has updates ahead of it. -/
def Active (p : ActiveReplay Json) : Prop :=
  match p.phase with
  | .started | .disposed => False
  | .looping => p.remaining ≠ []
  | _ => True

/-- The condition that the steps of a replay fall into no other replay. -/
def Alone (s : ReplayState Json) : ReplayEvent → Prop
  | .started => True
  | .performed i _ | .committed i => ∀ (j : ℕ) (q : ActiveReplay Json), j ≠ i →
      s.replays[j]? = some q → ¬Active q

/-- Replays with updates ahead of them hold the counter as it is in the table. -/
def CopiesCurrent (key : Option ℕ) (brokerId : ℤ) (s : ReplayState Json) : Prop :=
  ∀ (i : ℕ) (p : ActiveReplay Json), s.replays[i]? = some p → Active p →
    ∀ k ∈ copyOf key p, k = counterOf s.messageLog brokerId

section Alone
variable {json : JsonSerializer Json} {brokerId : ℤ} {initial : AuditTable Json}
  {s t : ReplayState Json}

/-- Only the query makes a replay active. -/
theorem started_of_perform {log : AuditTable Json} {locked : ℕ → Bool} {p q : ActiveReplay Json}
    {act : Act} (h : p.perform json brokerId log locked act = some q) (hq : Active q)
    (hp : ¬Active p) : p.phase = .started := by
  cases act with
  | getUnacknowledgedMessages now => exact (Option.ite_none_right_eq_some.mp h).1
  | resendUnacknowledgedMessageToRemoteClient =>
      obtain ⟨⟨hphase, hremaining⟩, -⟩ := guarded h
      exact absurd (by rw [Active, hphase]; exact hremaining) hp
  | first =>
      simp only [ActiveReplay.perform] at h
      split at h
      · next hphase _ => exact absurd (by rw [Active, hphase]; trivial) hp
      · cases h
  | saveChanges =>
      simp only [ActiveReplay.perform] at h
      split at h
      · next hphase => exact absurd (by rw [Active, hphase]; trivial) hp
      · cases h
  | dispose =>
      obtain rfl := Option.some.inj h
      exact absurd hq id

/-- If the others are not active, all copies are current that the replay leaves current. -/
theorem copiesCurrent_set {key : Option ℕ} {log : AuditTable Json} {committed i : ℕ}
    {q : ActiveReplay Json} (hothers : ∀ j p, j ≠ i → s.replays[j]? = some p → ¬Active p)
    (hq : Active q → ∀ k ∈ copyOf key q, k = counterOf log brokerId) :
    CopiesCurrent key brokerId ⟨log, s.replays.set i q, committed⟩ := by
  intro j p hj hactive
  by_cases hji : j = i
  · subst hji
    have hlt := (List.getElem?_eq_some_iff.mp hj).1
    rw [List.length_set] at hlt
    rw [List.getElem?_set_self hlt, Option.some.injEq] at hj
    subst hj
    exact hq hactive
  · rw [List.getElem?_set_ne (Ne.symm hji)] at hj
    exact absurd hactive (hothers j p hji hj)

theorem CopiesCurrent.step (h : CopiesCurrent (keyOf initial brokerId) brokerId s)
    (hs : Consistent json brokerId initial s) {e : ReplayEvent} (halone : Alone s e)
    (hstep : step json brokerId s e = some t) :
    CopiesCurrent (keyOf initial brokerId) brokerId t := by
  cases e with
  | started =>
      obtain rfl := Option.some.inj hstep
      intro i p hi hactive
      by_cases hlt : i < s.replays.length
      · rw [List.getElem?_append_left hlt] at hi
        exact h i p hi hactive
      · rw [List.getElem?_append_right (Nat.le_of_not_lt hlt)] at hi
        rw [List.mem_singleton.mp (List.mem_of_getElem? hi)] at hactive
        exact absurd hactive id
  | performed i act =>
      obtain ⟨p, hp, hstep⟩ := Option.bind_eq_some_iff.mp hstep
      obtain ⟨q, hq, rfl⟩ := Option.map_eq_some_iff.mp hstep
      have hcoherent := hs.coherent p (List.mem_of_getElem? hp)
      have hmoves := (Coherent.perform hs.stored (hs.key ▸ hcoherent) hq).2
      rw [hs.key] at hmoves
      refine copiesCurrent_set halone fun hactive k hk => ?_
      rcases hmoves with hsame | hload | hforget
      · rw [hsame] at hk
        by_cases hbefore : Active p
        · exact h i p hp hbefore k hk
        · have hrow := hcoherent.row
          rw [HoldsFirst, started_of_perform hq hactive hbefore] at hrow
          rw [copyOf_of_untracked hrow] at hk
          cases hk
      · rw [hload] at hk
        exact (Option.some.inj hk).symm
      · rw [hforget] at hk
        cases hk
  | committed i =>
      obtain ⟨p, id, retries, hp, hphase, rfl⟩ := committed_eq_some hstep
      obtain ⟨m, k, hm, rfl, hkey, hmemory, rfl, -⟩ := hs.committing hp hphase
      have hcounter := (keyOf_of_firstOf (firstOf_setRetries hm (k + 1))).2
      refine copiesCurrent_set halone fun _ l hl => ?_
      rw [hcounter]
      rw [hkey] at hl
      exact (Option.some.inj (hmemory.symm.trans hl)).symm

theorem CopiesCurrent.copyIsCurrent (h : CopiesCurrent (keyOf initial brokerId) brokerId s)
    (hs : Consistent json brokerId initial s) {e : ReplayEvent}
    (hstep : ConcurrentReplays.step json brokerId s e = some t) : CopyIsCurrent s e := by
  cases e with
  | started => trivial
  | performed i act => trivial
  | committed i =>
      obtain ⟨p, id, retries, hp, hphase, -⟩ := committed_eq_some hstep
      obtain ⟨m, k, -, -, -, -, -, hcopy⟩ := hs.committing hp hphase
      have hactive : Active p := by
        rw [Active, hphase]
        trivial
      rw [hs.copyIsCurrent_iff hp hphase, hcopy, h i p hp hactive k hcopy]

end Alone

/-- Replays that do not overlap lose no increment. -/
theorem no_increment_lost_one_at_a_time (json : JsonSerializer Json) (brokerId : ℤ)
    (audited : AuditedLog json) (events : List ReplayEvent)
    (h : (replays json brokerId audited).Meets Alone (replays json brokerId audited).init events) :
    (replays json brokerId audited).Meets CopyIsCurrent (replays json brokerId audited).init
      events := by
  apply Machine.throughout_of_meets (C := Alone)
    (I := fun s => Consistent json brokerId audited.log s ∧
      CopiesCurrent (keyOf audited.log brokerId) brokerId s)
  · exact fun s e t hs halone ht => ⟨(hs.1.step ht).1, hs.2.step hs.1 halone ht⟩
  · exact fun s e t hs _ ht => hs.2.copyIsCurrent hs.1 ht
  · exact ⟨consistent_init brokerId audited, fun i p hp => by cases hp⟩
  · exact h

end ReliableSignalR.ConcurrentReplays
