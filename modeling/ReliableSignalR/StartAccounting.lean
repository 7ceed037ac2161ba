import ReliableSignalR.HubConnectionManager

/-!
# What becomes of the calls of `Start`

The host calls `Start` once and the acknowledgement handler calls it after a token
refresh; every other call is a restart that a closed connection has scheduled. A
call is first waiting for the lock and then running until it has started its
connection. From there on the connection stands for it, and the restart does
after the connection has been closed. So each call from outside is at one of these
places or has ended without a connection: it found the newest one connected, or
one of the token services threw.
-/
namespace ReliableSignalR.StartAccounting
open DotNet EventRuns HubConnectionManager

/-- The connections in a state other than disconnected. -/
def liveConnections (s : Manager) : ℕ := s.connections.countP fun state => state != .disconnected

/-- The running `Start`, if it has not started its connection yet. -/
def starting (s : Manager) : ℕ :=
  match s.running with
  | none | some .wait => 0
  | some _ => 1

def underWay (s : Manager) : ℕ :=
  liveConnections s + s.pendingRestarts + s.waiting + starting s

/-- The calls of `ServiceHost.Start` and of `SendAcknowledgmentCommandHandler.Handle`. -/
def calledFromOutside : ManagerEvent → Bool
  | .startCalled | .refreshStart => true
  | _ => false

/-- A `Start` ends and has not started a connection. -/
def endedWithoutConnection (s : Manager) : ManagerEvent → ℕ
  | .entered => if s.hubConnectionIsAlreadyConnected then 1 else 0
  | .getToken (.error _) | .extractAccessToken (.error _)
  | .extractAccessTokenExpiryDate (.error _) => 1
  | _ => 0

section Steps
variable {s t : Manager} {i : ℕ}

theorem liveConnections_set {state u : ConnectionState} (h : s.connections[i]? = some state) :
    (s.connections.set i u).countP (fun state => state != .disconnected) +
        (if state != .disconnected then 1 else 0) =
      liveConnections s + if u != .disconnected then 1 else 0 := by
  obtain ⟨hi, hstate⟩ := List.getElem?_eq_some_iff.mp h
  have hpos : (if state != .disconnected then 1 else 0) ≤ liveConnections s := by
    split
    · next hlive =>
      exact List.countP_pos_iff.mpr ⟨state, List.mem_of_getElem? h, hlive⟩
    · exact Nat.zero_le _
  rw [List.countP_set hi, hstate]
  unfold liveConnections at hpos ⊢
  omega

/-- Closing turns a live connection into a scheduled restart. -/
theorem underWay_close : underWay (s.close i) = underWay s := by
  have hwaiting : (s.close i).waiting = s.waiting := close_waiting
  have hstarting : starting (s.close i) = starting s := by
    unfold starting
    rw [close_running]
  rcases close_cases s i with ⟨-, heq⟩ | ⟨⟨state, hstate, hlive⟩, hconnections, hpending⟩
  · rw [heq]
  · have hset := liveConnections_set (u := .disconnected) hstate
    rw [← hconnections] at hset
    change liveConnections (s.close i) + _ = _ at hset
    rw [if_pos (bne_iff_ne.mpr hlive), if_neg (by decide)] at hset
    unfold underWay
    omega

theorem underWay_move {source target : ConnectionState} (h : s.move i source target = some t)
    (hsource : source ≠ .disconnected) (htarget : target ≠ .disconnected) :
    underWay t = underWay s := by
  have heq := move_eq h
  have hi : s.connections[i]? = some source := (Option.ite_none_right_eq_some.mp h).1
  have hset := liveConnections_set (u := target) hi
  rw [if_pos (bne_iff_ne.mpr hsource), if_pos (bne_iff_ne.mpr htarget)] at hset
  have hlive : liveConnections t = liveConnections s := by
    rw [heq]
    exact Nat.add_right_cancel hset
  rw [heq] at hlive ⊢
  unfold underWay
  rw [hlive]
  rfl

theorem starting_eq_one {phase : StartPhase} (hrunning : s.running = some phase)
    (hphase : phase ≠ .wait) : starting s = 1 := by
  unfold starting
  rw [hrunning]
  cases phase with
  | wait => exact absurd rfl hphase
  | _ => rfl

/-- A `Start` that has no connection yet goes on to its next call. -/
theorem underWay_goto {phase : StartPhase} (hstarting : starting s = 1)
    (hphase : starting { s with running := some phase } = 1) :
    underWay { s with running := some phase } = underWay s := by
  unfold underWay
  rw [hphase, hstarting]
  rfl

theorem liveConnections_create : liveConnections s.create = liveConnections s :=
  List.countP_append

theorem underWay_proceed {α : Type} {outcome : Except Exception α} {next : α → Manager}
    (hstarting : starting s = 1) (hnext : ∀ a, underWay (next a) = underWay s) {loss : ℕ}
    (hloss : loss = match outcome with | .error _ => 1 | .ok _ => 0) :
    underWay (s.proceed outcome next) + loss = underWay s := by
  cases outcome with
  | error x =>
      rw [hloss]
      change liveConnections s + s.pendingRestarts + s.waiting + 0 + 1 = underWay s
      unfold underWay
      omega
  | ok a =>
      rw [hloss]
      exact hnext a

theorem step_balances {e : ManagerEvent} (h : step s e = some t) :
    underWay t + endedWithoutConnection s e =
      underWay s + if calledFromOutside e then 1 else 0 := by
  cases e with
  | startCalled =>
      obtain rfl := Option.some.inj h
      change liveConnections s + s.pendingRestarts + (s.waiting + 1) + starting s + 0 =
        underWay s + 1
      unfold underWay
      omega
  | entered =>
      obtain ⟨⟨hidle, hwaiting⟩, h⟩ := Option.ite_none_right_eq_some.mp h
      have hstarting : starting s = 0 := by
        unfold starting
        rw [hidle]
      split at h
      · next hconnected =>
        obtain rfl := Option.some.inj h
        change liveConnections s + s.pendingRestarts + (s.waiting - 1) + starting s +
          (if s.hubConnectionIsAlreadyConnected then 1 else 0) = underWay s + 0
        rw [if_pos hconnected]
        unfold underWay
        omega
      · next hconnected =>
        obtain rfl := Option.some.inj h
        change liveConnections s + s.pendingRestarts + (s.waiting - 1) + 1 +
          (if s.hubConnectionIsAlreadyConnected then 1 else 0) = underWay s + 0
        rw [if_neg hconnected]
        unfold underWay
        omega
  | getToken outcome =>
      obtain ⟨hrunning, rfl⟩ := guarded h
      have hstarting := starting_eq_one hrunning (by decide)
      apply underWay_proceed hstarting
      · exact fun _ => underWay_goto hstarting rfl
      · cases outcome <;> rfl
  | extractAccessToken outcome =>
      obtain ⟨hrunning, rfl⟩ := guarded h
      have hstarting := starting_eq_one hrunning (by decide)
      apply underWay_proceed hstarting
      · exact fun _ => underWay_goto hstarting rfl
      · cases outcome <;> rfl
  | extractAccessTokenExpiryDate outcome =>
      obtain ⟨hrunning, rfl⟩ := guarded h
      have hstarting := starting_eq_one hrunning (by decide)
      apply underWay_proceed hstarting
      · intro date
        change liveConnections s.create + s.pendingRestarts + s.waiting + 1 = underWay s
        rw [liveConnections_create]
        unfold underWay
        rw [hstarting]
      · cases outcome <;> rfl
  | connectionStarted =>
      obtain ⟨hrunning, h⟩ := Option.ite_none_right_eq_some.mp h
      have hstarting := starting_eq_one hrunning (by decide)
      have heq := move_eq h
      have hi := (Option.ite_none_right_eq_some.mp h).1
      have hset := liveConnections_set (s := s) (u := .connecting) hi
      rw [if_neg (by decide), if_pos (by decide)] at hset
      have hlive : liveConnections t = liveConnections s + 1 := by
        rw [heq]
        exact hset
      have hunderWay : underWay t = liveConnections t + s.pendingRestarts + s.waiting + 0 := by
        rw [heq]
        rfl
      change underWay t + 0 = underWay s + 0
      rw [hunderWay, hlive]
      unfold underWay
      omega
  | returned =>
      obtain ⟨hwait, rfl⟩ := guarded h
      have hstarting : starting s = 0 := by
        unfold starting
        rw [hwait.1]
      change liveConnections s + s.pendingRestarts + s.waiting + 0 = underWay s
      unfold underWay
      rw [hstarting]
  | stopCalled =>
      obtain rfl := Option.some.inj h
      exact underWay_close
  | connectionConnected i => exact underWay_move h (by decide) (by decide)
  | connectionReconnecting i => exact underWay_move h (by decide) (by decide)
  | connectionReconnected i => exact underWay_move h (by decide) (by decide)
  | connectionClosed i =>
      obtain ⟨-, rfl⟩ := guarded h
      exact underWay_close
  | connectionSlow i =>
      obtain ⟨-, rfl⟩ := guarded h
      exact underWay_close
  | connectionError i =>
      obtain ⟨-, rfl⟩ := guarded h
      exact underWay_close
  | restartFired =>
      obtain ⟨hpending, rfl⟩ := guarded h
      change liveConnections s + (s.pendingRestarts - 1) + (s.waiting + 1) + starting s + 0 =
        underWay s + 0
      unfold underWay
      omega
  | acknowledged utcNow =>
      obtain ⟨-, rfl⟩ := guarded h
      split
      · rfl
      · rfl
  | refreshStop =>
      obtain ⟨-, rfl⟩ := guarded h
      exact underWay_close (i := s.connections.length - 1)
  | refreshStart =>
      obtain ⟨-, rfl⟩ := guarded h
      change liveConnections s + s.pendingRestarts + (s.waiting + 1) + starting s + 0 =
        underWay s + 1
      unfold underWay
      omega

theorem liveConnections_pos (h : Live s i) : 0 < liveConnections s := by
  obtain ⟨state, hstate, hlive⟩ := h
  exact List.countP_pos_iff.mpr ⟨state, List.mem_of_getElem? hstate, bne_iff_ne.mpr hlive⟩

theorem exists_live_iff : (∃ i, Live s i) ↔ 0 < liveConnections s := by
  constructor
  · exact fun ⟨i, hi⟩ => liveConnections_pos hi
  · intro h
    obtain ⟨state, hstate, hlive⟩ := List.countP_pos_iff.mp h
    obtain ⟨i, hi⟩ := List.mem_iff_getElem?.mp hstate
    exact ⟨i, state, hi, bne_iff_ne.mp hlive⟩

/-- With the one closed, the other would still be live. -/
theorem singleLive_of_le_one (h : liveConnections s ≤ 1) : SingleLive s := by
  intro i j hi hj
  by_contra hij
  obtain ⟨state, hstate, hlive⟩ := hi
  have hset := liveConnections_set (u := .disconnected) hstate
  rw [if_pos (bne_iff_ne.mpr hlive), if_neg (by decide)] at hset
  obtain ⟨hi, -⟩ := List.getElem?_eq_some_iff.mp hstate
  have hother := liveConnections_pos ((live_set hi
    (t := { s with connections := s.connections.set i .disconnected }) rfl).mpr
      (Or.inr ⟨fun h => hij h.symm, hj⟩))
  change 0 < List.countP _ (s.connections.set i .disconnected) at hother
  omega

end Steps

/-- In every run, each call of `Start` from outside is a live connection, a scheduled
restart, a call at the lock or on its way to `hubConnection.Start`, or it has ended
without a connection. So there are never more live connections than calls, and a
subscriber at rest is stranded precisely if all of its calls have so ended. -/
theorem start_calls_are_accounted_for (events : List ManagerEvent) {s : Manager}
    (hrun : manager.run manager.init events = some s) :
    underWay s + manager.tally endedWithoutConnection manager.init events =
        events.countP calledFromOutside ∧
      (events.countP calledFromOutside ≤ 1 → SingleLive s) ∧
      (s.started = true → Quiet s →
        (NotStranded s ↔ manager.tally endedWithoutConnection manager.init events <
          events.countP calledFromOutside)) := by
  have hbalance := Machine.run_balances (I := fun _ => True) (fun _ _ _ _ _ => trivial)
    (fun s e t _ => step_balances) trivial hrun
  rw [Machine.tally_eq_countP calledFromOutside hrun] at hbalance
  change _ = 0 + _ at hbalance
  rw [Nat.zero_add] at hbalance
  refine ⟨hbalance, fun hone => singleLive_of_le_one ?_, fun hstarted hquiet => ?_⟩
  · unfold underWay at hbalance
    omega
  · have hrest : NotStranded s ↔ 0 < liveConnections s ∨ 0 < s.pendingRestarts := by
      rw [← exists_live_iff]
      exact ⟨fun h => h hstarted hquiet, fun h _ _ => h⟩
    have hstarting : starting s = 0 := by
      unfold starting
      rw [hquiet.1]
    have hwaiting := hquiet.2.1
    rw [hrest]
    unfold underWay at hbalance
    omega

/-- The call of the host does not get a token; the one after the refresh connects. -/
def connectedAfterRefresh : List ManagerEvent :=
  [.startCalled, .entered, .getToken (.error .external), .acknowledged 0, .refreshStop,
    .refreshStart] ++ completeStart 0

theorem lost_start_is_accounted_for :
    ∃ s, manager.run manager.init connectedAfterRefresh = some s ∧ liveConnections s = 1 ∧
      underWay s + manager.tally endedWithoutConnection manager.init connectedAfterRefresh = 2 := by
  refine ⟨⟨[.connected], 0, true, 0, none, none, 0⟩, by decide, by decide, ?_⟩
  exact (start_calls_are_accounted_for connectedAfterRefresh (by decide)).1

end ReliableSignalR.StartAccounting
