import ReliableSignalR.StartAccounting

/-!
# When the subscriber can connect without being called

A subscriber without a connection is left alone: the host does not start it again
and the acknowledgement handler, which handles nothing, refreshes no token. Whether
its newest connection can still become connected depends on the count of what is
under way: a live connection, a scheduled restart, or a call of `Start` that waits
for the lock or has not started its connection yet.
-/
namespace ReliableSignalR.Reconnection
open DotNet EventRuns HubConnectionManager StartAccounting

/-- The manager without calls of `Start` from outside. -/
def unattended : Machine Manager ManagerEvent :=
  manager.under fun _ e => calledFromOutside e = false

def Connected (s : Manager) : Prop := s.hubConnection = some .connected

/-- The running `Start` starts the connection that it has created. -/
def StartHasConnection (s : Manager) : Prop := s.running = some .start → s.connections ≠ []

section Steps
variable {s t : Manager} {e : ManagerEvent}

theorem unattended_step (he : calledFromOutside e = false) (h : step s e = some t) :
    unattended.step s e = some t :=
  Machine.under_step.mpr ⟨he, h⟩

theorem startHasConnection_step (hs : StartHasConnection s) (h : step s e = some t) :
    StartHasConnection t := by
  have hkept (hlength : t.connections.length = s.connections.length)
      (hrunning : t.running = s.running) : StartHasConnection t := by
    intro hstart
    rw [hrunning] at hstart
    have hne := List.length_pos_iff.mpr (hs hstart)
    rw [← hlength] at hne
    exact List.length_pos_iff.mp hne
  cases step_effect h with
  | still _ hlength hrunning => exact hkept hlength hrunning
  | closed _ _ hlength hrunning => exact hkept hlength hrunning
  | advanced _ _ hafter => exact fun hstart => absurd hstart hafter
  | created hconnections _ _ =>
      rw [StartHasConnection, hconnections]
      exact fun _ => List.concat_ne_nil _ _
  | connecting _ _ _ _ hafter =>
      intro hstart
      rw [hafter] at hstart
      cases hstart

/-- Nothing gets under way by itself. -/
theorem underWay_unattended (h : unattended.step s e = some t) : underWay t ≤ underWay s := by
  obtain ⟨hunattended, hstep⟩ := Machine.under_step.mp h
  have hbalance := step_balances hstep
  rw [if_neg (by simp [hunattended])] at hbalance
  omega

theorem underWay_pos_of_connected (h : Connected s) : 0 < underWay s := by
  have hlast : ConnectionState.connected ∈ s.connections := List.mem_of_getLast? h
  have hlive : 0 < liveConnections s := List.countP_pos_iff.mpr ⟨_, hlast, rfl⟩
  unfold underWay
  omega

end Steps

section Connecting
variable {s t : Manager}

theorem hubConnection_eq (s : Manager) :
    s.hubConnection = s.connections[s.connections.length - 1]? :=
  List.getLast?_eq_getElem?

/-- The newest connection changes its state. -/
theorem move_newest {source : ConnectionState} (target : ConnectionState)
    (h : s.hubConnection = some source) :
    ∃ t, s.move (s.connections.length - 1) source target = some t ∧
      t.hubConnection = some target ∧ t.running = s.running := by
  rw [hubConnection_eq] at h
  refine ⟨_, if_pos h, ?_, rfl⟩
  obtain ⟨hlt, -⟩ := List.getElem?_eq_some_iff.mp h
  rw [hubConnection_eq, List.length_set, List.getElem?_set_self hlt]

theorem reach_of_newest {state : ConnectionState} (h : s.hubConnection = some state)
    (hlive : state ≠ .disconnected) : unattended.CanReach Connected s := by
  cases state with
  | connected => exact .here h
  | connecting =>
      obtain ⟨t, hmove, ht, -⟩ := move_newest .connected h
      exact .step (unattended_step (e := .connectionConnected _) rfl hmove) (.here ht)
  | reconnecting =>
      obtain ⟨t, hmove, ht, -⟩ := move_newest .connected h
      exact .step (unattended_step (e := .connectionReconnected _) rfl hmove) (.here ht)
  | disconnected => exact absurd rfl hlive

theorem reach_of_start (hrunning : s.running = some .start)
    (hnewest : s.hubConnection = some .disconnected) : unattended.CanReach Connected s := by
  obtain ⟨t, hmove, ht, -⟩ := move_newest (s := { s with running := some .wait })
    .connecting hnewest
  have hstep : step s .connectionStarted = some t := by
    rw [step, if_pos hrunning]
    exact hmove
  exact .step (unattended_step rfl hstep) (reach_of_newest ht (by decide))

/-- All calls of the running `Start` return. -/
theorem reach_of_extractAccessTokenExpiryDate
    (hrunning : s.running = some .extractAccessTokenExpiryDate) :
    unattended.CanReach Connected s := by
  have hstep : step s (.extractAccessTokenExpiryDate (.ok 0)) =
      some { s.create with running := some .start, accessTokenExpiryDate := 0 } := by
    rw [step, if_pos hrunning]
    rfl
  exact .step (unattended_step rfl hstep) (reach_of_start rfl List.getLast?_concat)

theorem reach_of_extractAccessToken (hrunning : s.running = some .extractAccessToken) :
    unattended.CanReach Connected s := by
  have hstep : step s (.extractAccessToken (.ok ())) =
      some { s with running := some .extractAccessTokenExpiryDate } := by
    rw [step, if_pos hrunning]
    rfl
  exact .step (unattended_step rfl hstep) (reach_of_extractAccessTokenExpiryDate rfl)

theorem reach_of_getToken (hrunning : s.running = some .getToken) :
    unattended.CanReach Connected s := by
  have hstep : step s (.getToken (.ok ())) =
      some { s with running := some .extractAccessToken } := by
    rw [step, if_pos hrunning]
    rfl
  exact .step (unattended_step rfl hstep) (reach_of_extractAccessToken rfl)

theorem reach_of_waiting (hidle : s.running = none) (hwaiting : 0 < s.waiting) :
    unattended.CanReach Connected s := by
  by_cases hconnected : s.hubConnectionIsAlreadyConnected = true
  · exact .here (beq_iff_eq.mp hconnected)
  · have hstep : step s .entered =
        some { s with waiting := s.waiting - 1, running := some .getToken } := by
      rw [step, if_pos ⟨hidle, hwaiting⟩, if_neg hconnected]
    exact .step (unattended_step rfl hstep) (reach_of_getToken rfl)

theorem reach_of_pendingRestarts (hidle : s.running = none) (hpending : 0 < s.pendingRestarts) :
    unattended.CanReach Connected s := by
  have hstep : step s .restartFired =
      some { s.callStart with pendingRestarts := s.pendingRestarts - 1 } := by
    rw [step, if_pos hpending]
  exact .step (unattended_step rfl hstep) (reach_of_waiting hidle (Nat.succ_pos _))

/-- A live connection that is not the newest one is closed, and its restart fires. -/
theorem reach_of_live {i : ℕ} (hidle : s.running = none) (hlive : Live s i) :
    unattended.CanReach Connected s := by
  have hstep : step s (.connectionClosed i) = some (s.close i) := by
    rw [step, if_pos hlive.lt_length]
  have hpending : 0 < (s.close i).pendingRestarts := by
    rcases close_cases s i with ⟨hdead, -⟩ | ⟨-, -, hpending⟩
    · exact absurd hlive hdead
    · rw [hpending]
      exact Nat.succ_pos _
  exact .step (unattended_step rfl hstep)
    (reach_of_pendingRestarts (close_running.trans hidle) hpending)

theorem reach_of_idle (hidle : s.running = none) (hunderWay : 0 < underWay s) :
    unattended.CanReach Connected s := by
  have hstarting : starting s = 0 := by
    unfold starting
    rw [hidle]
  have hcases : 0 < liveConnections s ∨ 0 < s.pendingRestarts ∨ 0 < s.waiting := by
    unfold underWay at hunderWay
    omega
  rcases hcases with hlive | hpending | hwaiting
  · obtain ⟨i, hi⟩ := exists_live_iff.mpr hlive
    exact reach_of_live hidle hi
  · exact reach_of_pendingRestarts hidle hpending
  · exact reach_of_waiting hidle hwaiting

/-- `Start` returns as soon as its connection is not connecting any more. -/
theorem reach_of_wait (hwait : s.running = some .wait)
    (hnewest : s.hubConnection ≠ some .connecting) (hunderWay : 0 < underWay s) :
    unattended.CanReach Connected s := by
  have hstep : step s .returned = some { s with running := none } := by
    rw [step, if_pos ⟨hwait, hnewest⟩]
  have hstarting : starting s = 0 := by
    unfold starting
    rw [hwait]
  refine .step (unattended_step rfl hstep) (reach_of_idle rfl ?_)
  unfold underWay at hunderWay
  rw [hstarting] at hunderWay
  exact hunderWay

end Connecting

/-- From every state that a manager can get into, its newest connection can become
connected without a call of `Start` from outside precisely if a connection is live, a
restart is scheduled, or a call of `Start` has not come to its connection yet. -/
theorem reconnects_by_itself_exactly_when {s : Manager} (hs : manager.Reachable s) :
    (∃ events t, unattended.run s events = some t ∧ t.hubConnection = some .connected) ↔
      0 < underWay s := by
  change unattended.CanReach Connected s ↔ 0 < underWay s
  constructor
  · intro hreach
    by_contra hnothing
    refine Machine.not_canReach (I := fun u => underWay u = 0) (fun u e v hu hstep => ?_)
      (Nat.eq_zero_of_not_pos hnothing) (fun u hu hconnected => ?_) hreach
    · exact Nat.eq_zero_of_le_zero (hu ▸ underWay_unattended hstep)
    · exact absurd hu (Nat.ne_of_gt (underWay_pos_of_connected hconnected))
  · intro hunderWay
    by_cases hup : ∃ state, s.hubConnection = some state ∧ state ≠ .disconnected
    · obtain ⟨state, hnewest, hlive⟩ := hup
      exact reach_of_newest hnewest hlive
    cases hrunning : s.running with
    | none => exact reach_of_idle hrunning hunderWay
    | some phase =>
        cases phase with
        | getToken => exact reach_of_getToken hrunning
        | extractAccessToken => exact reach_of_extractAccessToken hrunning
        | extractAccessTokenExpiryDate => exact reach_of_extractAccessTokenExpiryDate hrunning
        | start =>
            have hstart : StartHasConnection s :=
              hs.invariant (fun _ _ _ => startHasConnection_step) nofun
            have hnewest : s.hubConnection = some .disconnected := by
              have hlast : s.hubConnection = some (s.connections.getLast (hstart hrunning)) :=
                List.getLast?_eq_some_getLast _
              by_contra hne
              exact hup ⟨_, hlast, fun heq => hne (heq ▸ hlast)⟩
            exact reach_of_start hrunning hnewest
        | wait =>
            exact reach_of_wait hrunning (fun h => hup ⟨_, h, by decide⟩) hunderWay

/-- The host's call of `Start` comes to its connection, which is then closed. -/
def connectedAndClosed : List ManagerEvent :=
  .startCalled :: completeStart 0 ++ [.connectionClosed 0]

/-- After that the subscriber connects again by itself. If the token service throws at the
restart, it does not. -/
theorem failed_restart_is_final :
    ∃ s t, manager.run manager.init connectedAndClosed = some s ∧
      (∃ events u, unattended.run s events = some u ∧ u.hubConnection = some .connected) ∧
      manager.run s [.restartFired, .entered, .getToken (.error .external)] = some t ∧
      ¬∃ events u, unattended.run t events = some u ∧ u.hubConnection = some .connected := by
  have hclosed : manager.run manager.init connectedAndClosed =
      some ⟨[.disconnected], 0, true, 0, none, none, 1⟩ := by decide
  have hfailed : manager.run manager.init (connectedAndClosed ++
      [.restartFired, .entered, .getToken (.error .external)]) =
        some ⟨[.disconnected], 0, true, 0, none, none, 0⟩ := by decide
  refine ⟨_, _, hclosed, ?_, by rfl, fun h => ?_⟩
  · exact (reconnects_by_itself_exactly_when ⟨_, hclosed⟩).mpr (by decide)
  · have hpos := (reconnects_by_itself_exactly_when ⟨_, hfailed⟩).mp h
    exact absurd hpos (by decide)

end ReliableSignalR.Reconnection
