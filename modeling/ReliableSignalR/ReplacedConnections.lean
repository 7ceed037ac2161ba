import ReliableSignalR.HubConnectionManager

/-!
# Events of replaced connections

The manager's handlers stay subscribed on every connection it has created, and
they stop the connection in the field, whichever connection has raised the event.
A late event is therefore harmless precisely if there is nothing left to stop:
the connection in the field has not been started yet or is closed already.
-/
namespace ReliableSignalR.ReplacedConnections
open DotNet EventRuns HubConnectionManager

/-- The connection that the field `hubConnection` refers to. -/
def Current (s : Manager) (i : ℕ) : Prop := i + 1 = s.connections.length

/-- The connection whose `Error` or `ConnectionSlow` the event is. -/
def raisedBy : ManagerEvent → Option ℕ
  | .connectionSlow i | .connectionError i => some i
  | _ => none

/-- An event raised by another connection does not stop the current one. -/
def LateEventHarmless (s : Manager) (e : ManagerEvent) (t : Manager) : Prop :=
  ∀ i ∈ raisedBy e, ¬Current s i → ∀ j, Current s j → Live s j → Live t j

/-- The condition on an event of a replaced connection: the current connection is
disconnected, be it that it was never started or that it has been closed. -/
def CurrentIsClosed (s : Manager) (e : ManagerEvent) : Prop :=
  ∀ i ∈ raisedBy e, ¬Current s i → ∀ j, Current s j → ¬Live s j

/-- `HubConnectionSlow` and `HubConnectionOnError` stop what the field refers to. -/
theorem step_raised {s t : Manager} {e : ManagerEvent} {i : ℕ} (he : i ∈ raisedBy e)
    (hstep : step s e = some t) : t = s.stop := by
  cases e with
  | connectionSlow j =>
      obtain ⟨-, rfl⟩ := guarded hstep
      rfl
  | connectionError j =>
      obtain ⟨-, rfl⟩ := guarded hstep
      rfl
  | _ => cases he

theorem not_live_stop {s : Manager} {j : ℕ} (hj : Current s j) : ¬Live s.stop j := by
  intro hlive
  have hne := (live_close.mp hlive).2
  unfold Current at hj
  omega

theorem lateEventHarmless_iff {s t : Manager} {e : ManagerEvent}
    (hstep : manager.step s e = some t) :
    LateEventHarmless s e t ↔ CurrentIsClosed s e := by
  constructor
  · intro h i he hi j hj hlive
    have hafter := h i he hi j hj hlive
    rw [step_raised he hstep] at hafter
    exact not_live_stop hj hafter
  · intro h i he hi j hj hlive
    exact absurd hlive (h i he hi j hj)

/-- In every run the events of replaced connections are harmless precisely if
each of them finds the current connection disconnected. -/
theorem late_events_harmless_exactly_when (events : List ManagerEvent) :
    manager.Throughout LateEventHarmless manager.init events ↔
      manager.Meets CurrentIsClosed manager.init events := by
  apply Machine.throughout_iff_meets (I := fun _ => True) (fun _ _ _ _ _ => trivial)
  · exact fun s e t _ hstep => lateEventHarmless_iff hstep
  · trivial

/-- A connection that was replaced while it was reconnecting is up again; it turns
slow, and the connection that replaced it is stopped. -/
theorem slow_replaced_connection :
    ∃ s t, manager.run manager.init restartWhileReconnecting = some s ∧
      manager.step s (.connectionSlow 1) = some t ∧
      s.connections = [.disconnected, .connected, .connected] ∧
      t.connections = [.disconnected, .connected, .disconnected] ∧
      ¬LateEventHarmless s (.connectionSlow 1) t := by
  refine ⟨⟨[.disconnected, .connected, .connected], 0, true, 0, none, none, 0⟩,
    ⟨[.disconnected, .connected, .disconnected], 0, true, 0, none, none, 1⟩, by decide, by decide,
    rfl, rfl, fun h => ?_⟩
  have hlater : (1 : ℕ) + 1 ≠ 3 := by decide
  obtain ⟨state, hstate, hne⟩ := h 1 rfl hlater 2 rfl ⟨.connected, rfl, by decide⟩
  exact hne (Option.some.inj hstate).symm

/-- A connection that is disconnected raises no event any more. -/
def RaisedByLive (s : Manager) (e : ManagerEvent) : Prop := ∀ i ∈ raisedBy e, Live s i

/-- A replaced connection that is still live has been replaced by a connection
that is not started yet. -/
theorem newestLive_currentIsClosed {s : Manager} {e : ManagerEvent} (h : NewestLive s)
    (hlive : RaisedByLive s e) : CurrentIsClosed s e := by
  intro i he hi j hj
  rcases h.live i (hlive i he) with hnewest | ⟨hstart, -⟩
  · exact absurd hnewest hi
  · exact h.unstarted hstart j hj

theorem newestLive_initial : NewestLive manager.init := by
  constructor
  · intro i hlive
    obtain ⟨state, hstate, -⟩ := hlive
    cases hstate
  · intro hstart
    cases hstart

/-- Runs that keep a single live connection, and in which a disconnected
connection raises nothing, have no harmful late event. -/
theorem late_events_harmless_of_single (events : List ManagerEvent)
    (hreplaced : manager.Meets ReplacedIsClosed manager.init events)
    (hraised : manager.Meets RaisedByLive manager.init events) :
    manager.Throughout LateEventHarmless manager.init events := by
  refine Machine.throughout_of_meets (I := NewestLive)
    (C := fun s e => ReplacedIsClosed s e ∧ RaisedByLive s e) ?_ ?_ newestLive_initial
    (hreplaced.and hraised)
  · exact fun s e t h hcondition hstep => h.step hcondition.1 hstep
  · exact fun s e t h hcondition hstep =>
      (lateEventHarmless_iff hstep).mpr (newestLive_currentIsClosed h hcondition.2)

end ReliableSignalR.ReplacedConnections
