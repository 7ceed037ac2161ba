import ReliableSignalR.EventRuns
import ReliableSignalR.DotNet

/-!
# The connection manager of the subscriber

The manager holds one `HubConnection`, the newest it has created; older objects
stay alive until they are closed, and their events reach the manager's handlers.
`connections` lists the states of all of them in the order of creation.

`Start` runs under a lock and swallows every exception. Its body is cut at each
call of a service, so that the network, `Stop` and the delayed restarts can move
between any two of them. `Stop` takes no lock. A connection that becomes
disconnected raises `Closed` at once, which schedules a restart.
-/
namespace ReliableSignalR.HubConnectionManager
open DotNet EventRuns

inductive ConnectionState
  | connecting
  | connected
  | reconnecting
  | disconnected
deriving DecidableEq, Repr

/-- The call at which a running `Start` stands. -/
inductive StartPhase
  | getToken
  | extractAccessToken
  | extractAccessTokenExpiryDate
  | start
  | wait
deriving DecidableEq, Repr

/-- The acknowledgement handler after `AccessTokenNeedsRefresh` has returned true. -/
inductive Refresh
  | stop
  | start
deriving DecidableEq, Repr

structure Manager where
  connections : List ConnectionState
  accessTokenExpiryDate : DateTime
  started : Bool
  waiting : ℕ
  running : Option StartPhase
  refreshing : Option Refresh
  pendingRestarts : ℕ
deriving DecidableEq, Repr

namespace Manager

def initial : Manager := ⟨[], 0, false, 0, none, none, 0⟩

/-- The state of the connection in the field `hubConnection`. -/
def hubConnection (s : Manager) : Option ConnectionState := s.connections.getLast?

def hubConnectionIsAlreadyConnected (s : Manager) : Bool := s.hubConnection == some .connected

def accessTokenNeedsRefresh (s : Manager) (utcNow : DateTime) : Bool :=
  decide (s.accessTokenExpiryDate ≤ DateTime.addMinutes utcNow 5)

/-- `Start` has been called and is at the lock. -/
def callStart (s : Manager) : Manager := { s with started := true, waiting := s.waiting + 1 }

/-- The connection becomes disconnected, and `HubConnectionOnClosed` schedules a
restart; nothing happens if it is disconnected already. -/
def close (s : Manager) (i : ℕ) : Manager :=
  match s.connections[i]? with
  | none | some .disconnected => s
  | some _ =>
      { s with
        connections := s.connections.set i .disconnected
        pendingRestarts := s.pendingRestarts + 1 }

def stop (s : Manager) : Manager := s.close (s.connections.length - 1)

/-- `new HubConnection` -/
def create (s : Manager) : Manager :=
  { s with connections := s.connections ++ [.disconnected] }

end Manager

inductive ManagerEvent
  | startCalled
  | entered
  | getToken (outcome : Except Exception Unit)
  | extractAccessToken (outcome : Except Exception Unit)
  | extractAccessTokenExpiryDate (outcome : Except Exception DateTime)
  | connectionStarted
  | returned
  | stopCalled
  | connectionConnected (i : ℕ)
  | connectionReconnecting (i : ℕ)
  | connectionReconnected (i : ℕ)
  | connectionClosed (i : ℕ)
  | connectionSlow (i : ℕ)
  | connectionError (i : ℕ)
  | restartFired
  | acknowledged (utcNow : DateTime)
  | refreshStop
  | refreshStart
deriving DecidableEq

namespace Manager

/-- The connection changes between two states that are not disconnected. -/
def move (s : Manager) (i : ℕ) (source target : ConnectionState) : Option Manager :=
  if s.connections[i]? = some source then
    some { s with connections := s.connections.set i target }
  else none

/-- The call at which `Start` stands returns, or it throws and `Start` ends. -/
def proceed {α : Type} (s : Manager) (outcome : Except Exception α)
    (next : α → Manager) : Manager :=
  match outcome with
  | .error _ => { s with running := none }
  | .ok a => next a

end Manager

def step (s : Manager) : ManagerEvent → Option Manager
  | .startCalled => some s.callStart
  | .entered =>
      if s.running = none ∧ 0 < s.waiting then
        if s.hubConnectionIsAlreadyConnected then some { s with waiting := s.waiting - 1 }
        else some { s with waiting := s.waiting - 1, running := some .getToken }
      else none
  | .getToken outcome =>
      if s.running = some .getToken then
        some (s.proceed outcome fun _ => { s with running := some .extractAccessToken })
      else none
  | .extractAccessToken outcome =>
      if s.running = some .extractAccessToken then
        some (s.proceed outcome fun _ =>
          { s with running := some .extractAccessTokenExpiryDate })
      else none
  | .extractAccessTokenExpiryDate outcome =>
      if s.running = some .extractAccessTokenExpiryDate then
        some (s.proceed outcome fun accessTokenExpiryDate =>
          { s.create with running := some .start, accessTokenExpiryDate })
      else none
  | .connectionStarted =>
      if s.running = some .start then
        ({ s with running := some .wait }).move (s.connections.length - 1)
          .disconnected .connecting
      else none
  | .returned =>
      if s.running = some .wait ∧ s.hubConnection ≠ some .connecting then
        some { s with running := none }
      else none
  | .stopCalled => some s.stop
  | .connectionConnected i => s.move i .connecting .connected
  | .connectionReconnecting i => s.move i .connected .reconnecting
  | .connectionReconnected i => s.move i .reconnecting .connected
  | .connectionClosed i =>
      if i < s.connections.length then some (s.close i) else none
  | .connectionSlow i => if i < s.connections.length then some s.stop else none
  | .connectionError i => if i < s.connections.length then some s.stop else none
  | .restartFired =>
      if 0 < s.pendingRestarts then
        some { s.callStart with pendingRestarts := s.pendingRestarts - 1 }
      else none
  | .acknowledged utcNow =>
      if s.refreshing = none then
        some (if s.accessTokenNeedsRefresh utcNow then { s with refreshing := some .stop } else s)
      else none
  | .refreshStop =>
      if s.refreshing = some .stop then some { s.stop with refreshing := some .start } else none
  | .refreshStart =>
      if s.refreshing = some .start then some { s.callStart with refreshing := none } else none

def manager : Machine Manager ManagerEvent where
  init := Manager.initial
  step := step

/-- The connection is in a state other than disconnected. -/
def Live (s : Manager) (i : ℕ) : Prop :=
  ∃ state, s.connections[i]? = some state ∧ state ≠ .disconnected

section Live
variable {s t : Manager} {i j : ℕ}

theorem live_congr (h : t.connections = s.connections) : Live t i ↔ Live s i := by
  unfold Live
  rw [h]

theorem Live.lt_length (h : Live s i) : i < s.connections.length := by
  obtain ⟨state, hstate, -⟩ := h
  exact (List.getElem?_eq_some_iff.mp hstate).1

/-- Writing one entry decides about that connection and no other. -/
theorem live_set {state : ConnectionState} (hi : i < s.connections.length)
    (ht : t.connections = s.connections.set i state) :
    Live t j ↔ (j = i ∧ state ≠ .disconnected) ∨ (j ≠ i ∧ Live s j) := by
  unfold Live
  rw [ht, List.getElem?_set]
  by_cases hij : i = j
  · subst hij
    simp [hi]
  · have hji : j ≠ i := fun h => hij h.symm
    simp [hij, hji]

/-- A close that changes something schedules a restart. -/
theorem close_cases (s : Manager) (i : ℕ) :
    ¬Live s i ∧ s.close i = s ∨
      Live s i ∧ (s.close i).connections = s.connections.set i .disconnected ∧
        (s.close i).pendingRestarts = s.pendingRestarts + 1 := by
  unfold Manager.close Live
  cases h : s.connections[i]? with
  | none => simp
  | some state => cases state <;> simp

theorem live_close : Live (s.close i) j ↔ Live s j ∧ j ≠ i := by
  rcases close_cases s i with ⟨hdead, heq⟩ | ⟨hlive, hconnections, -⟩
  · rw [heq]
    constructor
    · intro h
      refine ⟨h, fun hji => hdead (hji ▸ h)⟩
    · exact fun h => h.1
  · rw [live_set hlive.lt_length hconnections]
    constructor
    · rintro (⟨-, hne⟩ | ⟨hji, h⟩)
      · exact absurd rfl hne
      · exact ⟨h, hji⟩
    · exact fun h => Or.inr ⟨h.2, h.1⟩

theorem close_length : (s.close i).connections.length = s.connections.length := by
  rcases close_cases s i with ⟨-, heq⟩ | ⟨-, hconnections, -⟩
  · rw [heq]
  · rw [hconnections, List.length_set]

@[simp] theorem close_running : (s.close i).running = s.running := by
  unfold Manager.close
  split <;> rfl

@[simp] theorem close_waiting : (s.close i).waiting = s.waiting := by
  unfold Manager.close
  split <;> rfl

@[simp] theorem close_started : (s.close i).started = s.started := by
  unfold Manager.close
  split <;> rfl

theorem live_move {source target : ConnectionState} (h : s.move i source target = some t)
    (hsource : source ≠ .disconnected) (htarget : target ≠ .disconnected) :
    Live t j ↔ Live s j := by
  unfold Manager.move at h
  split at h
  · next hi =>
    obtain rfl := Option.some.inj h
    rw [live_set (List.getElem?_eq_some_iff.mp hi).1 rfl]
    constructor
    · rintro (⟨rfl, -⟩ | ⟨-, h⟩)
      · exact ⟨source, hi, hsource⟩
      · exact h
    · intro h
      by_cases hji : j = i
      · exact Or.inl ⟨hji, htarget⟩
      · exact Or.inr ⟨hji, h⟩
  · cases h

/-- Moving a connection touches nothing but its state. -/
theorem move_eq {source target : ConnectionState} (h : s.move i source target = some t) :
    t = { s with connections := s.connections.set i target } := by
  unfold Manager.move at h
  split at h
  · exact (Option.some.inj h).symm
  · cases h

end Live

/-- What a step does to the connections and to the running `Start`. -/
inductive Effect (s : Manager) (e : ManagerEvent) (t : Manager) : Prop
  /-- No connection goes up or down, and no `Start` advances. -/
  | still (live : ∀ i, Live t i ↔ Live s i)
      (length : t.connections.length = s.connections.length)
      (running : t.running = s.running)
  | closed (i : ℕ) (live : ∀ j, Live t j ↔ Live s j ∧ j ≠ i)
      (length : t.connections.length = s.connections.length)
      (running : t.running = s.running)
  /-- A `Start` begins, advances or ends before it has created its connection,
  or after it has waited for it. -/
  | advanced (connections : t.connections = s.connections)
      (before : s.running ≠ some .start) (after : t.running ≠ some .start)
  | created (connections : t.connections = s.connections ++ [.disconnected])
      (before : s.running = some .extractAccessTokenExpiryDate)
      (after : t.running = some .start)
  | connecting (event : e = .connectionStarted)
      (live : ∀ j, Live t j ↔ j + 1 = s.connections.length ∨ Live s j)
      (length : t.connections.length = s.connections.length)
      (before : s.running = some .start) (after : t.running = some .wait)

section Effect
variable {s t : Manager} {e : ManagerEvent}

theorem Effect.of_eq (hconnections : t.connections = s.connections)
    (hrunning : t.running = s.running) : Effect s e t :=
  .still (fun _ => live_congr hconnections) (by rw [hconnections]) hrunning

theorem Effect.of_close {i : ℕ} (hconnections : t.connections = (s.close i).connections)
    (hrunning : t.running = s.running) : Effect s e t :=
  .closed i (fun _ => (live_congr hconnections).trans live_close)
    (by rw [hconnections, close_length]) hrunning

theorem Effect.of_move {i : ℕ} {source target : ConnectionState}
    (h : s.move i source target = some t) (hsource : source ≠ .disconnected)
    (htarget : target ≠ .disconnected) : Effect s e t := by
  refine .still (fun _ => live_move h hsource htarget) ?_ ?_
  · rw [move_eq h, List.length_set]
  · rw [move_eq h]

/-- A service call of a `Start` that has no connection yet. -/
theorem Effect.of_proceed {α : Type} {outcome : Except Exception α} {next : α → Manager}
    (hbefore : s.running ≠ some .start)
    (hnext : ∀ a, outcome = .ok a → Effect s e (next a)) :
    Effect s e (s.proceed outcome next) := by
  cases outcome with
  | error x => exact .advanced rfl hbefore (by simp [Manager.proceed])
  | ok a => exact hnext a rfl

theorem connectionStarted_effect (h : step s .connectionStarted = some t) :
    s.running = some .start ∧ t.running = some .wait ∧
      t.connections.length = s.connections.length ∧ 0 < s.connections.length ∧
      ∀ j, Live t j ↔ j + 1 = s.connections.length ∨ Live s j := by
  obtain ⟨hrunning, h⟩ := Option.ite_none_right_eq_some.mp h
  have heq := move_eq h
  unfold Manager.move at h
  split at h
  · next hnewest =>
    have hi := (List.getElem?_eq_some_iff.mp hnewest).1
    change s.connections.length - 1 < s.connections.length at hi
    refine ⟨hrunning, by rw [heq], by rw [heq, List.length_set], by omega, fun j => ?_⟩
    rw [live_set (s := s) hi (by rw [heq])]
    constructor
    · rintro (⟨rfl, -⟩ | ⟨-, h⟩)
      · left
        omega
      · exact Or.inr h
    · intro hj
      by_cases hji : j = s.connections.length - 1
      · exact Or.inl ⟨hji, by decide⟩
      · refine Or.inr ⟨hji, hj.resolve_left ?_⟩
        omega
  · cases h

theorem step_effect (h : step s e = some t) : Effect s e t := by
  cases e with
  | startCalled =>
      obtain rfl := Option.some.inj h
      exact .of_eq rfl rfl
  | entered =>
      obtain ⟨hlock, h⟩ := Option.ite_none_right_eq_some.mp h
      split at h
      · obtain rfl := Option.some.inj h
        exact .of_eq rfl rfl
      · obtain rfl := Option.some.inj h
        exact .advanced rfl (by simp [hlock.1]) (by simp)
  | getToken outcome =>
      obtain ⟨hrunning, rfl⟩ := guarded h
      apply Effect.of_proceed (by simp [hrunning])
      exact fun a _ => .advanced rfl (by simp [hrunning]) (by simp)
  | extractAccessToken outcome =>
      obtain ⟨hrunning, rfl⟩ := guarded h
      apply Effect.of_proceed (by simp [hrunning])
      exact fun a _ => .advanced rfl (by simp [hrunning]) (by simp)
  | extractAccessTokenExpiryDate outcome =>
      obtain ⟨hrunning, rfl⟩ := guarded h
      apply Effect.of_proceed (by simp [hrunning])
      exact fun a _ => .created rfl hrunning rfl
  | connectionStarted =>
      obtain ⟨hbefore, hafter, hlength, -, hlive⟩ := connectionStarted_effect h
      exact .connecting rfl hlive hlength hbefore hafter
  | returned =>
      obtain ⟨hwait, rfl⟩ := guarded h
      exact .advanced rfl (by simp [hwait.1]) (by simp)
  | stopCalled =>
      obtain rfl := Option.some.inj h
      exact .of_close rfl (close_running)
  | connectionConnected i => exact .of_move h (by decide) (by decide)
  | connectionReconnecting i => exact .of_move h (by decide) (by decide)
  | connectionReconnected i => exact .of_move h (by decide) (by decide)
  | connectionClosed i =>
      obtain ⟨-, rfl⟩ := guarded h
      exact .of_close rfl (close_running)
  | connectionSlow i =>
      obtain ⟨-, rfl⟩ := guarded h
      exact .of_close rfl (close_running)
  | connectionError i =>
      obtain ⟨-, rfl⟩ := guarded h
      exact .of_close rfl (close_running)
  | restartFired =>
      obtain ⟨-, rfl⟩ := guarded h
      exact .of_eq rfl rfl
  | acknowledged utcNow =>
      obtain ⟨-, rfl⟩ := guarded h
      split
      · exact .of_eq rfl rfl
      · exact .of_eq rfl rfl
  | refreshStop =>
      obtain ⟨-, rfl⟩ := guarded h
      exact .of_close rfl (close_running)
  | refreshStart =>
      obtain ⟨-, rfl⟩ := guarded h
      exact .of_eq rfl rfl

end Effect

/-- At most one of the connections is in a state other than disconnected. -/
def SingleLive (s : Manager) : Prop := ∀ i j, Live s i → Live s j → i = j

/-- The condition on `hubConnection.Start`: the connection that the new one has
replaced is disconnected. -/
def ReplacedIsClosed (s : Manager) : ManagerEvent → Prop
  | .connectionStarted => ∀ i, i + 2 = s.connections.length → ¬Live s i
  | _ => True

/-- Only the newest connection is live, or the one before it as long as the
newest has not been started. -/
structure NewestLive (s : Manager) : Prop where
  live : ∀ i, Live s i → i + 1 = s.connections.length ∨
    (s.running = some .start ∧ i + 2 = s.connections.length)
  unstarted : s.running = some .start → ∀ i, i + 1 = s.connections.length → ¬Live s i

theorem NewestLive.singleLive {s : Manager} (h : NewestLive s) : SingleLive s := by
  intro i j hi hj
  rcases h.live i hi with hnewi | ⟨hrunning, hprei⟩
  · rcases h.live j hj with hnewj | ⟨hrunning, -⟩
    · omega
    · exact absurd hi (h.unstarted hrunning i hnewi)
  · rcases h.live j hj with hnewj | ⟨-, hprej⟩
    · exact absurd hj (h.unstarted hrunning j hnewj)
    · omega

theorem NewestLive.step {s t : Manager} {e : ManagerEvent} (h : NewestLive s)
    (hclosed : ReplacedIsClosed s e) (hstep : step s e = some t) : NewestLive t := by
  cases step_effect hstep with
  | still hlive hlength hrunning =>
      constructor
      · intro i hi
        rw [hlength, hrunning]
        exact h.live i ((hlive i).mp hi)
      · intro hstart i hnew hi
        rw [hrunning] at hstart
        rw [hlength] at hnew
        exact h.unstarted hstart i hnew ((hlive i).mp hi)
  | closed k hlive hlength hrunning =>
      constructor
      · intro i hi
        rw [hlength, hrunning]
        exact h.live i ((hlive i).mp hi).1
      · intro hstart i hnew hi
        rw [hrunning] at hstart
        rw [hlength] at hnew
        exact h.unstarted hstart i hnew ((hlive i).mp hi).1
  | advanced hconnections hbefore hafter =>
      constructor
      · intro i hi
        rw [hconnections]
        exact Or.inl ((h.live i ((live_congr hconnections).mp hi)).resolve_right
          fun hpre => hbefore hpre.1)
      · exact fun hstart => absurd hstart hafter
  | created hconnections hbefore hafter =>
      have hnew : t.connections.length = s.connections.length + 1 := by
        rw [hconnections, List.length_append, List.length_singleton]
      have hold : ∀ i, Live t i → Live s i ∧ i < s.connections.length := by
        rintro i ⟨state, hstate, hne⟩
        rw [hconnections, List.getElem?_append] at hstate
        split at hstate
        · next hlt => exact ⟨⟨state, hstate, hne⟩, hlt⟩
        · obtain rfl := List.mem_singleton.mp (List.mem_of_getElem? hstate)
          exact absurd rfl hne
      constructor
      · intro i hi
        right
        rcases h.live i (hold i hi).1 with hnewest | ⟨hrunning, -⟩
        · exact ⟨hafter, by omega⟩
        · rw [hbefore] at hrunning
          cases hrunning
      · intro _ i hnewest hi
        have hlt := (hold i hi).2
        omega
  | connecting hevent hlive hlength hbefore hafter =>
      subst hevent
      constructor
      · intro i hi
        rw [hlength]
        left
        rcases (hlive i).mp hi with hnewest | hold
        · exact hnewest
        · rcases h.live i hold with hnewest | ⟨-, hpre⟩
          · exact hnewest
          · exact absurd hold (hclosed i hpre)
      · intro hstart
        rw [hafter] at hstart
        cases hstart

/-- In every run there is at most one live connection precisely if each new
connection is started only after the one it replaces has been closed. -/
theorem single_connection_exactly_when (events : List ManagerEvent) :
    manager.Always SingleLive manager.init events ↔
      manager.Meets ReplacedIsClosed manager.init events := by
  apply Machine.always_iff_meets_of_invariant (I := NewestLive) (F := fun _ _ => True)
    (fun s h => h.singleLive)
  · exact fun s e t h _ hclosed hstep => h.step hclosed hstep
  · intro s e t h _ hstep hsingle
    cases e with
    | connectionStarted =>
        obtain ⟨-, -, -, hpos, hlive⟩ := connectionStarted_effect hstep
        intro i hpre hi
        have hnewest := hsingle i (s.connections.length - 1) ((hlive i).mpr (Or.inr hi))
          ((hlive _).mpr (Or.inl (by omega)))
        omega
    | _ => trivial
  · constructor
    · rintro i ⟨state, hstate, -⟩
      cases hstate
    · intro hstart
      cases hstart
  · exact Machine.meets_true

/-- A `Start` that runs to its end, for the connection it creates. -/
def completeStart (connection : ℕ) : List ManagerEvent :=
  [.entered, .getToken (.ok ()), .extractAccessToken (.ok ()),
    .extractAccessTokenExpiryDate (.ok 0), .connectionStarted,
    .connectionConnected connection, .returned]

/-- A token refresh closes the first connection and starts the second one; the
restart that the close has scheduled fires while the second one is reconnecting. -/
def restartWhileReconnecting : List ManagerEvent :=
  .startCalled :: completeStart 0 ++
    [.acknowledged 0, .refreshStop, .refreshStart] ++ completeStart 1 ++
    [.connectionReconnecting 1, .restartFired] ++ completeStart 2 ++ [.connectionReconnected 1]

theorem two_connections_live :
    ∃ s, manager.run manager.init restartWhileReconnecting = some s ∧
      s.connections = [.disconnected, .connected, .connected] ∧ ¬SingleLive s := by
  refine ⟨⟨[.disconnected, .connected, .connected], 0, true, 0, none, none, 0⟩, by decide, rfl,
    fun h => ?_⟩
  have heq := h 1 2 ⟨.connected, rfl, by decide⟩ ⟨.connected, rfl, by decide⟩
  cases heq

/-- No `Start` is running, waiting, or about to be made by the acknowledgement handler. -/
def Quiet (s : Manager) : Prop := s.running = none ∧ s.waiting = 0 ∧ s.refreshing = none

def NotStranded (s : Manager) : Prop :=
  s.started = true → Quiet s → (∃ i, Live s i) ∨ 0 < s.pendingRestarts

/-- Something will come of the manager without the running `Start`. -/
def Lifeline (s : Manager) : Prop :=
  (∃ i, Live s i) ∨ 0 < s.pendingRestarts ∨ 0 < s.waiting ∨ s.refreshing ≠ none

/-- The condition on a service call: if it throws, a connection is live, a restart
is pending, or another `Start` is waiting or about to be made. -/
def FailsWithLifeline (s : Manager) : ManagerEvent → Prop
  | .getToken (.error _) | .extractAccessToken (.error _)
  | .extractAccessTokenExpiryDate (.error _) => Lifeline s
  | _ => True

/-- After the first `Start` there is a lifeline whenever no `Start` is running,
and while one waits for its connection. -/
structure Sustained (s : Manager) : Prop where
  idle : s.started = true → s.running = none → Lifeline s
  awaiting : s.running = some .wait → Lifeline s
  started : s.running ≠ none ∨ 0 < s.waiting → s.started = true

theorem Sustained.notStranded {s : Manager} (h : Sustained s) : NotStranded s := by
  intro hstarted hquiet
  rcases h.idle hstarted hquiet.1 with hlive | hpending | hwaiting | hrefreshing
  · exact Or.inl hlive
  · exact Or.inr hpending
  · rw [hquiet.2.1] at hwaiting
    exact absurd hwaiting (Nat.lt_irrefl 0)
  · exact absurd hquiet.2.2 hrefreshing

section Sustained
variable {s t : Manager}

/-- A step that keeps the lifeline and leaves the running `Start` alone. -/
theorem Sustained.keep (h : Sustained s) (hlifeline : Lifeline s → Lifeline t)
    (hrunning : t.running = s.running) (hstarted : t.started = s.started)
    (hwaiting : t.waiting = s.waiting) : Sustained t := by
  refine ⟨fun hs hr => ?_, fun hr => ?_, fun hr => ?_⟩
  · exact hlifeline (h.idle (hstarted ▸ hs) (hrunning ▸ hr))
  · exact hlifeline (h.awaiting (hrunning ▸ hr))
  · rw [hrunning, hwaiting] at hr
    rw [hstarted]
    exact h.started hr

theorem Sustained.callStart (hstarted : t.started = true) (hwaiting : 0 < t.waiting) :
    Sustained t :=
  ⟨fun _ _ => Or.inr (Or.inr (Or.inl hwaiting)), fun _ => Or.inr (Or.inr (Or.inl hwaiting)),
    fun _ => hstarted⟩

theorem lifeline_close {i : ℕ} (h : Lifeline s) : Lifeline (s.close i) := by
  rcases close_cases s i with ⟨-, heq⟩ | ⟨-, -, hpending⟩
  · rw [heq]
    exact h
  · exact Or.inr (Or.inl (by omega))

theorem Sustained.close (h : Sustained s) (i : ℕ) : Sustained (s.close i) :=
  h.keep lifeline_close close_running close_started close_waiting

theorem Sustained.move (h : Sustained s) {i : ℕ} {source target : ConnectionState}
    (ht : s.move i source target = some t) (hsource : source ≠ .disconnected)
    (htarget : target ≠ .disconnected) : Sustained t := by
  refine h.keep ?_ ?_ ?_ ?_
  · rintro (⟨j, hj⟩ | hrest)
    · exact Or.inl ⟨j, (live_move ht hsource htarget).mpr hj⟩
    · rw [move_eq ht]
      exact Or.inr hrest
  · rw [move_eq ht]
  · rw [move_eq ht]
  · rw [move_eq ht]

/-- A `Start` goes on to a phase in which it does not wait. -/
theorem Sustained.begun (hstarted : t.started = true) {phase : StartPhase}
    (hrunning : t.running = some phase) (hphase : phase ≠ .wait) : Sustained t := by
  refine ⟨fun _ hr => ?_, fun hr => ?_, fun _ => hstarted⟩
  · rw [hrunning] at hr
    cases hr
  · rw [hrunning] at hr
    exact absurd (Option.some.inj hr) hphase

/-- A `Start` ends and leaves a lifeline. -/
theorem Sustained.ended (hstarted : t.started = true) (hrunning : t.running = none)
    (hlifeline : Lifeline t) : Sustained t := by
  refine ⟨fun _ _ => hlifeline, fun hr => ?_, fun _ => hstarted⟩
  rw [hrunning] at hr
  cases hr

/-- A service call throws with a lifeline, or `Start` goes on. -/
theorem Sustained.serviceCall (h : Sustained s) {current phase : StartPhase}
    (hrunning : s.running = some current) {α : Type} {outcome : Except Exception α}
    {next : α → Manager} (hfails : ∀ x, outcome = .error x → Lifeline s)
    (hnext : ∀ a, (next a).started = s.started ∧ (next a).running = some phase)
    (hphase : phase ≠ .wait) : Sustained (s.proceed outcome next) := by
  have hstarted := h.started (Or.inl (by simp [hrunning]))
  cases outcome with
  | error x => exact Sustained.ended hstarted rfl (hfails x rfl)
  | ok a => exact Sustained.begun ((hnext a).1.trans hstarted) (hnext a).2 hphase

theorem Sustained.step (h : Sustained s) {e : ManagerEvent} (hfails : FailsWithLifeline s e)
    (hstep : step s e = some t) : Sustained t := by
  cases e with
  | startCalled =>
      obtain rfl := Option.some.inj hstep
      exact Sustained.callStart rfl (Nat.succ_pos _)
  | entered =>
      obtain ⟨hlock, hstep⟩ := Option.ite_none_right_eq_some.mp hstep
      have hstarted := h.started (Or.inr hlock.2)
      split at hstep
      · next hconnected =>
        obtain rfl := Option.some.inj hstep
        refine Sustained.ended hstarted hlock.1
          (Or.inl ⟨s.connections.length - 1, .connected, ?_, by decide⟩)
        have hnewest := beq_iff_eq.mp hconnected
        rw [Manager.hubConnection, List.getLast?_eq_getElem?] at hnewest
        exact hnewest
      · obtain rfl := Option.some.inj hstep
        exact Sustained.begun hstarted rfl (by decide)
  | getToken outcome =>
      obtain ⟨hrunning, rfl⟩ := guarded hstep
      refine h.serviceCall hrunning ?_ (fun a => ⟨rfl, rfl⟩) (by decide)
      rintro x rfl
      exact hfails
  | extractAccessToken outcome =>
      obtain ⟨hrunning, rfl⟩ := guarded hstep
      refine h.serviceCall hrunning ?_ (fun a => ⟨rfl, rfl⟩) (by decide)
      rintro x rfl
      exact hfails
  | extractAccessTokenExpiryDate outcome =>
      obtain ⟨hrunning, rfl⟩ := guarded hstep
      refine h.serviceCall hrunning ?_ (fun a => ⟨rfl, rfl⟩) (by decide)
      rintro x rfl
      exact hfails
  | connectionStarted =>
      obtain ⟨hbefore, hafter, -, hpos, hlive⟩ := connectionStarted_effect hstep
      have hstarted : t.started = true := by
        simp only [HubConnectionManager.step, if_pos hbefore] at hstep
        rw [move_eq hstep]
        exact h.started (Or.inl (by simp [hbefore]))
      have hlifeline : Lifeline t :=
        Or.inl ⟨s.connections.length - 1, (hlive _).mpr (Or.inl (by omega))⟩
      exact ⟨fun _ _ => hlifeline, fun _ => hlifeline, fun _ => hstarted⟩
  | returned =>
      obtain ⟨hwait, rfl⟩ := guarded hstep
      exact Sustained.ended (h.started (Or.inl (by simp [hwait.1]))) rfl (h.awaiting hwait.1)
  | stopCalled =>
      obtain rfl := Option.some.inj hstep
      exact h.close _
  | connectionConnected i => exact h.move hstep (by decide) (by decide)
  | connectionReconnecting i => exact h.move hstep (by decide) (by decide)
  | connectionReconnected i => exact h.move hstep (by decide) (by decide)
  | connectionClosed i =>
      obtain ⟨-, rfl⟩ := guarded hstep
      exact h.close i
  | connectionSlow i =>
      obtain ⟨-, rfl⟩ := guarded hstep
      exact h.close _
  | connectionError i =>
      obtain ⟨-, rfl⟩ := guarded hstep
      exact h.close _
  | restartFired =>
      obtain ⟨-, rfl⟩ := guarded hstep
      exact Sustained.callStart rfl (Nat.succ_pos _)
  | acknowledged utcNow =>
      obtain ⟨-, rfl⟩ := guarded hstep
      split
      · exact h.keep (fun _ => Or.inr (Or.inr (Or.inr (by simp)))) rfl rfl rfl
      · exact h
  | refreshStop =>
      obtain ⟨-, rfl⟩ := guarded hstep
      exact (h.close (s.connections.length - 1)).keep
        (fun _ => Or.inr (Or.inr (Or.inr (by simp)))) rfl rfl rfl
  | refreshStart =>
      obtain ⟨-, rfl⟩ := guarded hstep
      exact Sustained.callStart rfl (Nat.succ_pos _)

/-- A service call that throws without a lifeline strands the subscriber. -/
theorem Sustained.lifeline_of_failure (h : Sustained s) {α : Type} {x : Exception}
    {next : α → Manager} (hrunning : s.running ≠ none)
    (ht : NotStranded (s.proceed (.error x) next)) : Lifeline s := by
  by_contra hnone
  unfold Lifeline at hnone
  simp only [not_or, ne_eq, not_not, Nat.not_lt, Nat.le_zero] at hnone
  obtain ⟨hdead, hpending, hwaiting, hrefreshing⟩ := hnone
  rcases ht (h.started (Or.inl hrunning)) ⟨rfl, hwaiting, hrefreshing⟩ with hlive | hlater
  · exact hdead hlive
  · change 0 < s.pendingRestarts at hlater
    omega

theorem Sustained.failsWithLifeline (h : Sustained s) {e : ManagerEvent}
    (hstep : HubConnectionManager.step s e = some t) (ht : NotStranded t) :
    FailsWithLifeline s e := by
  cases e with
  | getToken outcome =>
      cases outcome with
      | ok a => trivial
      | error x =>
          obtain ⟨hrunning, rfl⟩ := guarded hstep
          exact h.lifeline_of_failure (by simp [hrunning]) ht
  | extractAccessToken outcome =>
      cases outcome with
      | ok a => trivial
      | error x =>
          obtain ⟨hrunning, rfl⟩ := guarded hstep
          exact h.lifeline_of_failure (by simp [hrunning]) ht
  | extractAccessTokenExpiryDate outcome =>
      cases outcome with
      | ok a => trivial
      | error x =>
          obtain ⟨hrunning, rfl⟩ := guarded hstep
          exact h.lifeline_of_failure (by simp [hrunning]) ht
  | _ => trivial

end Sustained

/-- In every run the subscriber is not stranded precisely if a token call throws
only while something else will bring a connection about. -/
theorem never_stranded_exactly_when (events : List ManagerEvent) :
    manager.Always NotStranded manager.init events ↔
      manager.Meets FailsWithLifeline manager.init events := by
  apply Machine.always_iff_meets_of_invariant (I := Sustained) (F := fun _ _ => True)
    (fun s h => h.notStranded)
  · exact fun s e t h _ hfails hstep => h.step hfails hstep
  · exact fun s e t h _ hstep ht => h.failsWithLifeline hstep ht
  · refine ⟨?_, ?_, ?_⟩
    · intro hstarted
      cases hstarted
    · intro hwait
      cases hwait
    · rintro (hrunning | hwaiting)
      · exact absurd rfl hrunning
      · exact absurd hwaiting (Nat.lt_irrefl 0)
  · exact Machine.meets_true

/-- The token of the first `Start` cannot be obtained, and nothing tries again. -/
theorem failed_token_strands :
    ∃ s, manager.run manager.init [.startCalled, .entered, .getToken (.error .external)] =
        some s ∧
      s.started = true ∧ Quiet s ∧ s.connections = [] ∧ s.pendingRestarts = 0 ∧
      ¬NotStranded s := by
  refine ⟨⟨[], 0, true, 0, none, none, 0⟩, by decide, rfl, ⟨rfl, rfl, rfl⟩, rfl, rfl, fun h => ?_⟩
  rcases h rfl ⟨rfl, rfl, rfl⟩ with ⟨i, state, hstate, -⟩ | hpending
  · cases hstate
  · exact absurd hpending (Nat.lt_irrefl 0)

end ReliableSignalR.HubConnectionManager
