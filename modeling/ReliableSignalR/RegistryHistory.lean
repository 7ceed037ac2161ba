import ReliableSignalR.RegistryOrder
import Mathlib.Data.Finmap
import Mathlib.Data.Set.Card

/-!
# What the registry remembers of its calls

The list of connections stands for a finite map from connection ids to a broker
and the expiry of its token. The marks are not part of the map: they say which
connection of a broker is the newest, and the token check follows that one. Both
are statements about every sequence of calls.
-/
namespace ReliableSignalR.RegistryHistory
open DotNet EventRuns BrokerConnectionManager RegistryOrder

abbrev ConnectionMap := Finmap fun _ : String => ℤ × DateTime

namespace ConnectionMap

def insertIfAbsent (m : ConnectionMap) (connectionId : String) (brokerId : ℤ)
    (tokenExpiresOn : DateTime) : ConnectionMap :=
  if connectionId ∈ m then m else m.insert connectionId (brokerId, tokenExpiresOn)

def perform (m : ConnectionMap) : Call → ConnectionMap
  | .addConnection connectionId brokerId tokenExpiresOn =>
      m.insertIfAbsent connectionId brokerId tokenExpiresOn
  | .removeConnection connectionId => m.erase connectionId
  | .clearBrokerConnections => ∅

/-- The brokers in the range of the map. -/
def brokers (m : ConnectionMap) : Set ℤ :=
  {brokerId | ∃ connectionId tokenExpiresOn,
    m.lookup connectionId = some (brokerId, tokenExpiresOn)}

end ConnectionMap

def connectionMap : Machine ConnectionMap Call where
  init := ∅
  step m call := some (m.perform call)

/-- The list and the map hold the same entries, up to the marks. -/
def SameConnections (r : BrokerConnections) (m : ConnectionMap) : Prop :=
  ∀ connectionId brokerId tokenExpiresOn,
    m.lookup connectionId = some (brokerId, tokenExpiresOn) ↔
      ∃ c ∈ r.entries, c.connectionId = connectionId ∧ c.brokerId = brokerId ∧
        c.tokenExpiresOn = tokenExpiresOn

section SameConnections
variable {r : BrokerConnections} {m : ConnectionMap} {connectionId : String} {brokerId : ℤ}
  {tokenExpiresOn : DateTime}

theorem sameConnections_empty : SameConnections BrokerConnections.empty ∅ := by
  intro connectionId brokerId tokenExpiresOn
  simp [BrokerConnections.empty]

theorem SameConnections.mem_iff (h : SameConnections r m) :
    connectionId ∈ m ↔ connectionId ∈ r.connectionIds := by
  rw [Finmap.mem_iff, BrokerConnections.connectionIds, List.mem_map]
  constructor
  · rintro ⟨⟨brokerId, tokenExpiresOn⟩, hlookup⟩
    obtain ⟨c, hc, hid, -⟩ := (h _ _ _).mp hlookup
    exact ⟨c, hc, hid⟩
  · rintro ⟨c, hc, hid⟩
    exact ⟨(c.brokerId, c.tokenExpiresOn), (h _ _ _).mpr ⟨c, hc, hid, rfl, rfl⟩⟩

/-- Superseding changes no broker and no expiry. -/
theorem superceeded_tokenExpiresOn (brokerId : ℤ) (b : BrokerConnection) :
    (superceeded brokerId b).tokenExpiresOn = b.tokenExpiresOn := by
  unfold superceeded
  split <;> rfl

theorem SameConnections.addConnection (h : SameConnections r m) :
    SameConnections (r.addConnection connectionId brokerId tokenExpiresOn)
      (m.insertIfAbsent connectionId brokerId tokenExpiresOn) := by
  by_cases hin : connectionId ∈ r.connectionIds
  · rw [BrokerConnections.addConnection_of_mem hin, ConnectionMap.insertIfAbsent,
      if_pos (h.mem_iff.mpr hin)]
    exact h
  rw [ConnectionMap.insertIfAbsent, if_neg (fun hm => hin (h.mem_iff.mp hm))]
  intro i b u
  simp only [mem_add hin]
  by_cases hi : i = connectionId
  · subst hi
    rw [Finmap.lookup_insert, Option.some.injEq, Prod.mk.injEq]
    constructor
    · rintro ⟨rfl, rfl⟩
      exact ⟨_, Or.inl rfl, rfl, rfl, rfl⟩
    · rintro ⟨c, rfl | ⟨d, hd, rfl⟩, hid, hbroker, htoken⟩
      · exact ⟨hbroker, htoken⟩
      · rw [superceeded_connectionId] at hid
        exact absurd (hid ▸ List.mem_map_of_mem hd) hin
  · rw [Finmap.lookup_insert_of_ne _ hi, h i b u]
    constructor
    · rintro ⟨c, hc, hid, hbroker, htoken⟩
      refine ⟨superceeded brokerId c, Or.inr ⟨c, hc, rfl⟩, ?_, ?_, ?_⟩
      · rw [superceeded_connectionId, hid]
      · rw [superceeded_brokerId, hbroker]
      · rw [superceeded_tokenExpiresOn, htoken]
    · rintro ⟨c, rfl | ⟨d, hd, rfl⟩, hid, hbroker, htoken⟩
      · exact absurd hid.symm hi
      · rw [superceeded_connectionId] at hid
        rw [superceeded_brokerId] at hbroker
        rw [superceeded_tokenExpiresOn] at htoken
        exact ⟨d, hd, hid, hbroker, htoken⟩

theorem SameConnections.removeConnection (h : SameConnections r m) :
    SameConnections (r.removeConnection connectionId) (m.erase connectionId) := by
  intro i b u
  simp only [BrokerConnections.mem_entries_removeConnection]
  by_cases hi : i = connectionId
  · subst hi
    rw [Finmap.lookup_erase]
    constructor
    · intro hnone
      cases hnone
    · rintro ⟨c, ⟨-, hne⟩, hid, -⟩
      exact absurd hid hne
  · rw [Finmap.lookup_erase_ne hi, h i b u]
    constructor
    · rintro ⟨c, hc, hid, hrest⟩
      exact ⟨c, ⟨hc, fun heq => hi (hid.symm.trans heq)⟩, hid, hrest⟩
    · rintro ⟨c, ⟨hc, -⟩, hrest⟩
      exact ⟨c, hc, hrest⟩

theorem SameConnections.perform (h : SameConnections r m) (call : Call) :
    SameConnections (perform r call) (m.perform call) := by
  cases call with
  | addConnection connectionId brokerId tokenExpiresOn => exact h.addConnection
  | removeConnection connectionId => exact h.removeConnection
  | clearBrokerConnections => exact sameConnections_empty

theorem SameConnections.mem_brokers (h : SameConnections r m) :
    brokerId ∈ m.brokers ↔ ∃ c ∈ r.entries, c.brokerId = brokerId := by
  constructor
  · rintro ⟨connectionId, tokenExpiresOn, hlookup⟩
    obtain ⟨c, hc, -, hbroker, -⟩ := (h _ _ _).mp hlookup
    exact ⟨c, hc, hbroker⟩
  · rintro ⟨c, hc, hbroker⟩
    exact ⟨c.connectionId, c.tokenExpiresOn, (h _ _ _).mpr ⟨c, hc, rfl, hbroker, rfl⟩⟩

theorem SameConnections.ncard_brokers (h : SameConnections r m) :
    m.brokers.ncard = numberOfConnectedBrokers r.entries := by
  have hset : m.brokers = ↑(r.entries.map fun c => c.brokerId).toFinset := by
    ext brokerId
    simp [h.mem_brokers]
  rw [hset, Set.ncard_coe_finset, List.card_toFinset, numberOfConnectedBrokers]

end SameConnections

/-- The list answers as the map does, and no connection id occurs twice in it. -/
structure Shows (r : BrokerConnections) (m : ConnectionMap) : Prop where
  unique : (r.entries.map BrokerConnection.connectionId).Nodup
  same : SameConnections r m
  connected : ∀ brokerId, isBrokerConnected r.entries brokerId = true ↔ brokerId ∈ m.brokers
  number : numberOfConnectedBrokers r.entries = m.brokers.ncard

/-- After every sequence of calls the list shows the map that the same calls
have built, and both have got through all of them. -/
theorem list_refines_map (calls : List Call) :
    ∃ r m, manager.run manager.init calls = some r ∧
      connectionMap.run connectionMap.init calls = some m ∧ Shows r m := by
  have hsteps : ∀ r m call r', SameConnections r m → manager.step r call = some r' →
      ∃ m', connectionMap.step m call = some m' ∧ SameConnections r' m' := by
    intro r m call r' h hr
    obtain rfl := Option.some.inj hr
    exact ⟨_, rfl, h.perform call⟩
  have hrun := manager_run manager.init calls
  obtain ⟨m, hm, h⟩ := Machine.run_simulates hsteps sameConnections_empty hrun
  refine ⟨_, m, hrun, hm, BrokerConnections.unique _, h, fun brokerId => ?_, h.ncard_brokers.symm⟩
  rw [isBrokerConnected_iff, h.mem_brokers]

/-- The call leaves the connection in the list and the newest of its broker. -/
def KeepsNewest (connectionId : String) (brokerId : ℤ) (r : BrokerConnections) : Call → Prop
  | .addConnection added brokerId' _ => brokerId' = brokerId → added ∈ r.connectionIds
  | .removeConnection removed => removed ≠ connectionId
  | .clearBrokerConnections => False

instance (connectionId : String) (brokerId : ℤ) (r : BrokerConnections) :
    ∀ call, Decidable (KeepsNewest connectionId brokerId r call)
  | .addConnection added brokerId' _ =>
      inferInstanceAs (Decidable (brokerId' = brokerId → added ∈ r.connectionIds))
  | .removeConnection removed => inferInstanceAs (Decidable (removed ≠ connectionId))
  | .clearBrokerConnections => inferInstanceAs (Decidable False)

/-- The last accepted `AddConnection` of the broker in these calls has added this
connection, which is still there. -/
def Newest (calls : List Call) (brokerId : ℤ) (connectionId : String)
    (tokenExpiresOn : DateTime) : Prop :=
  ∃ before after r, calls = before ++ .addConnection connectionId brokerId tokenExpiresOn :: after ∧
    manager.run manager.init before = some r ∧ connectionId ∉ r.connectionIds ∧
    manager.Meets (KeepsNewest connectionId brokerId)
      (r.addConnection connectionId brokerId tokenExpiresOn) after

section Newest
variable {r : BrokerConnections} {connectionId : String} {brokerId : ℤ} {tokenExpiresOn : DateTime}

theorem active_perform
    (h : (⟨connectionId, brokerId, tokenExpiresOn, false⟩ : BrokerConnection) ∈ r.entries)
    {call : Call} (hcall : KeepsNewest connectionId brokerId r call) :
    (⟨connectionId, brokerId, tokenExpiresOn, false⟩ : BrokerConnection) ∈
      (perform r call).entries := by
  cases call with
  | addConnection added brokerId' tokenExpiresOn' =>
      by_cases hin : added ∈ r.connectionIds
      · rw [perform, BrokerConnections.addConnection_of_mem hin]
        exact h
      · have hne : brokerId ≠ brokerId' := fun heq => hin (hcall heq.symm)
        exact (mem_add hin).mpr (Or.inr ⟨_, h, (superceeded_of_ne hne).symm⟩)
  | removeConnection removed =>
      exact BrokerConnections.mem_entries_removeConnection.mpr ⟨h, fun heq => hcall heq.symm⟩
  | clearBrokerConnections => exact absurd hcall id

theorem active_run
    (h : (⟨connectionId, brokerId, tokenExpiresOn, false⟩ : BrokerConnection) ∈ r.entries)
    {calls : List Call} (hcalls : manager.Meets (KeepsNewest connectionId brokerId) r calls) :
    (⟨connectionId, brokerId, tokenExpiresOn, false⟩ : BrokerConnection) ∈
      (calls.foldl perform r).entries := by
  have hkeep : ∀ (r : BrokerConnections) call t,
      ⟨connectionId, brokerId, tokenExpiresOn, false⟩ ∈ r.entries →
        KeepsNewest connectionId brokerId r call → manager.step r call = some t →
          ⟨connectionId, brokerId, tokenExpiresOn, false⟩ ∈ t.entries := by
    intro r call t hr hcall ht
    obtain rfl := Option.some.inj ht
    exact active_perform hr hcall
  exact (Machine.always_of_meets hkeep h hcalls).last (manager_run r calls)

/-- An entry that is not expired is the one that the token check looks at. -/
theorem due_of_active
    (h : (⟨connectionId, brokerId, tokenExpiresOn, false⟩ : BrokerConnection) ∈ r.entries)
    (utcNow : DateTime) :
    activeBrokerTokenIsDueToExpire r.entries brokerId utcNow =
      .ok (decide (tokenExpiresOn ≤ DateTime.addMinutes utcNow 5)) := by
  have hall : ¬(r.entries.all fun b => b.brokerId != brokerId) = true := by
    intro hall
    have hne := List.all_eq_true.mp hall _ h
    simp at hne
  rw [activeBrokerTokenIsDueToExpire, if_neg hall, find_active_eq_some.mpr ⟨h, rfl, rfl⟩]

end Newest

/-- After every sequence of calls the token check of a broker looks at the token
of its newest connection, whatever else has happened to the list. -/
theorem token_check_follows_newest (calls : List Call) (brokerId : ℤ) (connectionId : String)
    (tokenExpiresOn : DateTime) (h : Newest calls brokerId connectionId tokenExpiresOn) :
    ∃ r, manager.run manager.init calls = some r ∧ ∀ utcNow, ∃ due,
      activeBrokerTokenIsDueToExpire r.entries brokerId utcNow = .ok due ∧
        (due = true ↔ tokenExpiresOn ≤ DateTime.addMinutes utcNow 5) := by
  obtain ⟨before, after, r, rfl, hbefore, haccepted, hafter⟩ := h
  have hadded := (mem_add (a := brokerId) (u := tokenExpiresOn) haccepted).mpr (Or.inl rfl)
  have hactive := active_run hadded hafter
  refine ⟨_, ?_, fun utcNow => ⟨_, due_of_active hactive utcNow, decide_eq_true_iff⟩⟩
  rw [Machine.run_append, hbefore]
  exact manager_run _ after

/-- A second connection supersedes the first one, is added again with another
token, and stays the newest when other brokers and the first connection change. -/
theorem newest_of_three :
    ∃ r, manager.run manager.init [.addConnection "conn1" 123 0, .addConnection "conn2" 123 9,
        .addConnection "conn3" 456 5, .addConnection "conn2" 123 0, .removeConnection "conn1"] =
        some r ∧
      ∀ utcNow, ∃ due, activeBrokerTokenIsDueToExpire r.entries 123 utcNow = .ok due ∧
        (due = true ↔ 9 ≤ DateTime.addMinutes utcNow 5) := by
  apply token_check_follows_newest _ 123 "conn2" 9
  exact ⟨[.addConnection "conn1" 123 0], [.addConnection "conn3" 456 5,
    .addConnection "conn2" 123 0, .removeConnection "conn1"], _, rfl, rfl, by decide, by decide⟩

end ReliableSignalR.RegistryHistory
