import ReliableSignalR.BrokerConnectionManager
import ReliableSignalR.TraceEquivalence

/-!
# The order of registry calls

Callbacks of different connections reach the registry in any order. What the
order of two calls can change is the order of the list, which no question about
the registry depends on, because a broker has at most one entry that is not
expired. Calls therefore matter in their order only if they are about the same
connection, or if both add a connection of the same broker.
-/
namespace ReliableSignalR.RegistryOrder
open DotNet EventRuns TraceEquivalence BrokerConnectionManager

def SameEntries (r s : BrokerConnections) : Prop := ∀ c, c ∈ r.entries ↔ c ∈ s.entries

theorem sameEntries_equivalence : Equivalence SameEntries where
  refl _ _ := Iff.rfl
  symm h c := (h c).symm
  trans h h' c := (h c).trans (h' c)

def superceeded (brokerId : ℤ) (b : BrokerConnection) : BrokerConnection :=
  if b.brokerId = brokerId then { b with expired := true } else b

theorem superceeded_of_ne {brokerId : ℤ} {b : BrokerConnection} (h : b.brokerId ≠ brokerId) :
    superceeded brokerId b = b := if_neg h

@[simp] theorem superceeded_connectionId (brokerId : ℤ) (b : BrokerConnection) :
    (superceeded brokerId b).connectionId = b.connectionId := by
  unfold superceeded
  split <;> rfl

@[simp] theorem superceeded_brokerId (brokerId : ℤ) (b : BrokerConnection) :
    (superceeded brokerId b).brokerId = b.brokerId := by
  unfold superceeded
  split <;> rfl

theorem superceeded_comm (brokerId brokerId' : ℤ) (b : BrokerConnection) :
    superceeded brokerId (superceeded brokerId' b) =
      superceeded brokerId' (superceeded brokerId b) := by
  by_cases h : b.brokerId = brokerId
  · by_cases h' : b.brokerId = brokerId'
    · rw [← h, ← h']
    · have hafter : (superceeded brokerId b).brokerId ≠ brokerId' := by
        rwa [superceeded_brokerId]
      rw [superceeded_of_ne h', superceeded_of_ne hafter]
  · have hafter : (superceeded brokerId' b).brokerId ≠ brokerId := by
      rwa [superceeded_brokerId]
    rw [superceeded_of_ne h, superceeded_of_ne hafter]

section Members
variable {r s : BrokerConnections} {c d : String} {a b : ℤ} {u v : DateTime}
  {e : BrokerConnection}

theorem mem_add (h : c ∉ r.connectionIds) :
    e ∈ (r.addConnection c a u).entries ↔
      e = ⟨c, a, u, false⟩ ∨ ∃ x ∈ r.entries, e = superceeded a x :=
  BrokerConnections.mem_entries_addConnection h

theorem SameEntries.connectionIds (h : SameEntries r s) :
    c ∈ r.connectionIds ↔ c ∈ s.connectionIds := by
  simp only [BrokerConnections.connectionIds, List.mem_map, h _]

theorem SameEntries.addConnection (h : SameEntries r s) :
    SameEntries (r.addConnection c a u) (s.addConnection c a u) := by
  by_cases hin : c ∈ r.connectionIds
  · rw [BrokerConnections.addConnection_of_mem hin,
      BrokerConnections.addConnection_of_mem (h.connectionIds.mp hin)]
    exact h
  · intro e
    rw [mem_add hin, mem_add (fun hs => hin (h.connectionIds.mpr hs))]
    simp only [h _]

theorem SameEntries.removeConnection (h : SameEntries r s) :
    SameEntries (r.removeConnection c) (s.removeConnection c) := by
  intro e
  rw [BrokerConnections.mem_entries_removeConnection,
    BrokerConnections.mem_entries_removeConnection, h e]

theorem SameEntries.perform (h : SameEntries r s) (call : Call) :
    SameEntries (perform r call) (perform s call) := by
  cases call with
  | addConnection c a u => exact h.addConnection
  | removeConnection c => exact h.removeConnection
  | clearBrokerConnections => exact fun _ => Iff.rfl

theorem mem_add_add (hc : c ∉ r.connectionIds) (hd : d ∉ r.connectionIds) (hcd : c ≠ d)
    (hab : a ≠ b) :
    e ∈ ((r.addConnection c a u).addConnection d b v).entries ↔
      e = ⟨d, b, v, false⟩ ∨ e = ⟨c, a, u, false⟩ ∨
        ∃ x ∈ r.entries, e = superceeded b (superceeded a x) := by
  have hd' : d ∉ (r.addConnection c a u).connectionIds := by
    rw [BrokerConnections.mem_connectionIds_addConnection]
    exact fun h => h.elim hd fun h => hcd h.symm
  have hnew : superceeded b ⟨c, a, u, false⟩ = ⟨c, a, u, false⟩ := superceeded_of_ne hab
  rw [mem_add hd']
  simp only [mem_add hc]
  apply or_congr_right
  constructor
  · rintro ⟨x, rfl | ⟨y, hy, rfl⟩, rfl⟩
    · exact Or.inl hnew
    · exact Or.inr ⟨y, hy, rfl⟩
  · rintro (rfl | ⟨y, hy, rfl⟩)
    · exact ⟨_, Or.inl rfl, hnew.symm⟩
    · exact ⟨_, Or.inr ⟨y, hy, rfl⟩, rfl⟩

theorem add_add_comm (hcd : c ≠ d) (hab : a ≠ b) :
    SameEntries ((r.addConnection c a u).addConnection d b v)
      ((r.addConnection d b v).addConnection c a u) := by
  by_cases hc : c ∈ r.connectionIds
  · have hc' : c ∈ (r.addConnection d b v).connectionIds :=
      BrokerConnections.mem_connectionIds_addConnection.mpr (Or.inl hc)
    rw [BrokerConnections.addConnection_of_mem hc, BrokerConnections.addConnection_of_mem hc']
    exact fun _ => Iff.rfl
  by_cases hd : d ∈ r.connectionIds
  · have hd' : d ∈ (r.addConnection c a u).connectionIds :=
      BrokerConnections.mem_connectionIds_addConnection.mpr (Or.inl hd)
    rw [BrokerConnections.addConnection_of_mem hd, BrokerConnections.addConnection_of_mem hd']
    exact fun _ => Iff.rfl
  · intro e
    rw [mem_add_add hc hd hcd hab, mem_add_add hd hc hcd.symm hab.symm]
    simp only [superceeded_comm b a]
    exact or_left_comm

theorem add_remove_comm (hcd : c ≠ d) :
    SameEntries ((r.addConnection c a u).removeConnection d)
      ((r.removeConnection d).addConnection c a u) := by
  have hids : c ∈ (r.removeConnection d).connectionIds ↔ c ∈ r.connectionIds := by
    rw [BrokerConnections.mem_connectionIds_removeConnection]
    exact and_iff_left hcd
  by_cases hc : c ∈ r.connectionIds
  · rw [BrokerConnections.addConnection_of_mem hc,
      BrokerConnections.addConnection_of_mem (hids.mpr hc)]
    exact fun _ => Iff.rfl
  · intro e
    rw [BrokerConnections.mem_entries_removeConnection, mem_add hc,
      mem_add (fun h => hc (hids.mp h))]
    constructor
    · rintro ⟨rfl | ⟨x, hx, rfl⟩, hid⟩
      · exact Or.inl rfl
      · rw [superceeded_connectionId] at hid
        exact Or.inr ⟨x, BrokerConnections.mem_entries_removeConnection.mpr ⟨hx, hid⟩, rfl⟩
    · rintro (rfl | ⟨x, hx, rfl⟩)
      · exact ⟨Or.inl rfl, hcd⟩
      · obtain ⟨hx, hid⟩ := BrokerConnections.mem_entries_removeConnection.mp hx
        exact ⟨Or.inr ⟨x, hx, rfl⟩, by rwa [superceeded_connectionId]⟩

theorem remove_remove_comm :
    SameEntries ((r.removeConnection c).removeConnection d)
      ((r.removeConnection d).removeConnection c) := by
  intro e
  simp only [BrokerConnections.mem_entries_removeConnection, and_assoc]
  rw [and_comm (a := e.connectionId ≠ c)]

end Members

/-- What the order of a call is relative to. -/
inductive Key
  | connection (connectionId : String)
  | broker (brokerId : ℤ)
deriving DecidableEq

def ofConnection (connectionId : String) : Call → Bool
  | .addConnection c _ _ => c == connectionId
  | .removeConnection c => c == connectionId
  | .clearBrokerConnections => true

def addsFor (brokerId : ℤ) : Call → Bool
  | .addConnection _ b _ => b == brokerId
  | _ => false

def concerns : Key → Call → Bool
  | .connection connectionId => ofConnection connectionId
  | .broker brokerId => addsFor brokerId

theorem concerns_some (call : Call) : ∃ k, concerns k call = true := by
  cases call with
  | addConnection c b u => exact ⟨.connection c, beq_self_eq_true c⟩
  | removeConnection c => exact ⟨.connection c, beq_self_eq_true c⟩
  | clearBrokerConnections => exact ⟨.connection "", rfl⟩

theorem different_connections {x y : Call} (h : Independent concerns x y) (c : String) :
    ¬(ofConnection c x = true ∧ ofConnection c y = true) := h (.connection c)

theorem different_brokers {x y : Call} (h : Independent concerns x y) (b : ℤ) :
    ¬(addsFor b x = true ∧ addsFor b y = true) := h (.broker b)

/-- Calls about different connections that do not both add to one broker commute. -/
theorem perform_comm {x y : Call} (h : Independent concerns x y) (r : BrokerConnections) :
    SameEntries (perform (perform r x) y) (perform (perform r y) x) := by
  cases x with
  | clearBrokerConnections =>
      obtain ⟨k, hk⟩ := concerns_some y
      cases y with
      | clearBrokerConnections => exact fun _ => Iff.rfl
      | addConnection c b u =>
          exact absurd ⟨rfl, beq_self_eq_true c⟩ (different_connections h c)
      | removeConnection c => exact absurd ⟨rfl, beq_self_eq_true c⟩ (different_connections h c)
  | addConnection c a u =>
      have hc := different_connections h c
      cases y with
      | clearBrokerConnections => exact absurd ⟨beq_self_eq_true c, rfl⟩ hc
      | addConnection d b v =>
          apply add_add_comm
          · intro hcd
            exact hc ⟨beq_self_eq_true c, beq_iff_eq.mpr hcd.symm⟩
          · intro hab
            exact different_brokers h a ⟨beq_self_eq_true a, beq_iff_eq.mpr hab.symm⟩
      | removeConnection d =>
          apply add_remove_comm
          intro hcd
          exact hc ⟨beq_self_eq_true c, beq_iff_eq.mpr hcd.symm⟩
  | removeConnection c =>
      have hc := different_connections h c
      cases y with
      | clearBrokerConnections => exact absurd ⟨beq_self_eq_true c, rfl⟩ hc
      | addConnection d b v =>
          apply sameEntries_equivalence.symm
          apply add_remove_comm
          intro hcd
          exact hc ⟨beq_self_eq_true c, beq_iff_eq.mpr hcd⟩
      | removeConnection d => exact remove_remove_comm

theorem perform_commutes : Commutes concerns perform SameEntries where
  equivalence := sameEntries_equivalence
  respects _ _ call h := h.perform call
  commute r _ _ h := perform_comm h r

/-- Two registries that answer every question about brokers alike. -/
structure AnswersAlike (r s : BrokerConnections) : Prop where
  connected : ∀ brokerId,
    isBrokerConnected r.entries brokerId = isBrokerConnected s.entries brokerId
  number : numberOfConnectedBrokers r.entries = numberOfConnectedBrokers s.entries
  due : ∀ brokerId utcNow,
    activeBrokerTokenIsDueToExpire r.entries brokerId utcNow =
      activeBrokerTokenIsDueToExpire s.entries brokerId utcNow

section Answers
variable {r s : BrokerConnections}

theorem SameEntries.isBrokerConnected (h : SameEntries r s) (brokerId : ℤ) :
    isBrokerConnected r.entries brokerId = isBrokerConnected s.entries brokerId := by
  rw [Bool.eq_iff_iff, isBrokerConnected_iff, isBrokerConnected_iff]
  simp only [h _]

theorem SameEntries.numberOfConnectedBrokers (h : SameEntries r s) :
    numberOfConnectedBrokers r.entries = numberOfConnectedBrokers s.entries := by
  have hmem : ∀ b, b ∈ (r.entries.map fun c => c.brokerId).dedup ↔
      b ∈ (s.entries.map fun c => c.brokerId).dedup := by
    intro b
    simp only [List.mem_dedup, List.mem_map, h _]
  exact ((List.perm_ext_iff_of_nodup (List.nodup_dedup _) (List.nodup_dedup _)).mpr hmem).length_eq

/-- The entry that `First` finds is the only one it can find. -/
theorem find_active_eq_some {brokerId : ℤ} {c : BrokerConnection} :
    (r.entries.find? fun b => b.brokerId == brokerId && !b.expired) = some c ↔
      c ∈ r.entries ∧ c.brokerId = brokerId ∧ c.expired = false := by
  constructor
  · intro hfind
    have hc := List.find?_some hfind
    simp only [Bool.and_eq_true, beq_iff_eq, Bool.not_eq_true'] at hc
    exact ⟨List.mem_of_find?_eq_some hfind, hc⟩
  · rintro ⟨hc, hbroker, hexpired⟩
    have hsome : (r.entries.find? fun b => b.brokerId == brokerId && !b.expired).isSome = true :=
      List.find?_isSome.mpr ⟨c, hc, by simp [hbroker, hexpired]⟩
    obtain ⟨d, hd⟩ := Option.isSome_iff_exists.mp hsome
    have hdc := List.find?_some hd
    simp only [Bool.and_eq_true, beq_iff_eq, Bool.not_eq_true'] at hdc
    rw [hd, r.eq_of_not_expired (List.mem_of_find?_eq_some hd) hc
      (hdc.1.trans hbroker.symm) hdc.2 hexpired]

theorem SameEntries.find_active (h : SameEntries r s) (brokerId : ℤ) :
    (r.entries.find? fun b => b.brokerId == brokerId && !b.expired) =
      s.entries.find? fun b => b.brokerId == brokerId && !b.expired := by
  ext c
  rw [find_active_eq_some, find_active_eq_some, h c]

theorem SameEntries.activeBrokerTokenIsDueToExpire (h : SameEntries r s) (brokerId : ℤ)
    (utcNow : DateTime) :
    activeBrokerTokenIsDueToExpire r.entries brokerId utcNow =
      activeBrokerTokenIsDueToExpire s.entries brokerId utcNow := by
  have hall : (r.entries.all fun b => b.brokerId != brokerId) =
      s.entries.all fun b => b.brokerId != brokerId := by
    rw [Bool.eq_iff_iff, List.all_eq_true, List.all_eq_true]
    simp only [h _]
  unfold BrokerConnectionManager.activeBrokerTokenIsDueToExpire
  rw [hall, h.find_active brokerId]

theorem SameEntries.answersAlike (h : SameEntries r s) : AnswersAlike r s where
  connected := h.isBrokerConnected
  number := h.numberOfConnectedBrokers
  due := h.activeBrokerTokenIsDueToExpire

end Answers

theorem manager_run (r : BrokerConnections) (calls : List Call) :
    manager.run r calls = some (calls.foldl perform r) := by
  induction calls generalizing r with
  | nil => rfl
  | cons call calls ih => exact ih (perform r call)

/-- Interleavings that keep the order of the calls of each connection and of the
additions for each broker end in registries that answer alike. -/
theorem interleavings_answer_alike (calls calls' : List Call)
    (hconnections : ∀ connectionId,
      calls.filter (ofConnection connectionId) = calls'.filter (ofConnection connectionId))
    (hbrokers : ∀ brokerId,
      calls.filter (addsFor brokerId) = calls'.filter (addsFor brokerId)) :
    ∃ r r', manager.run manager.init calls = some r ∧
      manager.run manager.init calls' = some r' ∧ AnswersAlike r r' := by
  refine ⟨_, _, manager_run _ calls, manager_run _ calls', ?_⟩
  have hprojections : SameProjections concerns calls calls' := by
    intro k
    cases k with
    | connection connectionId => exact hconnections connectionId
    | broker brokerId => exact hbrokers brokerId
  exact (perform_commutes.sameProjections concerns_some hprojections manager.init).answersAlike

theorem interleaved_reconnection :
    ∃ r r',
      manager.run manager.init [.addConnection "conn1" 123 0, .addConnection "conn2" 456 5,
        .addConnection "conn3" 123 9, .removeConnection "conn1"] = some r ∧
      manager.run manager.init [.addConnection "conn2" 456 5, .addConnection "conn1" 123 0,
        .removeConnection "conn1", .addConnection "conn3" 123 9] = some r' ∧
      AnswersAlike r r' := by
  apply interleavings_answer_alike
  · intro connectionId
    by_cases h1 : "conn1" = connectionId
    · subst h1
      rfl
    · simp [List.filter_cons, ofConnection, h1]
  · intro brokerId
    by_cases h1 : 123 = brokerId
    · subst h1
      rfl
    · simp [List.filter_cons, addsFor, h1]

end ReliableSignalR.RegistryOrder
