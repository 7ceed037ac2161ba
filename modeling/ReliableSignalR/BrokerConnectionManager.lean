import ReliableSignalR.EventRuns
import ReliableSignalR.DotNet
import Mathlib.Data.List.Dedup

/-!
# The registry of broker connections

The hub keeps one static list of connections. The functions on lists follow the
methods of `BrokerConnectionManager`, each of which holds the lock on the list
for its whole body. `BrokerConnections` is the list together with the two facts
that every method keeps: connection ids are pairwise different, and an entry
that is followed by an entry of the same broker is marked as expired.
-/
namespace ReliableSignalR.BrokerConnectionManager
open DotNet EventRuns

structure BrokerConnection where
  connectionId : String
  brokerId : ℤ
  tokenExpiresOn : DateTime
  expired : Bool
deriving DecidableEq, Repr

section Methods
variable (entries : List BrokerConnection)

def numberOfConnectedBrokers : ℕ := (entries.map fun b => b.brokerId).dedup.length

def isBrokerConnected (brokerId : ℤ) : Bool := entries.any fun b => b.brokerId == brokerId

def expireSuperceededConnections (brokerId : ℤ) : List BrokerConnection :=
  entries.map fun b => if b.brokerId = brokerId then { b with expired := true } else b

def addConnection (connectionId : String) (brokerId : ℤ) (tokenExpiresOn : DateTime) :
    List BrokerConnection :=
  if entries.any fun b => b.connectionId == connectionId then entries
  else expireSuperceededConnections entries brokerId ++
    [{ connectionId, brokerId, tokenExpiresOn, expired := false }]

/-- `Remove` takes out the very object that `First` found. -/
def removeConnection (connectionId : String) : List BrokerConnection :=
  if entries.any fun b => b.connectionId == connectionId then
    entries.eraseP fun b => b.connectionId == connectionId
  else entries

def activeBrokerTokenIsDueToExpire (brokerId : ℤ) (utcNow : DateTime) : Except Exception Bool :=
  if entries.all fun b => b.brokerId != brokerId then
    .error (.applicationException "Cannot find Broker in list of connections")
  else
    match entries.find? fun b => b.brokerId == brokerId && !b.expired with
    | none => .error .invalidOperationException
    | some b => .ok (decide (b.tokenExpiresOn ≤ DateTime.addMinutes utcNow 5))

end Methods

def Unique (entries : List BrokerConnection) : Prop :=
  (entries.map BrokerConnection.connectionId).Nodup

def Superseded (entries : List BrokerConnection) : Prop :=
  entries.Pairwise fun c d => c.brokerId = d.brokerId → c.expired = true

section Methods
variable {entries : List BrokerConnection}

theorem any_connectionId {connectionId : String} :
    (entries.any fun b => b.connectionId == connectionId) = true ↔
      connectionId ∈ entries.map BrokerConnection.connectionId := by
  simp [List.any_eq_true]

@[simp] theorem isBrokerConnected_iff {brokerId : ℤ} :
    isBrokerConnected entries brokerId = true ↔ ∃ c ∈ entries, c.brokerId = brokerId := by
  simp [isBrokerConnected, List.any_eq_true]

@[simp] theorem expire_connectionIds (brokerId : ℤ) :
    (expireSuperceededConnections entries brokerId).map BrokerConnection.connectionId =
      entries.map BrokerConnection.connectionId := by
  simp only [expireSuperceededConnections, List.map_map]
  refine List.map_congr_left fun b _ => ?_
  simp only [Function.comp_apply]
  split <;> rfl

theorem mem_expire {brokerId : ℤ} {c : BrokerConnection} :
    c ∈ expireSuperceededConnections entries brokerId ↔
      ∃ b ∈ entries, c = if b.brokerId = brokerId then { b with expired := true } else b := by
  simp only [expireSuperceededConnections, List.mem_map, eq_comm]

theorem expire_superseded (h : Superseded entries) (brokerId : ℤ) :
    Superseded (expireSuperceededConnections entries brokerId) := by
  unfold Superseded expireSuperceededConnections
  rw [List.pairwise_map]
  refine h.imp fun {c d} hcd hbroker => ?_
  by_cases hc : c.brokerId = brokerId
  · simp only [hc, if_true]
  · have hd : c.brokerId = d.brokerId := by
      rw [if_neg hc] at hbroker
      split at hbroker <;> exact hbroker
    simpa only [if_neg hc] using hcd hd

theorem removeConnection_eq_eraseP (connectionId : String) :
    removeConnection entries connectionId =
      entries.eraseP fun b => b.connectionId == connectionId := by
  unfold removeConnection
  split
  · rfl
  · next habsent =>
    refine (List.eraseP_of_forall_not fun b hb hid => habsent ?_).symm
    exact List.any_eq_true.mpr ⟨b, hb, hid⟩

theorem mem_removeConnection (h : Unique entries) {connectionId : String}
    {c : BrokerConnection} :
    c ∈ removeConnection entries connectionId ↔ c ∈ entries ∧ c.connectionId ≠ connectionId := by
  rw [removeConnection_eq_eraseP]
  induction entries with
  | nil => simp
  | cons b bs ih =>
      obtain ⟨hb, hbs⟩ := List.nodup_cons.mp h
      by_cases heq : b.connectionId = connectionId
      · rw [List.eraseP_cons_of_pos (by simpa using heq), List.mem_cons]
        constructor
        · intro hc
          refine ⟨Or.inr hc, fun hid => hb ?_⟩
          rw [heq, ← hid]
          exact List.mem_map_of_mem hc
        · rintro ⟨rfl | hc, hid⟩
          · exact absurd heq hid
          · exact hc
      · rw [List.eraseP_cons_of_neg (by simpa using heq), List.mem_cons, List.mem_cons, ih hbs]
        constructor
        · rintro (rfl | ⟨hc, hid⟩)
          · exact ⟨Or.inl rfl, heq⟩
          · exact ⟨Or.inr hc, hid⟩
        · rintro ⟨rfl | hc, hid⟩
          · exact Or.inl rfl
          · exact Or.inr ⟨hc, hid⟩

theorem removeConnection_sublist (connectionId : String) :
    (removeConnection entries connectionId).Sublist entries := by
  rw [removeConnection_eq_eraseP]
  exact List.eraseP_sublist

theorem addConnection_unique (h : Unique entries) (connectionId : String) (brokerId : ℤ)
    (tokenExpiresOn : DateTime) :
    Unique (addConnection entries connectionId brokerId tokenExpiresOn) := by
  unfold addConnection
  split
  · exact h
  · next habsent =>
    rw [any_connectionId] at habsent
    simp only [Unique, List.map_append, expire_connectionIds, List.map_cons, List.map_nil]
    exact List.Nodup.append h (List.nodup_singleton _)
      (List.disjoint_singleton.mpr habsent)

theorem addConnection_superseded (h : Superseded entries) (connectionId : String)
    (brokerId : ℤ) (tokenExpiresOn : DateTime) :
    Superseded (addConnection entries connectionId brokerId tokenExpiresOn) := by
  unfold addConnection
  split
  · exact h
  · refine List.pairwise_append.mpr ⟨expire_superseded h brokerId, List.pairwise_singleton _ _, ?_⟩
    intro c hc d hd hbroker
    obtain ⟨b, -, rfl⟩ := mem_expire.mp hc
    rw [List.mem_singleton.mp hd] at hbroker
    split
    · rfl
    · next hne => exact absurd (by simpa only [if_neg hne] using hbroker) hne

end Methods

/-- The list with the facts that all methods keep. -/
structure BrokerConnections where
  entries : List BrokerConnection
  unique : Unique entries
  superseded : Superseded entries

namespace BrokerConnections

def empty : BrokerConnections := ⟨[], List.nodup_nil, List.Pairwise.nil⟩

/-- `ClearBrokerConnections` -/
def clearBrokerConnections (_ : BrokerConnections) : BrokerConnections := empty

def addConnection (r : BrokerConnections) (connectionId : String) (brokerId : ℤ)
    (tokenExpiresOn : DateTime) : BrokerConnections :=
  ⟨BrokerConnectionManager.addConnection r.entries connectionId brokerId tokenExpiresOn,
    addConnection_unique r.unique connectionId brokerId tokenExpiresOn,
    addConnection_superseded r.superseded connectionId brokerId tokenExpiresOn⟩

def removeConnection (r : BrokerConnections) (connectionId : String) : BrokerConnections :=
  ⟨BrokerConnectionManager.removeConnection r.entries connectionId,
    r.unique.sublist ((removeConnection_sublist connectionId).map _),
    r.superseded.sublist (removeConnection_sublist connectionId)⟩

variable {r : BrokerConnections}

def connectionIds (r : BrokerConnections) : List String :=
  r.entries.map BrokerConnection.connectionId

@[simp] theorem mem_connectionIds_addConnection {connectionId i : String} {brokerId : ℤ}
    {tokenExpiresOn : DateTime} :
    i ∈ (r.addConnection connectionId brokerId tokenExpiresOn).connectionIds ↔
      i ∈ r.connectionIds ∨ i = connectionId := by
  simp only [connectionIds, addConnection, BrokerConnectionManager.addConnection]
  split
  · next hin =>
    rw [any_connectionId] at hin
    constructor
    · exact Or.inl
    · rintro (h | rfl)
      · exact h
      · exact hin
  · simp only [List.map_append, expire_connectionIds, List.map_cons, List.map_nil,
      List.mem_append, List.mem_singleton]

theorem mem_entries_removeConnection {connectionId : String} {c : BrokerConnection} :
    c ∈ (r.removeConnection connectionId).entries ↔
      c ∈ r.entries ∧ c.connectionId ≠ connectionId :=
  mem_removeConnection r.unique

@[simp] theorem mem_connectionIds_removeConnection {connectionId i : String} :
    i ∈ (r.removeConnection connectionId).connectionIds ↔
      i ∈ r.connectionIds ∧ i ≠ connectionId := by
  simp only [connectionIds, List.mem_map, mem_entries_removeConnection]
  constructor
  · rintro ⟨c, ⟨hc, hne⟩, rfl⟩
    exact ⟨⟨c, hc, rfl⟩, hne⟩
  · rintro ⟨⟨c, hc, rfl⟩, hne⟩
    exact ⟨c, ⟨hc, hne⟩, rfl⟩

theorem eq_of_connectionId_eq {c d : BrokerConnection} (hc : c ∈ r.entries)
    (hd : d ∈ r.entries) (h : c.connectionId = d.connectionId) : c = d :=
  List.inj_on_of_nodup_map r.unique hc hd h

/-- A broker has at most one entry that is not expired. -/
theorem eq_of_not_expired {c d : BrokerConnection} (hc : c ∈ r.entries) (hd : d ∈ r.entries)
    (hbroker : c.brokerId = d.brokerId) (hce : c.expired = false) (hde : d.expired = false) :
    c = d := by
  have hpair : r.entries.Pairwise fun c d =>
      c.brokerId = d.brokerId → c.expired = false → d.expired = false → c = d :=
    r.superseded.imp fun h hb hce _ => absurd (h hb) (by simp [hce])
  have hflip := hpair.imp fun {c d} h (hb : d.brokerId = c.brokerId) hde hce =>
    (h hb.symm hce hde).symm
  exact hpair.forall_of_forall_of_flip (fun _ _ _ _ _ => rfl) hflip hc hd hbroker hce hde

theorem mem_entries_addConnection {connectionId : String} {brokerId : ℤ}
    {tokenExpiresOn : DateTime} (habsent : connectionId ∉ r.connectionIds)
    {c : BrokerConnection} :
    c ∈ (r.addConnection connectionId brokerId tokenExpiresOn).entries ↔
      c = ⟨connectionId, brokerId, tokenExpiresOn, false⟩ ∨
        ∃ b ∈ r.entries,
          c = if b.brokerId = brokerId then { b with expired := true } else b := by
  have hany : ¬(r.entries.any fun b => b.connectionId == connectionId) = true :=
    fun h => habsent (any_connectionId.mp h)
  simp only [addConnection, BrokerConnectionManager.addConnection, if_neg hany,
    List.mem_append, mem_expire, List.mem_singleton]
  exact or_comm

theorem addConnection_of_mem {connectionId : String} {brokerId : ℤ}
    {tokenExpiresOn : DateTime} (hin : connectionId ∈ r.connectionIds) :
    r.addConnection connectionId brokerId tokenExpiresOn = r := by
  have hany : (r.entries.any fun b => b.connectionId == connectionId) = true :=
    any_connectionId.mpr hin
  simp only [addConnection, BrokerConnectionManager.addConnection, if_pos hany]

/-- An entry afterwards is the new one, or an old one up to its mark. -/
theorem mem_addConnection_cases {connectionId : String} {brokerId : ℤ}
    {tokenExpiresOn : DateTime} {c : BrokerConnection}
    (hc : c ∈ (r.addConnection connectionId brokerId tokenExpiresOn).entries) :
    c.connectionId = connectionId ∧ c.brokerId = brokerId ∨
      ∃ d ∈ r.entries, d.connectionId = c.connectionId ∧ d.brokerId = c.brokerId := by
  by_cases hin : connectionId ∈ r.connectionIds
  · rw [addConnection_of_mem hin] at hc
    exact Or.inr ⟨c, hc, rfl, rfl⟩
  · rcases (mem_entries_addConnection hin).mp hc with rfl | ⟨d, hd, rfl⟩
    · exact Or.inl ⟨rfl, rfl⟩
    · refine Or.inr ⟨d, hd, ?_⟩
      split
      · exact ⟨rfl, rfl⟩
      · exact ⟨rfl, rfl⟩

end BrokerConnections

/-- The calls that change the registry. -/
inductive Call
  | addConnection (connectionId : String) (brokerId : ℤ) (tokenExpiresOn : DateTime)
  | removeConnection (connectionId : String)
  | clearBrokerConnections

def perform (r : BrokerConnections) : Call → BrokerConnections
  | .addConnection connectionId brokerId tokenExpiresOn =>
      r.addConnection connectionId brokerId tokenExpiresOn
  | .removeConnection connectionId => r.removeConnection connectionId
  | .clearBrokerConnections => r.clearBrokerConnections

def manager : Machine BrokerConnections Call where
  init := BrokerConnections.empty
  step r call := some (perform r call)

/-- Every connected broker has an entry that is not expired, and the question
whether its token is due to expire has an answer. -/
def ConnectedIsActive (r : BrokerConnections) : Prop :=
  ∀ brokerId, isBrokerConnected r.entries brokerId = true →
    (∃ c ∈ r.entries, c.brokerId = brokerId ∧ c.expired = false) ∧
      ∀ utcNow, ∃ due, activeBrokerTokenIsDueToExpire r.entries brokerId utcNow = .ok due

theorem activeBrokerTokenIsDueToExpire_ok {entries : List BrokerConnection} {brokerId : ℤ}
    (h : ∃ c ∈ entries, c.brokerId = brokerId ∧ c.expired = false) (utcNow : DateTime) :
    ∃ due, activeBrokerTokenIsDueToExpire entries brokerId utcNow = .ok due := by
  obtain ⟨c, hc, hbroker, hexpired⟩ := h
  have hsome : (entries.find? fun b => b.brokerId == brokerId && !b.expired).isSome = true := by
    rw [List.find?_isSome]
    exact ⟨c, hc, by simp [hbroker, hexpired]⟩
  have hall : ¬(entries.all fun b => b.brokerId != brokerId) = true := by
    intro h
    have hne := List.all_eq_true.mp h c hc
    simp [hbroker] at hne
  obtain ⟨b, hb⟩ := Option.isSome_iff_exists.mp hsome
  exact ⟨_, by rw [activeBrokerTokenIsDueToExpire, if_neg hall, hb]⟩

theorem connectedIsActive_iff {r : BrokerConnections} :
    ConnectedIsActive r ↔
      ∀ c ∈ r.entries, ∃ d ∈ r.entries, d.brokerId = c.brokerId ∧ d.expired = false := by
  constructor
  · intro h c hc
    exact (h c.brokerId (isBrokerConnected_iff.mpr ⟨c, hc, rfl⟩)).1
  · intro h brokerId hconnected
    obtain ⟨c, hc, rfl⟩ := isBrokerConnected_iff.mp hconnected
    exact ⟨h c hc, activeBrokerTokenIsDueToExpire_ok (h c hc)⟩

theorem connectedIsActive_addConnection {r : BrokerConnections} (h : ConnectedIsActive r)
    (connectionId : String) (brokerId : ℤ) (tokenExpiresOn : DateTime) :
    ConnectedIsActive (r.addConnection connectionId brokerId tokenExpiresOn) := by
  by_cases hin : connectionId ∈ r.connectionIds
  · rw [BrokerConnections.addConnection_of_mem hin]
    exact h
  rw [connectedIsActive_iff] at h ⊢
  intro c hc
  have hnew : ⟨connectionId, brokerId, tokenExpiresOn, false⟩ ∈
      (r.addConnection connectionId brokerId tokenExpiresOn).entries :=
    (BrokerConnections.mem_entries_addConnection hin).mpr (Or.inl rfl)
  rcases (BrokerConnections.mem_entries_addConnection hin).mp hc with rfl | ⟨b, hb, rfl⟩
  · exact ⟨_, hnew, rfl, rfl⟩
  · by_cases hbroker : b.brokerId = brokerId
    · exact ⟨_, hnew, by simp only [hbroker, if_true], rfl⟩
    · obtain ⟨d, hd, hdb, hde⟩ := h b hb
      refine ⟨d, (BrokerConnections.mem_entries_addConnection hin).mpr (Or.inr ⟨d, hd, ?_⟩), ?_,
        hde⟩
      · rw [if_neg (hdb ▸ hbroker)]
      · rw [if_neg hbroker]
        exact hdb

/-- The condition on a removal: it does not take away a broker's active entry
while the broker has another one. -/
def RemovesNoActiveOfMany (r : BrokerConnections) : Call → Prop
  | .removeConnection connectionId =>
      ∀ c ∈ r.entries, c.connectionId = connectionId → c.expired = false →
        ∀ d ∈ r.entries, d.brokerId = c.brokerId → d = c
  | _ => True

theorem connectedIsActive_removeConnection {r : BrokerConnections} (h : ConnectedIsActive r)
    (connectionId : String) :
    ConnectedIsActive (r.removeConnection connectionId) ↔
      RemovesNoActiveOfMany r (.removeConnection connectionId) := by
  rw [connectedIsActive_iff] at h ⊢
  constructor
  · intro hafter c hc hid hexpired d hd hbroker
    by_contra hne
    have hkept : d.connectionId ≠ connectionId := fun hdid =>
      hne (r.eq_of_connectionId_eq hd hc (hdid.trans hid.symm))
    obtain ⟨e, he, heb, hee⟩ :=
      hafter d (BrokerConnections.mem_entries_removeConnection.mpr ⟨hd, hkept⟩)
    obtain ⟨he, heid⟩ := BrokerConnections.mem_entries_removeConnection.mp he
    have hec := r.eq_of_not_expired he hc (heb.trans hbroker) hee hexpired
    exact heid (hec ▸ hid)
  · intro hcond c hc
    obtain ⟨hc, hid⟩ := BrokerConnections.mem_entries_removeConnection.mp hc
    obtain ⟨d, hd, hbroker, hexpired⟩ := h c hc
    have hkept : d.connectionId ≠ connectionId := by
      intro hdid
      have hcd := hcond d hd hdid hexpired c hc hbroker.symm
      exact hid (hcd ▸ hdid)
    exact ⟨d, BrokerConnections.mem_entries_removeConnection.mpr ⟨hd, hkept⟩, hbroker, hexpired⟩

/-- The registry answers for every connected broker in every state of a run
precisely if no removal takes a broker's active entry and leaves another. -/
theorem connected_active_exactly_when (calls : List Call) :
    manager.Always ConnectedIsActive manager.init calls ↔
      manager.Meets RemovesNoActiveOfMany manager.init calls := by
  refine Machine.always_iff_meets (B := fun _ => True) (fun _ _ _ _ _ => trivial) ?_ calls
    trivial ?_
  · intro r call t _ hr hstep
    have ht : perform r call = t := by simpa [manager] using hstep
    subst ht
    cases call with
    | addConnection connectionId brokerId tokenExpiresOn =>
        exact ⟨fun _ => trivial,
          fun _ => connectedIsActive_addConnection hr connectionId brokerId tokenExpiresOn⟩
    | removeConnection connectionId => exact connectedIsActive_removeConnection hr connectionId
    | clearBrokerConnections =>
        refine ⟨fun _ => trivial, fun _ => connectedIsActive_iff.mpr ?_⟩
        intro c hc
        cases hc
  · exact connectedIsActive_iff.mpr fun c hc => by cases hc

/-- The older of two connections of a broker outlives the newer one: the broker
still counts as connected, but `First` finds no entry that is not expired. -/
theorem removed_active_connection_counterexample :
    ∃ r, manager.run manager.init
        [.addConnection "conn1" 123 0, .addConnection "conn2" 123 0, .removeConnection "conn2"] =
          some r ∧
      isBrokerConnected r.entries 123 = true ∧
      (¬∃ c ∈ r.entries, c.brokerId = 123 ∧ c.expired = false) ∧
      activeBrokerTokenIsDueToExpire r.entries 123 0 = .error .invalidOperationException ∧
      ¬ConnectedIsActive r := by
  refine ⟨_, rfl, by decide, by decide, rfl, fun h => ?_⟩
  obtain ⟨c, hc, hb, he⟩ := (h 123 (by decide)).1
  have hnone : ¬∃ c ∈ removeConnection (addConnection (addConnection [] "conn1" 123 0)
      "conn2" 123 0) "conn2", c.brokerId = 123 ∧ c.expired = false := by decide
  exact hnone ⟨c, hc, hb, he⟩

end ReliableSignalR.BrokerConnectionManager
