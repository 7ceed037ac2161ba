import Mathlib.Data.Set.Basic
import ReliableSignalR.AuthorizationProvider

/-!
# The names of brokers and the keys of their connections

A connection has a name, the broker id is what `int.Parse` makes of it, and what
the hub pushes goes to the connections whose name is the text of the broker id.
The texts that `int.Parse` accepts and the texts that integers print differ: a
name with white space, a plus sign or superfluous zeros is registered under a
broker id whose key is not that name.

`names` gives the name of each connection id. The transport keeps it fixed.
-/
namespace ReliableSignalR.UserKeys
open DotNet DecimalNumerals EventRuns RetainedEffects IdentityInfrastructure Messages
open BrokerConnectionManager AuditEndpoint BackOfficeHub HubRuns

variable {Json : Type}

section Registration
variable (context : HubCallerContext) (env : Environment)

/-- The callback gets as far as `AddConnection`. -/
def registers : Bool :=
  env.publish.isOk && context.user.brokerId.isOk &&
    (getTokenExpiresOnDateFromClaims context.user).isOk

/-- A callback that registers adds the connection under the broker id of its
user; otherwise neither the registry nor the replays change. -/
inductive Registration (s t : HubState Json) : Prop
  | unreached (registers : registers context env = false)
      (registry : t.brokerConnections = s.brokerConnections) (replayed : t.replayed = s.replayed)
  | reached (registers : registers context env = true) (brokerId : ℤ) (tokenExpiresOn : DateTime)
      (broker : context.user.brokerId = .ok brokerId)
      (registry : t.brokerConnections =
        s.brokerConnections.addConnection context.connectionId brokerId tokenExpiresOn)

variable {context env}

theorem replay_registry (json : JsonSerializer Json) :
    Keeps (Frame.unchanged fun s : HubState Json => s.brokerConnections)
      (replayUnacknowledgedMessagesSynchronously json context env) := by
  refine keeps_bind (getUnacknowledgedMessages_keeps json) fun read => ?_
  refine keeps_forEach (fun i m _ => ?_) 0
  refine keeps_bind ?_ fun _ => updateMessageRetries_keeps (fun _ _ => rfl) i m.2.brokerId
  exact keeps_bind (keeps_call _) fun _ => keeps_bind (keeps_call _) fun _ =>
    keeps_modify fun _ => rfl

/-- The statements that `OnConnected` and `OnReconnected` have in common. -/
def register (context : HubCallerContext) (env : Environment) (connectionEventType : String) :
    Callback Json Unit := do
  let connectionEvent ← createConnectionEvent context connectionEventType
  publish env connectionEvent
  addBrokerToConnections context

/-- They return exactly if the callback registers. -/
theorem register_registration (context : HubCallerContext) (env : Environment)
    (connectionEventType : String) (s : HubState Json) :
    Registration context env s (exec (register context env connectionEventType) s).2 ∧
      ((exec (register context env connectionEventType) s).1 = .ok () →
        registers context env = true) := by
  simp only [register, createConnectionEvent, getBrokerId, publish, addBrokerToConnections,
    exec_bind, exec_call, exec_pure, exec_modify]
  cases hbroker : context.user.brokerId with
  | error e =>
      have hnot : registers context env = false := by
        simp [registers, hbroker, Except.isOk, Except.toBool]
      exact ⟨.unreached hnot rfl rfl, fun h => by cases h⟩
  | ok brokerId =>
      cases hpublish : env.publish with
      | error e =>
          have hnot : registers context env = false := by
            simp [registers, hpublish, Except.isOk, Except.toBool]
          exact ⟨.unreached hnot rfl rfl, fun h => by cases h⟩
      | ok _ =>
          cases hexpires : getTokenExpiresOnDateFromClaims context.user with
          | error e =>
              have hnot : registers context env = false := by
                simp [registers, hexpires, Except.isOk, Except.toBool]
              exact ⟨.unreached hnot rfl rfl, fun h => by cases h⟩
          | ok tokenExpiresOn =>
              have hregisters : registers context env = true := by
                simp [registers, hbroker, hpublish, hexpires, Except.isOk, Except.toBool]
              exact ⟨.reached hregisters brokerId tokenExpiresOn hbroker rfl, fun _ => hregisters⟩

theorem onReconnected_registration (context : HubCallerContext) (env : Environment)
    (s : HubState Json) : Registration context env s (exec (onReconnected context env) s).2 :=
  (register_registration context env "Reconnected" s).1

theorem onConnected_eq (json : JsonSerializer Json) :
    onConnected json context env = (do
      register context env "Connected"
      replayUnacknowledgedMessagesSynchronously json context env) := by
  simp only [onConnected, register, bind_assoc]

theorem onConnected_registration (json : JsonSerializer Json) (context : HubCallerContext)
    (env : Environment) (s : HubState Json) :
    Registration context env s (exec (onConnected json context env) s).2 := by
  obtain ⟨hregistration, hok⟩ := register_registration context env "Connected" s
  rw [onConnected_eq]
  apply exec_bind_state
  · intro e t ht
    rw [ht] at hregistration
    exact hregistration
  · intro _ t ht
    rw [ht] at hregistration hok
    have hkeeps : (exec (replayUnacknowledgedMessagesSynchronously json context env)
        t).2.brokerConnections = t.brokerConnections := replay_registry json t
    cases hregistration with
    | unreached hnot _ _ =>
        rw [hok rfl] at hnot
        cases hnot
    | reached hregisters brokerId tokenExpiresOn hbroker hregistry =>
        exact .reached hregisters brokerId tokenExpiresOn hbroker (hkeeps.trans hregistry)

end Registration

/-- `Clients.User(key)` reaches the connections whose name is the key. -/
def addressed (names : String → String) (key : String) : Set String := {i | names i = key}

def KeysAreNames (names : String → String) (r : BrokerConnections) : Prop :=
  ∀ c ∈ r.entries, toString c.brokerId = names c.connectionId

/-- The key of a registered connection is its name, so what is pushed to a
connected broker addresses each connection registered under it. -/
structure RegisteredReachable (names : String → String) (s : HubRun Json) : Prop where
  key : KeysAreNames names s.hub.brokerConnections
  pushed : ∀ brokerId, isBrokerConnected s.hub.brokerConnections.entries brokerId = true →
    ∀ c ∈ s.hub.brokerConnections.entries, c.brokerId = brokerId →
      c.connectionId ∈ addressed names (toString brokerId)

/-- The replay of a connecting broker addresses the connection that triggered it. -/
def ReplaysReachTrigger (names : String → String) (s : HubRun Json) (e : HubEvent)
    (t : HubRun Json) : Prop :=
  match e with
  | .onConnected context _ => ∀ new, t.hub.replayed = s.hub.replayed ++ new →
      ∀ p ∈ new, context.connectionId ∈ addressed names p.user
  | _ => True

def HasName (names : String → String) (context : HubCallerContext) : Prop :=
  ∀ name ∈ context.user.name, name = names context.connectionId

/-- What is assumed of the transport: a connection keeps its name. -/
def NamesFixed (names : String → String) (_ : HubRun Json) : HubEvent → Prop
  | .onConnected context _ | .onReconnected context _ | .onDisconnected context _ =>
      HasName names context
  | _ => True

/-- The condition on a callback: a connection that it registers has a name that is
the text of an integer, without white space, plus sign or superfluous zeros. -/
def RegistersIntegerText (names : String → String) (_ : HubRun Json) : HubEvent → Prop
  | .onConnected context env | .onReconnected context env =>
      registers context env = true → IsIntegerText (names context.connectionId).toList
  | _ => True

section Keys
variable {names : String → String}

theorem registeredReachable_iff {s : HubRun Json} :
    RegisteredReachable names s ↔ KeysAreNames names s.hub.brokerConnections := by
  refine ⟨fun h => h.key, fun h => ⟨h, fun brokerId _ c hc hbroker => ?_⟩⟩
  rw [addressed, Set.mem_ofPred_eq, ← hbroker, h c hc]

/-- The broker id of a user is read from the name of the connection. -/
theorem HasName.intParse {context : HubCallerContext} (h : HasName names context) {brokerId : ℤ}
    (hbroker : context.user.brokerId = .ok brokerId) :
    intParse (names context.connectionId) = .ok brokerId := by
  unfold ClaimsPrincipal.brokerId at hbroker
  cases hname : context.user.name with
  | none => simp [hname] at hbroker
  | some name =>
      rw [hname] at hbroker
      rw [← h name hname]
      exact hbroker

theorem keysAreNames_add {r : BrokerConnections} (hr : KeysAreNames names r)
    {connectionId : String} {brokerId : ℤ}
    (hparse : intParse (names connectionId) = .ok brokerId) (tokenExpiresOn : DateTime) :
    KeysAreNames names (r.addConnection connectionId brokerId tokenExpiresOn) ↔
      IsIntegerText (names connectionId).toList := by
  constructor
  · intro h
    have hin : connectionId ∈
        (r.addConnection connectionId brokerId tokenExpiresOn).connectionIds := by simp
    obtain ⟨c, hc, hid⟩ := List.mem_map.mp hin
    rw [← hid, ← h c hc]
    exact isIntegerText_toString c.brokerId
  · intro htext c hc
    rcases BrokerConnections.mem_addConnection_cases hc with ⟨hid, hbroker⟩ | ⟨d, hd, hid, hbroker⟩
    · rw [hid, hbroker]
      exact (toString_eq_iff hparse).mpr htext
    · rw [← hid, ← hbroker]
      exact hr d hd

theorem keysAreNames_remove {r : BrokerConnections} (hr : KeysAreNames names r)
    (connectionId : String) : KeysAreNames names (r.removeConnection connectionId) :=
  fun c hc => hr c (BrokerConnections.mem_entries_removeConnection.mp hc).1

/-- After a callback that may register, the keys are names exactly if a
registered name is the text of an integer. -/
theorem Registration.keys {context : HubCallerContext} {env : Environment} {s t : HubState Json}
    (h : Registration context env s t) (hs : KeysAreNames names s.brokerConnections)
    (hname : HasName names context) :
    KeysAreNames names t.brokerConnections ↔
      (registers context env = true → IsIntegerText (names context.connectionId).toList) := by
  cases h with
  | unreached hnot hregistry _ =>
      rw [hregistry, hnot]
      exact ⟨fun _ => nofun, fun _ => hs⟩
  | reached hregisters brokerId tokenExpiresOn hbroker hregistry =>
      rw [hregistry, keysAreNames_add hs (hname.intParse hbroker), hregisters]
      exact ⟨fun h _ => h, fun h => h rfl⟩

theorem step_keys (json : JsonSerializer Json) {s : HubRun Json} {e : HubEvent}
    (hs : KeysAreNames names s.hub.brokerConnections) (hnames : NamesFixed names s e) :
    KeysAreNames names (HubRuns.step json s e).hub.brokerConnections ↔
      RegistersIntegerText names s e := by
  cases e with
  | onConnected context env =>
      exact (onConnected_registration json context env s.hub).keys hs hnames
  | onReconnected context env => exact (onReconnected_registration context env s.hub).keys hs hnames
  | onDisconnected context env =>
      refine ⟨fun _ => trivial, fun _ => ?_⟩
      simp only [HubRuns.step, HubRun.depart, onDisconnected_registry]
      split
      · exact keysAreNames_remove hs _
      · exact hs
  | audited message headers => exact ⟨fun _ => trivial, fun _ => hs⟩
  | posted ack now => exact ⟨fun _ => trivial, fun _ => hs⟩
  | completed correlationId now => exact ⟨fun _ => trivial, fun _ => hs⟩

theorem step_replays (json : JsonSerializer Json) {s : HubRun Json} {e : HubEvent}
    (hnames : NamesFixed names s e) (htext : RegistersIntegerText names s e) :
    ReplaysReachTrigger names s e (HubRuns.step json s e) := by
  cases e with
  | onConnected context env =>
      intro new hnew p hp
      cases onConnected_registration json context env s.hub with
      | unreached _ _ hreplayed =>
          have hnil : s.hub.replayed ++ new = s.hub.replayed := hnew.symm.trans hreplayed
          rw [List.append_right_eq_self.mp hnil] at hp
          cases hp
      | reached hregisters brokerId _ hbroker _ =>
          obtain ⟨-, new', hnew', hrows⟩ := onConnected_replayed json context env s.hub
          have hsame : new = new' := List.append_cancel_left (hnew.symm.trans hnew')
          obtain ⟨b, hb, huser, -⟩ := hrows p (hsame ▸ hp)
          rw [addressed, Set.mem_ofPred_eq, huser]
          exact ((toString_eq_iff (HasName.intParse hnames hb)).mpr (htext hregisters)).symm
  | _ => trivial

end Keys

/-- In every run, whatever throws: registered brokers are reachable under their
keys and replays reach their trigger precisely if each callback that registers a
connection finds the text of an integer as its name. -/
theorem registered_reachable_exactly_when (json : JsonSerializer Json) (names : String → String)
    (events : List HubEvent)
    (hnames : (hub json).Meets (NamesFixed names) (hub json).init events) :
    ((hub json).Always (RegisteredReachable names) (hub json).init events ∧
        (hub json).Throughout (ReplaysReachTrigger names) (hub json).init events) ↔
      (hub json).Meets (RegistersIntegerText names) (hub json).init events := by
  have hinit : RegisteredReachable names (hub json).init :=
    registeredReachable_iff.mpr fun c hc => by cases hc
  have hkeys : (hub json).Always (RegisteredReachable names) (hub json).init events ↔
      (hub json).Meets (RegistersIntegerText names) (hub json).init events := by
    apply Machine.always_iff_meets_under (B := fun _ => True) (F := NamesFixed names)
    · exact fun _ _ _ _ _ _ => trivial
    · intro s e t _ hs he hstep
      rw [← hub_step_eq_some.mp hstep, registeredReachable_iff]
      exact step_keys json hs.key he
    · trivial
    · exact hinit
    · exact hnames
  refine ⟨fun h => hkeys.mp h.1, fun h => ⟨hkeys.mpr h, ?_⟩⟩
  apply Machine.throughout_of_meets (I := fun _ => True)
    (C := fun s e => NamesFixed names s e ∧ RegistersIntegerText names s e)
  · exact fun _ _ _ _ _ _ => trivial
  · intro s e t _ he hstep
    rw [← hub_step_eq_some.mp hstep]
    exact step_replays json he.1 he.2
  · trivial
  · exact Machine.Meets.and hnames h

/-- Both connections of a broker whose name is canonical are reached. -/
theorem canonical_name_reachable :
    (hub JsonSerializer.transparent).Always (RegisteredReachable fun _ => "123")
        (hub JsonSerializer.transparent).init
        [.onConnected ⟨"conn1", principal "123" "0"⟩ (Environment.calm 0),
          .onReconnected ⟨"conn2", principal "123" "0"⟩ (Environment.calm 0)] ∧
      (hub JsonSerializer.transparent).Throughout (ReplaysReachTrigger fun _ => "123")
        (hub JsonSerializer.transparent).init
        [.onConnected ⟨"conn1", principal "123" "0"⟩ (Environment.calm 0),
          .onReconnected ⟨"conn2", principal "123" "0"⟩ (Environment.calm 0)] := by
  have hprints : toString (123 : ℤ) = "123" := by decide
  have htext : IsIntegerText "123".toList := hprints ▸ isIntegerText_toString 123
  apply (registered_reachable_exactly_when JsonSerializer.transparent (fun _ => "123") _ ?_).mpr
  · exact fun _ _ => ⟨fun _ => htext, fun _ _ => ⟨fun _ => htext, trivial⟩⟩
  · have hprincipal : (principal "123" "0").name = some "123" := by decide
    have hname : ∀ name ∈ (principal "123" "0").name, name = "123" :=
      fun name h => Option.some.inj (h.symm.trans hprincipal)
    exact fun _ _ => ⟨hname, fun _ _ => ⟨hname, trivial⟩⟩

/-- The user of a token that was granted to the user name 0123. -/
def zeroPadded : ClaimsPrincipal :=
  ⟨AuthorizationProvider.addMandatoryClaims "0123" 0 ++ AuthorizationProvider.addAudienceClaims⟩

/-- The provider grants a token for the user name 0123. Its connection is
registered under the broker 123, and the key of that broker does not reach it. -/
theorem superfluous_zero_counterexample :
    AuthorizationProvider.grantResourceOwnerCredentials id
        (some ⟨some "0123", some "mypassword"⟩) 0 = .ok (.validated zeroPadded) ∧
      zeroPadded.name = some "0123" ∧
      ∃ s, (hub JsonSerializer.transparent).run (hub JsonSerializer.transparent).init
          [.audited (.insertDocumentIntoRemoteBackOfficeCommand (insertCommand 7 123)) [],
            .onConnected ⟨"conn1", zeroPadded⟩ (Environment.calm 0)] = some s ∧
        isBrokerConnected s.hub.brokerConnections.entries 123 = true ∧
        (∃ c ∈ s.hub.brokerConnections.entries, c.connectionId = "conn1" ∧ c.brokerId = 123) ∧
        s.hub.replayed = [⟨"123", 1, insertCommand 7 123⟩] ∧
        "conn1" ∉ addressed (fun _ => "0123") "123" ∧
        ¬RegisteredReachable (fun _ => "0123") s := by
  refine ⟨rfl, by decide, ?_⟩
  have hrun : ((hub JsonSerializer.transparent).run (hub JsonSerializer.transparent).init
      [.audited (.insertDocumentIntoRemoteBackOfficeCommand (insertCommand 7 123)) [],
        .onConnected ⟨"conn1", zeroPadded⟩ (Environment.calm 0)]).map
      (fun s => (s.hub.brokerConnections.entries.map fun c => (c.connectionId, c.brokerId),
        s.hub.replayed)) =
      some ([("conn1", 123)], [⟨"123", 1, insertCommand 7 123⟩]) := by
    decide +kernel
  obtain ⟨s, hs, hstate⟩ := Option.map_eq_some_iff.mp hrun
  obtain ⟨hentries, hreplayed⟩ := Prod.mk.inj hstate
  have hregistered : ("conn1", (123 : ℤ)) ∈
      s.hub.brokerConnections.entries.map fun c => (c.connectionId, c.brokerId) := by
    rw [hentries]
    exact List.mem_singleton.mpr rfl
  obtain ⟨c, hc, hcpair⟩ := List.mem_map.mp hregistered
  obtain ⟨hid, hbroker⟩ := Prod.mk.inj hcpair
  refine ⟨s, hs, isBrokerConnected_iff.mpr ⟨c, hc, hbroker⟩, ⟨c, hc, hid, hbroker⟩, hreplayed,
    fun hin => ?_, fun h => ?_⟩
  · have hsame : "0123" = "123" := hin
    revert hsame
    decide
  · have hkey := h.key c hc
    rw [hbroker] at hkey
    revert hkey
    decide

end ReliableSignalR.UserKeys
