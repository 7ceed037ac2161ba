import Mathlib.Data.List.Sort
import Mathlib.Data.List.Perm.Basic
import ReliableSignalR.BrokerShares

/-!
# The log of the connections

Each callback of the hub publishes its event before it touches the registry, and
the audit endpoint writes a row for each event that it handles. The callbacks run
one after another, and the events are handled in any order; a handler that throws
leaves its event in the queue, and an event may go to the error queue.

The connections in the registry are those that one reads off the published events,
unless a callback publishes the coming of a connection and then cannot parse the
claim with the expiry date. When the queue has been worked off, the log in the
order of its creation dates is the list of the published events, as long as the
column of these dates can tell them apart.
-/
namespace ReliableSignalR.ConnectionLog
open DotNet Messages KeyedTable RetainedEffects EventRuns IdentityInfrastructure
open BrokerConnectionManager AuditEndpoint BackOfficeHub HubRuns UserKeys BrokerShares

variable {Json : Type}

structure HubConnectionLog where
  id : ℕ
  createDate : DateTime
  brokerId : ℤ
  connectionEventType : String
  connectionId : String
deriving DecidableEq, Repr

abbrev ConnectionTable := Table HubConnectionLog HubConnectionLog.id

/-- An event with the date that its constructor has drawn. -/
structure DatedEvent where
  event : HubConnectionEvent
  createDate : DateTime
deriving DecidableEq, Repr

/-- What a `datetime` column gives back. It counts three hundredths of a second to the
nearest, and they are read in whole milliseconds. -/
def sqlDateTime (d : DateTime) : DateTime := (10 * ((3 * d + 50000) / 100000) + 1) / 3 * 10000

example : [1000000, 1010000, 1020000, 1090000].map sqlDateTime =
    [1000000, 1000000, 1030000, 1100000] := by
  decide

def DatedEvent.stored (e : DatedEvent) : DatedEvent := ⟨e.event, sqlDateTime e.createDate⟩

@[simp] theorem DatedEvent.stored_event : ∀ e : DatedEvent, e.stored.event = e.event
  | ⟨event, createDate⟩ => by
      change _ = event
      rfl

def HubConnectionLog.ofEvent (e : DatedEvent) (id : ℕ) : HubConnectionLog where
  id := id
  createDate := sqlDateTime e.createDate
  brokerId := e.event.brokerId
  connectionEventType := e.event.connectionEventType
  connectionId := e.event.connectionId

def HubConnectionLog.toEvent (row : HubConnectionLog) : DatedEvent :=
  ⟨⟨row.brokerId, row.connectionEventType, row.connectionId⟩, row.createDate⟩

/-- `HubConnectionEventHandler.Handle` -/
def handleHubConnectionEvent (log : ConnectionTable) (e : DatedEvent) : ConnectionTable :=
  log.insert (HubConnectionLog.ofEvent e) fun _ => rfl

/-- `published` lists all events that the hub has published, `errors` those that have
gone to the error queue of the audit endpoint. -/
structure Trail (Json : Type) where
  hub : HubState Json
  published : List DatedEvent
  queue : List DatedEvent
  errors : List DatedEvent
  log : ConnectionTable

inductive TrailEvent (Json : Type)
  | onConnected (context : HubCallerContext) (env : Environment)
  | onReconnected (context : HubCallerContext) (env : Environment)
  | onDisconnected (context : HubCallerContext) (env : Environment)
  | messageLogChanged (messageLog : AuditTable Json)
  | handled (position : ℕ) (outcome : Except Exception Unit)
  | forwarded (position : ℕ)

namespace Trail

def initial : Trail Json := ⟨HubState.initial, [], [], [], Table.empty⟩

/-- A callback has left the hub in this state. -/
def callback (s : Trail Json) (now : DateTime) (hub : HubState Json) : Trail Json :=
  let new := (hub.published.drop s.hub.published.length).map fun event => ⟨event, now⟩
  { s with hub, published := s.published ++ new, queue := s.queue ++ new }

/-- The row is saved and committed, or the event stays in the queue. -/
def handle (s : Trail Json) (position : ℕ) (e : DatedEvent) : Except Exception Unit → Trail Json
  | .error _ => s
  | .ok _ =>
      { s with queue := s.queue.eraseIdx position, log := handleHubConnectionEvent s.log e }

def forward (s : Trail Json) (position : ℕ) (e : DatedEvent) : Trail Json :=
  { s with queue := s.queue.eraseIdx position, errors := s.errors ++ [e] }

end Trail

def step (json : JsonSerializer Json) (s : Trail Json) :
    TrailEvent Json → Option (Trail Json)
  | .onConnected context env =>
      some (s.callback env.now (exec (onConnected json context env) s.hub).2)
  | .onReconnected context env =>
      some (s.callback env.now (exec (onReconnected context env) s.hub).2)
  | .onDisconnected context env =>
      some (s.callback env.now (exec (onDisconnected context env) s.hub).2)
  | .messageLogChanged messageLog => some { s with hub := { s.hub with messageLog } }
  | .handled position outcome =>
      s.queue[position]?.map fun e => s.handle position e outcome
  | .forwarded position => s.queue[position]?.map fun e => s.forward position e

def connectionTrail (json : JsonSerializer Json) : Machine (Trail Json) (TrailEvent Json) where
  init := Trail.initial
  step := step json

/-- The connections and their brokers, in the order in which they came. -/
abbrev Connections := List (String × ℤ)

/-- What a reader makes of an event. -/
def readEvent (connections : Connections) (e : HubConnectionEvent) : Connections :=
  if e.connectionEventType = "Disconnected" then
    connections.filter fun c => c.1 != e.connectionId
  else if connections.any fun c => c.1 == e.connectionId then connections
  else connections ++ [(e.connectionId, e.brokerId)]

def readEvents (events : List DatedEvent) : Connections :=
  events.foldl (fun connections e => readEvent connections e.event) []

/-- The log in the order of its dates. -/
def history (log : ConnectionTable) : List DatedEvent :=
  (log.rows.map HubConnectionLog.toEvent).insertionSort fun d e => d.createDate ≤ e.createDate

def registered (r : BrokerConnections) : Connections :=
  r.entries.map fun b => (b.connectionId, b.brokerId)

section Registry
variable {r : BrokerConnections} {connectionId : String} {brokerId : ℤ} {tokenExpiresOn : DateTime}

theorem registered_any :
    ((registered r).any fun c => c.1 == connectionId) =
      r.entries.any fun b => b.connectionId == connectionId := by
  rw [registered, List.any_map]
  rfl

theorem registered_addConnection {connectionEventType : String}
    (hcomes : connectionEventType ≠ "Disconnected") :
    registered (r.addConnection connectionId brokerId tokenExpiresOn) =
      readEvent (registered r) ⟨brokerId, connectionEventType, connectionId⟩ := by
  have hexpire : (expireSuperceededConnections r.entries brokerId).map
      (fun b => (b.connectionId, b.brokerId)) = registered r := by
    rw [expireSuperceededConnections, List.map_map, registered]
    refine List.map_congr_left fun b _ => ?_
    simp only [Function.comp_apply]
    split <;> rfl
  rw [readEvent, if_neg hcomes, registered_any]
  change (BrokerConnectionManager.addConnection r.entries connectionId brokerId tokenExpiresOn).map
    _ = _
  unfold BrokerConnectionManager.addConnection
  split
  · rfl
  · rw [List.map_append, hexpire]
    rfl

theorem registered_removeConnection :
    registered (r.removeConnection connectionId) =
      readEvent (registered r) ⟨brokerId, "Disconnected", connectionId⟩ := by
  rw [readEvent, if_pos rfl]
  change (BrokerConnectionManager.removeConnection r.entries connectionId).map _ = _
  rw [removeConnection_eq_filter r.unique, registered, List.filter_map]
  rfl

/-- An event of a connection that is in the registry already changes nothing, and
one of a new connection does. -/
theorem readEvent_eq_self {connectionEventType : String}
    (hcomes : connectionEventType ≠ "Disconnected") :
    readEvent (registered r) ⟨brokerId, connectionEventType, connectionId⟩ = registered r ↔
      connectionId ∈ r.connectionIds := by
  rw [readEvent, if_neg hcomes, registered_any]
  split
  · next hany => exact iff_of_true rfl (any_connectionId.mp hany)
  · next hany =>
    refine iff_of_false (fun h => ?_) fun hin => hany (any_connectionId.mpr hin)
    have hlength := congrArg List.length h
    rw [List.length_append, List.length_singleton] at hlength
    omega

end Registry

section Callbacks
variable (context : HubCallerContext) (env : Environment)

def announces : Bool := env.publish.isOk && context.user.brokerId.isOk

/-- Either nothing happens, or the event of the callback is published and the registry
follows it, or the event is published and the registry stays. -/
inductive Announcement (connectionEventType : String) (s t : HubState Json) : Prop
  | silent (announces : announces context env = false) (published : t.published = s.published)
      (registry : t.brokerConnections = s.brokerConnections)
  | followed (event : HubConnectionEvent) (announces : announces context env = true)
      (published : t.published = s.published ++ [event])
      (follows : connectionEventType ≠ "Disconnected" →
        (getTokenExpiresOnDateFromClaims context.user).isOk = true)
      (registry : registered t.brokerConnections = readEvent (registered s.brokerConnections) event)
  | unregistered (event : HubConnectionEvent)
      (eventType : event.connectionEventType = connectionEventType)
      (connectionId : event.connectionId = context.connectionId)
      (announces : announces context env = true)
      (published : t.published = s.published ++ [event])
      (comes : connectionEventType ≠ "Disconnected")
      (expires : (getTokenExpiresOnDateFromClaims context.user).isOk = false)
      (registry : t.brokerConnections = s.brokerConnections)

variable {context env}

theorem announcement_register {connectionEventType : String}
    (hcomes : connectionEventType ≠ "Disconnected") (s : HubState Json) :
    Announcement context env connectionEventType s
      (exec (register context env connectionEventType) s).2 := by
  simp only [register, createConnectionEvent, getBrokerId, publish, addBrokerToConnections,
    exec_bind, exec_call, exec_pure, exec_modify]
  cases hbroker : context.user.brokerId with
  | error e =>
      exact .silent (by simp [announces, hbroker, Except.isOk, Except.toBool]) rfl rfl
  | ok brokerId =>
      cases hpublish : env.publish with
      | error e =>
          exact .silent (by simp [announces, hpublish, Except.isOk, Except.toBool]) rfl rfl
      | ok _ =>
          have hannounces : announces context env = true := by
            simp [announces, hbroker, hpublish, Except.isOk, Except.toBool]
          cases hexpires : getTokenExpiresOnDateFromClaims context.user with
          | error e =>
              exact .unregistered ⟨brokerId, connectionEventType, context.connectionId⟩ rfl rfl
                hannounces rfl hcomes (by rw [hexpires]; rfl) rfl
          | ok tokenExpiresOn =>
              exact .followed ⟨brokerId, connectionEventType, context.connectionId⟩ hannounces rfl
                (fun _ => by rw [hexpires]; rfl) (registered_addConnection hcomes)

theorem announcement_onReconnected (s : HubState Json) :
    Announcement context env "Reconnected" s (exec (onReconnected context env) s).2 :=
  announcement_register (by decide) s

theorem replay_published (json : JsonSerializer Json) :
    Keeps (Frame.unchanged fun s : HubState Json => (s.published, s.brokerConnections))
      (replayUnacknowledgedMessagesSynchronously json context env) := by
  refine keeps_bind (getUnacknowledgedMessages_keeps json) fun read => ?_
  refine keeps_forEach (fun i m _ => ?_) 0
  refine keeps_bind ?_ fun _ => updateMessageRetries_keeps (fun _ _ => rfl) i m.2.brokerId
  exact keeps_bind (keeps_call _) fun _ => keeps_bind (keeps_call _) fun _ =>
    keeps_modify fun _ => rfl

theorem Announcement.congr {connectionEventType : String} {s t u : HubState Json}
    (h : Announcement context env connectionEventType s t)
    (hu : (u.published, u.brokerConnections) = (t.published, t.brokerConnections)) :
    Announcement context env connectionEventType s u := by
  obtain ⟨hpublished, hregistry⟩ := Prod.mk.inj hu
  cases h with
  | silent hannounces hp hr => exact .silent hannounces (hpublished.trans hp) (hregistry.trans hr)
  | followed event hannounces hp hfollows hr =>
      exact .followed event hannounces (hpublished.trans hp) hfollows (by rw [hregistry, hr])
  | unregistered event htype hid hannounces hp hcomes hexpires hr =>
      exact .unregistered event htype hid hannounces (hpublished.trans hp) hcomes hexpires
        (hregistry.trans hr)

/-- The replay publishes nothing, so `OnConnected` has announced what its statements up to
`AddConnection` have. -/
theorem announcement_onConnected (json : JsonSerializer Json) (s : HubState Json) :
    Announcement context env "Connected" s (exec (onConnected json context env) s).2 := by
  have hregister : Announcement context env "Connected" s
      (exec (register context env "Connected") s).2 := announcement_register (by decide) s
  rw [onConnected_eq]
  apply exec_bind_state
  · intro e t ht
    rwa [ht] at hregister
  · intro _ t ht
    rw [ht] at hregister
    exact hregister.congr (replay_published json t)

theorem announcement_onDisconnected (s : HubState Json) :
    Announcement context env "Disconnected" s (exec (onDisconnected context env) s).2 := by
  simp only [onDisconnected, createConnectionEvent, getBrokerId, publish, exec_bind, exec_call,
    exec_pure, exec_modify]
  cases hbroker : context.user.brokerId with
  | error e =>
      exact .silent (by simp [announces, hbroker, Except.isOk, Except.toBool]) rfl rfl
  | ok brokerId =>
      cases hpublish : env.publish with
      | error e =>
          exact .silent (by simp [announces, hpublish, Except.isOk, Except.toBool]) rfl rfl
      | ok _ =>
          have hannounces : announces context env = true := by
            simp [announces, hbroker, hpublish, Except.isOk, Except.toBool]
          exact .followed ⟨brokerId, "Disconnected", context.connectionId⟩ hannounces rfl
            (fun hne => absurd rfl hne) registered_removeConnection

end Callbacks

structure Call where
  context : HubCallerContext
  env : Environment
  eventType : String

def calls : TrailEvent Json → Option Call
  | .onConnected context env => some ⟨context, env, "Connected"⟩
  | .onReconnected context env => some ⟨context, env, "Reconnected"⟩
  | .onDisconnected context env => some ⟨context, env, "Disconnected"⟩
  | _ => none

/-- Each published event is in one place: it has been handled and is in the log, or it is
in the queue or in the error queue. -/
def Accounted (s : Trail Json) : Prop :=
  ∃ handled : List DatedEvent,
    s.log.rows.map HubConnectionLog.toEvent = handled.map DatedEvent.stored ∧
      (handled ++ s.queue ++ s.errors).Perm s.published

/-- The registry holds the connections that one reads off the published events. -/
def Reconstructed (s : Trail Json) : Prop :=
  registered s.hub.brokerConnections = readEvents s.published

/-- A callback that publishes the coming of a new connection can parse its claim. -/
def RegistersWhatItPublishes (s : Trail Json) (e : TrailEvent Json) : Prop :=
  ∀ c ∈ calls e, c.eventType ≠ "Disconnected" → announces c.context c.env = true →
    c.context.connectionId ∉ s.hub.brokerConnections.connectionIds →
      (getTokenExpiresOnDateFromClaims c.context.user).isOk = true

/-- What a callback publishes is stored with a later date than what was published
before. -/
def ClockMovesOn (s : Trail Json) (e : TrailEvent Json) : Prop :=
  ∀ c ∈ calls e, announces c.context c.env = true →
    ∀ d ∈ s.published, sqlDateTime d.createDate < sqlDateTime c.env.now

instance (s : Trail Json) (e : TrailEvent Json) : Decidable (RegistersWhatItPublishes s e) :=
  inferInstanceAs (Decidable (∀ c ∈ calls e, _))

instance (s : Trail Json) (e : TrailEvent Json) : Decidable (ClockMovesOn s e) :=
  inferInstanceAs (Decidable (∀ c ∈ calls e, _))

def InOrder (s : Trail Json) : Prop :=
  s.published.Pairwise fun d e => sqlDateTime d.createDate < sqlDateTime e.createDate

section Steps
variable {json : JsonSerializer Json} {s t : Trail Json} {e : TrailEvent Json}

/-- A step is a callback with its announcement, or it moves an event on. -/
inductive Stepped (s : Trail Json) (e : TrailEvent Json) (t : Trail Json) : Prop
  | called (c : Call) (call : calls e = some c) (hub : HubState Json)
      (announcement : Announcement c.context c.env c.eventType s.hub hub)
      (after : t = s.callback c.env.now hub)
  | moved (other : calls e = none) (registry : t.hub.brokerConnections = s.hub.brokerConnections)
      (published : t.published = s.published) (accounted : Accounted s → Accounted t)

theorem toEvent_handleHubConnectionEvent (log : ConnectionTable) (e : DatedEvent) :
    (handleHubConnectionEvent log e).rows.map HubConnectionLog.toEvent =
      log.rows.map HubConnectionLog.toEvent ++ [e.stored] := by
  change (log.rows ++ [HubConnectionLog.ofEvent e log.next]).map _ = _
  rw [List.map_append]
  rfl

theorem Accounted.handle {position : ℕ} {e : DatedEvent} (he : s.queue[position]? = some e)
    (outcome : Except Exception Unit) (h : Accounted s) :
    Accounted (s.handle position e outcome) := by
  cases outcome with
  | error _ => exact h
  | ok _ =>
      obtain ⟨handled, hlog, hperm⟩ := h
      obtain ⟨hlt, rfl⟩ := List.getElem?_eq_some_iff.mp he
      refine ⟨handled ++ [s.queue[position]], ?_, List.Perm.trans ?_ hperm⟩
      · change (handleHubConnectionEvent s.log _).rows.map _ = _
        rw [toEvent_handleHubConnectionEvent, hlog, List.map_append]
        rfl
      · have hqueue := (List.getElem_cons_eraseIdx_perm hlt).append_left handled
        simpa [Trail.handle] using hqueue.append_right s.errors

theorem Accounted.forward {position : ℕ} {e : DatedEvent} (he : s.queue[position]? = some e)
    (h : Accounted s) : Accounted (s.forward position e) := by
  obtain ⟨handled, hlog, hperm⟩ := h
  obtain ⟨hlt, rfl⟩ := List.getElem?_eq_some_iff.mp he
  have hqueue : (s.queue.eraseIdx position ++ (s.errors ++ [s.queue[position]])).Perm
      (s.queue ++ s.errors) := by
    rw [← List.append_assoc]
    refine (List.perm_append_singleton _ _).trans ?_
    exact (List.getElem_cons_eraseIdx_perm hlt).append_right s.errors
  refine ⟨handled, hlog, List.Perm.trans ?_ hperm⟩
  simpa [Trail.forward] using hqueue.append_left handled

theorem step_stepped (h : step json s e = some t) : Stepped s e t := by
  cases e with
  | onConnected context env =>
      cases h
      exact .called _ rfl _ (announcement_onConnected json s.hub) rfl
  | onReconnected context env =>
      cases h
      exact .called _ rfl _ (announcement_onReconnected s.hub) rfl
  | onDisconnected context env =>
      cases h
      exact .called _ rfl _ (announcement_onDisconnected s.hub) rfl
  | messageLogChanged messageLog =>
      cases h
      exact .moved rfl rfl rfl id
  | handled position outcome =>
      obtain ⟨e, he, rfl⟩ := Option.map_eq_some_iff.mp h
      refine .moved rfl ?_ ?_ (Accounted.handle he outcome) <;> cases outcome <;> rfl
  | forwarded position =>
      obtain ⟨e, he, rfl⟩ := Option.map_eq_some_iff.mp h
      exact .moved rfl rfl rfl (Accounted.forward he)

theorem callback_eq {now : DateTime} {hub : HubState Json} {events : List HubConnectionEvent}
    (h : hub.published = s.hub.published ++ events) :
    s.callback now hub =
      { s with
        hub
        published := s.published ++ events.map fun event => ⟨event, now⟩
        queue := s.queue ++ events.map fun event => ⟨event, now⟩ } := by
  rw [Trail.callback, h, List.drop_left]

theorem callback_silent {now : DateTime} {hub : HubState Json}
    (h : hub.published = s.hub.published) : s.callback now hub = { s with hub } := by
  have hnone : hub.published = s.hub.published ++ [] := by rw [h, List.append_nil]
  rw [callback_eq hnone]
  simp only [List.map_nil, List.append_nil]

theorem readEvents_concat (events : List DatedEvent) (e : DatedEvent) :
    readEvents (events ++ [e]) = readEvent (readEvents events) e.event := by
  rw [readEvents, List.foldl_append]
  rfl

theorem accounted_step (hs : Accounted s) (h : step json s e = some t) : Accounted t := by
  cases step_stepped h with
  | moved _ _ _ haccounted => exact haccounted hs
  | called c _ hub announcement hafter =>
      subst hafter
      obtain ⟨handled, hlog, hperm⟩ := hs
      have hnew : ∀ new : List DatedEvent,
          (handled ++ (s.queue ++ new) ++ s.errors).Perm (s.published ++ new) := by
        intro new
        have hlast : (handled ++ s.queue ++ (new ++ s.errors)).Perm
            (handled ++ s.queue ++ (s.errors ++ new)) := List.perm_append_comm.append_left _
        refine List.Perm.trans ?_ (hperm.append_right new)
        simpa using hlast
      exact ⟨handled, hlog, hnew _⟩

theorem reconstructed_step (hs : Reconstructed s) (h : step json s e = some t) :
    Reconstructed t ↔ RegistersWhatItPublishes s e := by
  unfold Reconstructed at hs ⊢
  cases step_stepped h with
  | moved hother hregistry hpublished _ =>
      refine iff_of_true (by rw [hregistry, hpublished, hs]) ?_
      simp [RegistersWhatItPublishes, hother]
  | called c hcall hub announcement hafter =>
      subst hafter
      have hmeets : RegistersWhatItPublishes s e ↔ (c.eventType ≠ "Disconnected" →
          announces c.context c.env = true →
          c.context.connectionId ∉ s.hub.brokerConnections.connectionIds →
          (getTokenExpiresOnDateFromClaims c.context.user).isOk = true) := by
        simp [RegistersWhatItPublishes, hcall]
      rw [hmeets]
      cases announcement with
      | silent hannounces hpublished hregistry =>
          rw [callback_silent hpublished]
          refine iff_of_true ?_ fun _ hcontra => ?_
          · rwa [hregistry]
          · rw [hannounces] at hcontra
            cases hcontra
      | followed event _ hpublished hfollows hregistry =>
          rw [callback_eq hpublished]
          refine iff_of_true ?_ fun hcomes _ _ => hfollows hcomes
          exact hregistry.trans (by rw [hs]; exact (readEvents_concat _ ⟨event, _⟩).symm)
      | unregistered event htype hid hannounces hpublished hcomes hexpires hregistry =>
          rw [callback_eq hpublished]
          have hread : registered hub.brokerConnections =
              readEvents (s.published ++ [⟨event, c.env.now⟩]) ↔
                readEvent (registered s.hub.brokerConnections) event =
                  registered s.hub.brokerConnections := by
            rw [readEvents_concat, hregistry, hs, eq_comm]
          refine hread.trans ?_
          obtain ⟨brokerId, eventType, connectionId⟩ := event
          obtain rfl : eventType = c.eventType := htype
          obtain rfl : connectionId = c.context.connectionId := hid
          rw [readEvent_eq_self hcomes]
          simp [hcomes, hannounces, hexpires]

theorem inOrder_step (hs : InOrder s) (hclock : ClockMovesOn s e) (h : step json s e = some t) :
    InOrder t := by
  unfold InOrder at hs ⊢
  cases step_stepped h with
  | moved _ _ hpublished _ => rwa [hpublished]
  | called c hcall hub announcement hafter =>
      subst hafter
      have hnew : ∀ event : HubConnectionEvent, announces c.context c.env = true →
          (s.published ++ [(⟨event, c.env.now⟩ : DatedEvent)]).Pairwise
            fun d e => sqlDateTime d.createDate < sqlDateTime e.createDate := by
        intro event hannounces
        refine List.pairwise_append.mpr ⟨hs, List.pairwise_singleton _ _, fun d hd e he => ?_⟩
        rw [List.mem_singleton.mp he]
        exact hclock c hcall hannounces d hd
      cases announcement with
      | silent _ hpublished _ =>
          rwa [callback_silent hpublished]
      | followed event hannounces hpublished _ _ =>
          rw [callback_eq hpublished]
          exact hnew event hannounces
      | unregistered event _ _ hannounces hpublished _ _ _ =>
          rw [callback_eq hpublished]
          exact hnew event hannounces

/-- The dates determine the order of the log. -/
theorem history_eq (hordered : InOrder s) (haccounted : Accounted s) (hqueue : s.queue = [])
    (herrors : s.errors = []) : history s.log = s.published.map DatedEvent.stored := by
  obtain ⟨handled, hlog, hperm⟩ := haccounted
  rw [hqueue, herrors, List.append_nil, List.append_nil] at hperm
  have hsorted : (history s.log).Pairwise fun d e => d.createDate ≤ e.createDate :=
    List.pairwise_insertionSort (fun d e : DatedEvent => d.createDate ≤ e.createDate) _
  have hrows : (history s.log).Perm (s.published.map DatedEvent.stored) := by
    refine (List.perm_insertionSort _ _).trans ?_
    rw [hlog]
    exact hperm.map DatedEvent.stored
  have hstored : (s.published.map DatedEvent.stored).Pairwise
      fun d e => d.createDate < e.createDate := List.pairwise_map.mpr hordered
  have hdates : ((s.published.map DatedEvent.stored).map fun d => d.createDate).Nodup :=
    List.pairwise_map.mpr (hstored.imp fun h => Nat.ne_of_lt h)
  refine List.Perm.eq_of_pairwise (fun d e hd he hde hed => ?_) hsorted
    (hstored.imp fun h => Nat.le_of_lt h) hrows
  exact List.inj_on_of_nodup_map hdates (hrows.mem_iff.mp hd) he (Nat.le_antisymm hde hed)

/-- The stored events are read as the published ones. -/
theorem readEvents_stored (events : List DatedEvent) :
    readEvents (events.map DatedEvent.stored) = readEvents events := by
  simp only [readEvents, List.foldl_map, DatedEvent.stored_event]

end Steps

/-- Each published event is in the log, in the queue or in the error queue. The registry
holds what one reads off the published events throughout the run exactly if each callback
registers what it publishes, and then a log that has received all events gives the registry
back, provided that the stored dates follow the order of the callbacks. -/
theorem log_reconstructs_registry (json : JsonSerializer Json) (events : List (TrailEvent Json))
    {s : Trail Json} (h : (connectionTrail json).run (connectionTrail json).init events = some s) :
    Accounted s ∧
      ((connectionTrail json).Always Reconstructed (connectionTrail json).init events ↔
        (connectionTrail json).Meets RegistersWhatItPublishes (connectionTrail json).init events) ∧
      ((connectionTrail json).Meets ClockMovesOn (connectionTrail json).init events →
        s.queue = [] → s.errors = [] → history s.log = s.published.map DatedEvent.stored ∧
          (Reconstructed s → registered s.hub.brokerConnections = readEvents (history s.log))) := by
  have haccounted : Accounted s := by
    have hstart : Accounted (connectionTrail json).init := ⟨[], rfl, List.Perm.refl _⟩
    exact (Machine.always_of_step (fun _ _ _ => accounted_step) events hstart).last h
  refine ⟨haccounted, ?_, fun hclock hqueue herrors => ?_⟩
  · exact Machine.always_iff_meets (B := fun _ => True) (fun _ _ _ _ _ => trivial)
      (fun _ _ _ _ hs ht => reconstructed_step hs ht) events trivial rfl
  · have hstart : InOrder (connectionTrail json).init := List.Pairwise.nil
    have hordered : InOrder s :=
      (Machine.always_of_meets (fun _ _ _ => inOrder_step) hstart hclock).last h
    have hhistory := history_eq hordered haccounted hqueue herrors
    refine ⟨hhistory, fun hreconstructed => ?_⟩
    rw [hhistory, readEvents_stored]
    exact hreconstructed

/-- A broker changes its connection. Its events are handled in another order than they were
published, one of them at the second attempt. -/
def changeOfConnection : List (TrailEvent StandardAuditMessage) :=
  [.onConnected ⟨"conn1", principal "123" "0"⟩ (Environment.calm 1000000),
    .onReconnected ⟨"conn2", principal "123" "0"⟩ (Environment.calm 1090000),
    .handled 1 (.error .external),
    .onDisconnected ⟨"conn1", principal "123" "0"⟩ (Environment.calm 1200000),
    .handled 2 (.ok ()), .handled 1 (.ok ()), .handled 0 (.ok ())]

theorem change_of_connection_reconstructed :
    ∃ s, (connectionTrail JsonSerializer.transparent).run
        (connectionTrail JsonSerializer.transparent).init changeOfConnection = some s ∧
      (s.log.rows.map fun row => row.createDate) = [1200000, 1100000, 1000000] ∧
      history s.log = s.published.map DatedEvent.stored ∧
      registered s.hub.brokerConnections = readEvents (history s.log) ∧
      readEvents (history s.log) = [("conn2", 123)] ∧
      (connectionTrail JsonSerializer.transparent).Always Reconstructed
        (connectionTrail JsonSerializer.transparent).init changeOfConnection := by
  have hrun : ((connectionTrail JsonSerializer.transparent).run
      (connectionTrail JsonSerializer.transparent).init changeOfConnection).any (fun s =>
        s.queue = [] ∧ s.errors = [] ∧
          (s.log.rows.map fun row => row.createDate) = [1200000, 1100000, 1000000] ∧
          registered s.hub.brokerConnections = [("conn2", 123)]) = true := by
    decide +kernel
  obtain ⟨s, hs, hfinal⟩ := (Option.any_eq_true _ _).mp hrun
  obtain ⟨hqueue, herrors, hdates, hregistered⟩ := of_decide_eq_true hfinal
  obtain ⟨-, hreconstructed, hlog⟩ := log_reconstructs_registry JsonSerializer.transparent
    changeOfConnection hs
  have halways := hreconstructed.mpr (by decide +kernel)
  obtain ⟨hhistory, hregistry⟩ := hlog (by decide +kernel) hqueue herrors
  have hread := hregistry (halways.last hs)
  exact ⟨s, hs, hdates, hhistory, hread, hread.symm.trans hregistered, halways⟩

end ReliableSignalR.ConnectionLog
