import ReliableSignalR.HubEndpoint
import ReliableSignalR.AuthorizationProvider
import ReliableSignalR.HubConnectionManager

/-!
# The throttle of the Hub handler and the refresh of tokens

The hub reads the expiry of a connection's token from a claim that the identity
provider has written, twenty minutes after the issue. The subscriber computes its
own expiry when it receives the token. Both are compared with the same margin,
the one after the push and the other when the acknowledgement is handled.

A run is one of the Hub endpoint on a clock that does not go back, in which
subscribers handle acknowledgements. `tokens` gives the token of each connection
id, which the connection presents in all its callbacks.
-/
namespace ReliableSignalR.TokenThrottle
open DotNet DecimalNumerals Messages EventRuns RetainedEffects IdentityInfrastructure
open BrokerConnectionManager BackOfficeHub HubEndpoint
open HubRuns (insertCommand)

variable {Json : Type}

/-- `ExtractAccessTokenExpiryDate` of the access token service, after the item
`expires_in` has been looked up. -/
def extractAccessTokenExpiryDate (expiresIn : Option String) (utcNow : DateTime) :
    Except Exception DateTime :=
  match expiresIn with
  | none => .error (.applicationException "Cannot find item: expires_in in Json.")
  | some text => (longParse text).bind (DateTime.addSeconds utcNow)

/-- A token, when it was issued and received, and the lifetime that the response
of the identity provider states. -/
structure Token where
  userName : String
  issued : DateTime
  received : DateTime
  expiresIn : ℤ
deriving DecidableEq, Repr

namespace Token

def user (token : Token) : ClaimsPrincipal :=
  ⟨AuthorizationProvider.addMandatoryClaims token.userName token.issued ++
    AuthorizationProvider.addAudienceClaims⟩

def accessTokenExpiryDate (token : Token) : Except Exception DateTime :=
  extractAccessTokenExpiryDate (some (toString token.expiresIn)) token.received

/-- `AccessTokenNeedsRefresh` of the manager that has received the token. -/
def needsRefresh (token : Token) (utcNow : DateTime) : Except Exception Bool :=
  token.accessTokenExpiryDate.map fun accessTokenExpiryDate =>
    ({ HubConnectionManager.Manager.initial with
      accessTokenExpiryDate } : HubConnectionManager.Manager).accessTokenNeedsRefresh utcNow

/-- The token was issued at least fifteen minutes ago. -/
def DueBy (token : Token) (utcNow : DateTime) : Prop :=
  DateTime.addMinutes token.issued 15 ≤ utcNow

/-- More than five minutes are left of the lifetime counted from the receipt. -/
def BeforeRefresh (token : Token) (utcNow : DateTime) : Prop :=
  (DateTime.addMinutes utcNow 5 : ℤ) < token.received + token.expiresIn * DateTime.ticksPerSecond

end Token

/-- The connection that the registry holds as the broker's active one. -/
def activeConnection (entries : List BrokerConnection) (brokerId : ℤ) : Option String :=
  (entries.find? fun b => b.brokerId == brokerId && !b.expired).map BrokerConnection.connectionId

/-- The answer of `ActiveBrokerTokenIsDueToExpire`, and the connection and the
instant that it is about. -/
structure Check where
  active : Option String
  checkedAt : DateTime
  outcome : Except Exception Bool
deriving DecidableEq

/-- A push of the handler to a connection, and the instants at which the
subscriber has handled an acknowledgement of it on that connection. -/
structure Push where
  connectionId : Option String
  pushedAt : DateTime
  check : Option Check
  acknowledgedAt : List DateTime
deriving DecidableEq

def Push.acknowledge (utcNow : DateTime) (p : Push) : Push :=
  { p with acknowledgedAt := utcNow :: p.acknowledgedAt }

def Push.checked (check : Check) (p : Push) : Push := { p with check := some check }

/-- `pushes` has the latest push first, and the delay of the handler ends at `resumes`. -/
structure Throttle (Json : Type) where
  endpoint : Endpoint Json
  resumes : DateTime
  pushes : List Push

inductive ThrottleEvent
  | endpoint (e : EndpointEvent)
  | acknowledged (position : ℕ)

/-- The time that the handler waits after its push. -/
def delay : ℕ := 15 * DateTime.ticksPerSecond

/-- The instant at which the handler goes on. -/
def throttlePublishOfNextMessageIfTokenIsAboutToExpire (due : Except Exception Bool)
    (utcNow : DateTime) : DateTime :=
  if due = .ok true then utcNow + delay else utcNow

namespace Throttle

def initial : Throttle Json := ⟨Endpoint.initial, 0, []⟩

def check (s : Throttle Json) (brokerId : ℤ) : Check where
  active := activeConnection s.endpoint.hub.brokerConnections.entries brokerId
  checkedAt := s.endpoint.now
  outcome :=
    activeBrokerTokenIsDueToExpire s.endpoint.hub.brokerConnections.entries brokerId s.endpoint.now

def push (s : Throttle Json) (brokerId : ℤ) : Push where
  connectionId := activeConnection s.endpoint.hub.brokerConnections.entries brokerId
  pushedAt := s.endpoint.now
  check := none
  acknowledgedAt := []

/-- The event of the endpoint leads to the state `t`; a push and a check are
recorded, and a check sets the end of the delay. -/
def record (s : Throttle Json) (e : EndpointEvent) (t : Endpoint Json) : Throttle Json :=
  match e, s.endpoint.handling with
  | .pushed (.ok _), some (d, _) =>
      { s with endpoint := t, pushes := s.push d.command.brokerId :: s.pushes }
  | .throttled, some (d, _) =>
      { endpoint := t
        resumes := throttlePublishOfNextMessageIfTokenIsAboutToExpire
          (s.check d.command.brokerId).outcome s.endpoint.now
        pushes := s.pushes.modify 0 (Push.checked (s.check d.command.brokerId)) }
  | _, _ => { s with endpoint := t }

end Throttle

section Machine
variable (tokens : String → Token)

/-- The clock does not go back, the handler waits to the end of its delay, and a
connection presents its token. -/
def permitted (s : Throttle Json) : EndpointEvent → Bool
  | .clock now => decide (s.endpoint.now ≤ now)
  | .returned => decide (s.resumes ≤ s.endpoint.now)
  | .onConnected context _ | .onReconnected context _ | .onDisconnected context _ =>
      context.user == (tokens context.connectionId).user
  | _ => true

/-- An acknowledgement is handled by a subscriber whose token had an expiry date. -/
def acknowledgeable (p : Push) : Bool :=
  p.connectionId.any fun connectionId => (tokens connectionId).accessTokenExpiryDate.isOk

def step (json : JsonSerializer Json) (s : Throttle Json) :
    ThrottleEvent → Option (Throttle Json)
  | .endpoint e =>
      if permitted tokens s e then (HubEndpoint.step json s.endpoint e).map (s.record e) else none
  | .acknowledged position =>
      if s.pushes[position]?.any (acknowledgeable tokens) then
        some { s with pushes := s.pushes.modify position (Push.acknowledge s.endpoint.now) }
      else none

def throttle (json : JsonSerializer Json) : Machine (Throttle Json) ThrottleEvent where
  init := Throttle.initial
  step := step tokens json

end Machine

section Agreement
variable (tokens : String → Token)

/-- The subscriber has found that its token needs a refresh when it handled an
acknowledgement of the push. -/
def Push.Refreshes (p : Push) : Prop :=
  ∃ connectionId ∈ p.connectionId, ∃ utcNow ∈ p.acknowledgedAt,
    (tokens connectionId).needsRefresh utcNow = .ok true

/-- If the subscriber refreshes its token on a push, the check after the push
found the token due to expire, and each later push came after the delay. -/
structure ThrottleAgrees (s : Throttle Json) : Prop where
  due : ∀ p ∈ s.pushes, p.Refreshes tokens → ∀ check ∈ p.check, check.outcome = .ok true
  delayed : s.pushes.Pairwise fun next p => p.Refreshes tokens →
    ∀ check ∈ p.check, check.checkedAt + delay ≤ next.pushedAt

/-- The check came when the active connection's token was at least fifteen minutes
old, or each acknowledgement was handled while more than five minutes were left. -/
def Push.InTime (p : Push) : Prop :=
  ∀ check ∈ p.check, (∃ active ∈ check.active, (tokens active).DueBy check.checkedAt) ∨
    ∀ connectionId ∈ p.connectionId, ∀ utcNow ∈ p.acknowledgedAt,
      (tokens connectionId).BeforeRefresh utcNow

/-- The condition on a step: the push that is checked or acknowledged is in time. -/
def StaysInTime (s : Throttle Json) : ThrottleEvent → Prop
  | .endpoint .throttled => ∀ h ∈ s.endpoint.handling, ∀ p ∈ s.pushes.head?,
      (p.checked (s.check h.1.command.brokerId)).InTime tokens
  | .acknowledged position => ∀ p ∈ s.pushes[position]?,
      (p.acknowledge s.endpoint.now).InTime tokens
  | _ => True

end Agreement

/-- The claim that the hub reads is the issue time and the lifetime of a token. -/
theorem getTokenExpiresOnDateFromClaims_user {token : Token} {tokenExpiresOn : DateTime}
    (h : getTokenExpiresOnDateFromClaims token.user = .ok tokenExpiresOn) :
    tokenExpiresOn =
      DateTime.addMinutes token.issued IdentityConstants.tokenDurationInMinutes := by
  have hclaim : (token.user.claims.find? fun c =>
      c.type == IdentityConstants.tokenExpiresOnClaimType) =
        some ⟨IdentityConstants.tokenExpiresOnClaimType, toString (DateTime.addMinutes
          token.issued IdentityConstants.tokenDurationInMinutes)⟩ := by
    have hidentifier :
        (ClaimTypes.nameIdentifier == IdentityConstants.tokenExpiresOnClaimType) = false := by
      decide
    have hprovider : (IdentityConstants.identityProviderClaimType ==
        IdentityConstants.tokenExpiresOnClaimType) = false := by decide
    have hname : (ClaimTypes.name == IdentityConstants.tokenExpiresOnClaimType) = false := by
      decide
    simp only [Token.user, AuthorizationProvider.addMandatoryClaims, List.cons_append,
      List.find?_cons, hidentifier, hprovider, hname, beq_self_eq_true]
  rw [getTokenExpiresOnDateFromClaims, hclaim] at h
  exact eq_of_longParse_ticks h

theorem dueBy_iff {token : Token} {utcNow : DateTime} :
    token.DueBy utcNow ↔
      DateTime.addMinutes token.issued IdentityConstants.tokenDurationInMinutes ≤
        DateTime.addMinutes utcNow 5 := by
  unfold Token.DueBy DateTime.addMinutes IdentityConstants.tokenDurationInMinutes
  change @LE.le ℕ _ _ _ ↔ @LE.le ℕ _ _ _
  omega

theorem needsRefresh_iff {token : Token} (hexpiry : token.accessTokenExpiryDate.isOk = true)
    {utcNow : DateTime} :
    token.needsRefresh utcNow = .ok true ↔ ¬token.BeforeRefresh utcNow := by
  unfold Token.needsRefresh Token.BeforeRefresh
  cases h : token.accessTokenExpiryDate with
  | error e => rw [h] at hexpiry; cases hexpiry
  | ok expiry =>
      have hvalue : (expiry : ℤ) = token.received + token.expiresIn * DateTime.ticksPerSecond := by
        simp only [Token.accessTokenExpiryDate, extractAccessTokenExpiryDate, longParse,
          parseInteger_toString] at h
        split at h
        · simp only [Except.bind, DateTime.addSeconds, DateTime.ofTicks] at h
          split at h
          · next hrange =>
            rw [← Except.ok.inj h]
            exact Int.toNat_of_nonneg hrange.1
          · cases h
        · cases h
      simp only [Except.map, HubConnectionManager.Manager.accessTokenNeedsRefresh,
        Except.ok.injEq, decide_eq_true_eq]
      rw [← hvalue, Int.not_lt, Int.ofNat_le]

section Lists
variable {α β : Type*} {f : α → α} {as : List α} {i : ℕ}

theorem mem_modify_cases {a : α} (ha : a ∈ as.modify i f) : a ∈ as ∨ ∃ b ∈ as[i]?, a = f b := by
  obtain ⟨j, hj⟩ := List.mem_iff_getElem?.mp ha
  rw [List.getElem?_modify] at hj
  obtain ⟨b, hb, rfl⟩ := Option.map_eq_some_iff.mp hj
  by_cases hij : i = j
  · rw [if_pos hij]
    exact Or.inr ⟨b, hij ▸ hb, rfl⟩
  · rw [if_neg hij]
    exact Or.inl (List.mem_of_getElem? hb)

theorem forall_mem_modify {Q : α → Prop} (h : ∀ a ∈ as, Q a) :
    (∀ a ∈ as.modify i f, Q a) ↔ ∀ a ∈ as[i]?, Q (f a) := by
  constructor
  · intro hall a ha
    apply hall
    apply List.mem_of_getElem? (i := i)
    rw [List.getElem?_modify_eq, ha]
    rfl
  · intro hnew a ha
    rcases mem_modify_cases ha with hold | ⟨b, hb, rfl⟩
    · exact h a hold
    · exact hnew b hb

theorem map_modify_of_eq {g : α → β} (h : ∀ a, g (f a) = g a) :
    (as.modify i f).map g = as.map g := by
  apply List.ext_getElem?
  intro j
  rw [List.getElem?_map, List.getElem?_map, List.getElem?_modify, Option.map_eq_map,
    Option.map_map]
  congr 1
  funext a
  by_cases hij : i = j
  · simp [hij, h]
  · simp [hij]

end Lists

section Records
variable {tokens : String → Token}

/-- The entries of the registry carry the expiry of their connection's token. -/
def TokensRegistered (tokens : String → Token) (r : BrokerConnections) : Prop :=
  ∀ c ∈ r.entries, c.tokenExpiresOn = DateTime.addMinutes (tokens c.connectionId).issued
    IdentityConstants.tokenDurationInMinutes

theorem TokensRegistered.add {r : BrokerConnections} (h : TokensRegistered tokens r)
    {connectionId : String} {tokenExpiresOn : DateTime} (brokerId : ℤ)
    (hexpires : getTokenExpiresOnDateFromClaims (tokens connectionId).user = .ok tokenExpiresOn) :
    TokensRegistered tokens (r.addConnection connectionId brokerId tokenExpiresOn) := by
  by_cases hin : connectionId ∈ r.connectionIds
  · rw [BrokerConnections.addConnection_of_mem hin]
    exact h
  · intro c hc
    rcases (BrokerConnections.mem_entries_addConnection hin).mp hc with rfl | ⟨d, hd, rfl⟩
    · exact getTokenExpiresOnDateFromClaims_user hexpires
    · have hold := h d hd
      split
      · exact hold
      · exact hold

theorem TokensRegistered.callback {s t : HubState Json}
    (h : TokensRegistered tokens s.brokerConnections) {context : HubCallerContext}
    (huser : context.user = (tokens context.connectionId).user)
    (hframe : (registryFrame context).rel s t) : TokensRegistered tokens t.brokerConnections := by
  rcases hframe with heq | ⟨brokerId, tokenExpiresOn, -, hexpires, heq⟩
  · rw [heq]
    exact h
  · rw [heq]
    exact h.add brokerId (huser ▸ hexpires)

theorem TokensRegistered.remove {r : BrokerConnections} (h : TokensRegistered tokens r)
    (connectionId : String) : TokensRegistered tokens (r.removeConnection connectionId) :=
  fun c hc => h c (BrokerConnections.mem_entries_removeConnection.mp hc).1

/-- A check answers that the token is due to expire exactly if there is an active
connection whose token is due by then. -/
def Check.Right (tokens : String → Token) (check : Check) : Prop :=
  check.outcome = .ok true ↔ ∃ active ∈ check.active, (tokens active).DueBy check.checkedAt

theorem check_right {s : Throttle Json}
    (h : TokensRegistered tokens s.endpoint.hub.brokerConnections) (brokerId : ℤ) :
    (s.check brokerId).Right tokens := by
  unfold Check.Right Throttle.check activeConnection activeBrokerTokenIsDueToExpire
  cases hfind : s.endpoint.hub.brokerConnections.entries.find?
      fun b => b.brokerId == brokerId && !b.expired with
  | none =>
      constructor
      · intro houtcome
        split at houtcome
        · cases houtcome
        · cases houtcome
      · exact nofun
  | some c =>
      have hc := List.mem_of_find?_eq_some hfind
      have hbroker : c.brokerId = brokerId := by
        have hmatch := List.find?_some hfind
        simp only [Bool.and_eq_true, beq_iff_eq] at hmatch
        exact hmatch.1
      have hall : ¬(s.endpoint.hub.brokerConnections.entries.all
          fun b => b.brokerId != brokerId) = true := by
        intro hne
        have hne := List.all_eq_true.mp hne c hc
        simp [hbroker] at hne
      rw [if_neg hall]
      simp only [Option.map_some, Option.mem_some_iff, exists_eq_left', dueBy_iff, ← h c hc,
        Except.ok.injEq, decide_eq_true_eq]

end Records

/-- A handler that has found a token due to expire goes on after the delay. -/
def Waited (s : Throttle Json) : Prop :=
  ∀ p ∈ s.pushes, ∀ check ∈ p.check, check.outcome = .ok true →
    check.checkedAt + delay ≤ s.endpoint.now

/-- The registry, the records, and the delay after a check. -/
structure Followed (tokens : String → Token) (s : Throttle Json) : Prop where
  registered : TokensRegistered tokens s.endpoint.hub.brokerConnections
  checks : ∀ p ∈ s.pushes, ∀ check ∈ p.check, check.Right tokens
  parsed : ∀ p ∈ s.pushes, p.acknowledgedAt ≠ [] → ∀ connectionId ∈ p.connectionId,
    (tokens connectionId).accessTokenExpiryDate.isOk = true
  waits : Waited s ∨ (∃ d, s.endpoint.handling = some (d, .activeBrokerTokenIsDueToExpire)) ∧
    ∀ p ∈ s.pushes, ∀ check ∈ p.check, check.outcome = .ok true →
      check.checkedAt + delay ≤ s.endpoint.now ∨ check.checkedAt + delay ≤ s.resumes
  delays : (s.pushes.map fun p => (p.pushedAt, p.check)).Pairwise fun next p =>
    ∀ check ∈ p.2, check.outcome = .ok true → check.checkedAt + delay ≤ next.1

section Runs
variable {tokens : String → Token} {json : JsonSerializer Json} {s t : Throttle Json}

theorem Followed.initial : Followed tokens (Throttle.initial : Throttle Json) :=
  ⟨nofun, nofun, nofun, Or.inl nofun, List.Pairwise.nil⟩

theorem Followed.waited (h : Followed tokens s)
    (hphase : ∀ d, s.endpoint.handling ≠ some (d, .activeBrokerTokenIsDueToExpire)) : Waited s := by
  rcases h.waits with hwaited | ⟨⟨d, hd⟩, -⟩
  · exact hwaited
  · exact absurd hd (hphase d)

theorem Followed.resumed (h : Followed tokens s) (hresumes : s.resumes ≤ s.endpoint.now) :
    Waited s := by
  rcases h.waits with hwaited | ⟨-, hwaits⟩
  · exact hwaited
  · intro p hp check hcheck hdue
    rcases hwaits p hp check hcheck hdue with hnow | hlater
    · exact hnow
    · exact Nat.le_trans hlater hresumes

/-- The endpoint moves without a push or a check. -/
theorem Followed.move (h : Followed tokens s) {e : Endpoint Json}
    (hregistered : TokensRegistered tokens e.hub.brokerConnections)
    (hnow : s.endpoint.now ≤ e.now)
    (hphase : Waited s ∨ e.handling = s.endpoint.handling) :
    Followed tokens { s with endpoint := e } := by
  refine ⟨hregistered, h.checks, h.parsed, ?_, h.delays⟩
  have hkeep : Waited s → Waited { s with endpoint := e } := fun hwaited p hp check hcheck hdue =>
    Nat.le_trans (hwaited p hp check hcheck hdue) hnow
  rcases hphase with hwaited | hsame
  · exact Or.inl (hkeep hwaited)
  · rcases h.waits with hwaited | ⟨hhandling, hwaits⟩
    · exact Or.inl (hkeep hwaited)
    · refine Or.inr ⟨hsame ▸ hhandling, fun p hp check hcheck hdue => ?_⟩
      exact (hwaits p hp check hcheck hdue).imp_left fun hle => Nat.le_trans hle hnow

/-- Events of the endpoint that concern neither the clock nor the handler nor the
registry. -/
def quiet : EndpointEvent → Bool
  | .sent _ | .auditHandled _ _ | .auditedElsewhere _ _ | .posted _ | .completed _ => true
  | _ => false

/-- The endpoint keeps its clock, its handler and the registry. -/
structure Quiet (a b : Endpoint Json) : Prop where
  now : b.now = a.now
  handling : b.handling = a.handling
  registry : b.hub.brokerConnections = a.hub.brokerConnections

theorem step_quiet {a b : Endpoint Json} {e : EndpointEvent} (he : quiet e = true)
    (hstep : HubEndpoint.step json a e = some b) : Quiet a b := by
  cases e with
  | sent command =>
      obtain ⟨-, rfl⟩ := guarded hstep
      exact ⟨rfl, rfl, rfl⟩
  | auditHandled position headers =>
      obtain ⟨message, -, rfl⟩ := Option.map_eq_some_iff.mp hstep
      exact ⟨rfl, rfl, rfl⟩
  | auditedElsewhere message headers =>
      obtain ⟨-, rfl⟩ := guarded hstep
      exact ⟨rfl, rfl, rfl⟩
  | posted ack =>
      obtain rfl := Option.some.inj hstep
      exact ⟨rfl, rfl, rfl⟩
  | completed correlationId =>
      obtain ⟨-, rfl⟩ := guarded hstep
      exact ⟨rfl, rfl, rfl⟩
  | _ => cases he

theorem Followed.quiet (h : Followed tokens s) {e : Endpoint Json}
    (hquiet : Quiet s.endpoint e) : Followed tokens { s with endpoint := e } := by
  apply h.move
  · rw [hquiet.registry]
    exact h.registered
  · exact Nat.le_of_eq hquiet.now.symm
  · exact Or.inr hquiet.handling

theorem Followed.acknowledged (h : Followed tokens s) {position : ℕ}
    (hparsed : ∀ p ∈ s.pushes[position]?, acknowledgeable tokens p = true) :
    Followed tokens
      { s with pushes := s.pushes.modify position (Push.acknowledge s.endpoint.now) } := by
  have hcheck : ∀ {p}, p ∈ s.pushes.modify position (Push.acknowledge s.endpoint.now) →
      ∃ q ∈ s.pushes, p.check = q.check := by
    intro p hp
    rcases mem_modify_cases hp with hold | ⟨q, hq, rfl⟩
    · exact ⟨p, hold, rfl⟩
    · exact ⟨q, List.mem_of_getElem? hq, rfl⟩
  refine ⟨h.registered, fun p hp check hc => ?_, fun p hp hne connectionId hid => ?_, ?_, ?_⟩
  · obtain ⟨q, hq, heq⟩ := hcheck hp
    exact h.checks q hq check (heq ▸ hc)
  · rcases mem_modify_cases hp with hold | ⟨q, hq, rfl⟩
    · exact h.parsed p hold hne connectionId hid
    · have hany := hparsed q hq
      have hsome : q.connectionId = some connectionId := hid
      rw [acknowledgeable, hsome] at hany
      exact hany
  · rcases h.waits with hwaited | ⟨hhandling, hwaits⟩
    · refine Or.inl fun p hp check hc => ?_
      obtain ⟨q, hq, heq⟩ := hcheck hp
      exact hwaited q hq check (heq ▸ hc)
    · refine Or.inr ⟨hhandling, fun p hp check hc => ?_⟩
      obtain ⟨q, hq, heq⟩ := hcheck hp
      exact hwaits q hq check (heq ▸ hc)
  · have hsame : (s.pushes.modify position (Push.acknowledge s.endpoint.now)).map
        (fun p => (p.pushedAt, p.check)) = s.pushes.map fun p => (p.pushedAt, p.check) :=
      map_modify_of_eq fun _ => rfl
    exact hsame ▸ h.delays

theorem Followed.pushed (h : Followed tokens s) (hwaited : Waited s) {e : Endpoint Json}
    (hhub : e.hub = s.endpoint.hub) (hnow : e.now = s.endpoint.now) (brokerId : ℤ) :
    Followed tokens { s with endpoint := e, pushes := s.push brokerId :: s.pushes } := by
  refine ⟨hhub ▸ h.registered, fun p hp check hc => ?_, fun p hp hne => ?_, Or.inl ?_, ?_⟩
  · rcases List.mem_cons.mp hp with rfl | hp
    · cases hc
    · exact h.checks p hp check hc
  · rcases List.mem_cons.mp hp with rfl | hp
    · exact absurd rfl hne
    · exact h.parsed p hp hne
  · intro p hp check hc hdue
    rcases List.mem_cons.mp hp with rfl | hp
    · cases hc
    · exact hnow ▸ hwaited p hp check hc hdue
  · rw [List.map_cons, List.pairwise_cons]
    refine ⟨fun q hq check hc hdue => ?_, h.delays⟩
    obtain ⟨p, hp, rfl⟩ := List.mem_map.mp hq
    exact hwaited p hp check hc hdue

theorem Followed.checked (h : Followed tokens s) (hwaited : Waited s) (brokerId : ℤ)
    {d : Delivery} {e : Endpoint Json} (hhub : e.hub = s.endpoint.hub)
    (hnow : e.now = s.endpoint.now) (hhandling : (s.check brokerId).outcome = .ok true →
      e.handling = some (d, .activeBrokerTokenIsDueToExpire)) :
    Followed tokens
      { endpoint := e
        resumes := throttlePublishOfNextMessageIfTokenIsAboutToExpire
          (s.check brokerId).outcome s.endpoint.now
        pushes := s.pushes.modify 0 (Push.checked (s.check brokerId)) } := by
  have hcases : ∀ {p}, p ∈ s.pushes.modify 0 (Push.checked (s.check brokerId)) →
      ∀ check ∈ p.check, check = s.check brokerId ∨ ∃ q ∈ s.pushes, check ∈ q.check := by
    intro p hp check hc
    rcases mem_modify_cases hp with hold | ⟨q, -, rfl⟩
    · exact Or.inr ⟨p, hold, hc⟩
    · exact Or.inl (Option.some.inj hc).symm
  refine ⟨hhub ▸ h.registered, fun p hp check hc => ?_, fun p hp hne => ?_, ?_, ?_⟩
  · rcases hcases hp check hc with rfl | ⟨q, hq, hold⟩
    · exact check_right h.registered brokerId
    · exact h.checks q hq check hold
  · rcases mem_modify_cases hp with hold | ⟨q, hq, rfl⟩
    · exact h.parsed p hold hne
    · exact h.parsed q (List.mem_of_getElem? hq) hne
  · by_cases hdue : (s.check brokerId).outcome = .ok true
    · refine Or.inr ⟨⟨d, hhandling hdue⟩, fun p hp check hc houtcome => ?_⟩
      rcases hcases hp check hc with rfl | ⟨q, hq, hold⟩
      · refine Or.inr ?_
        simp only [throttlePublishOfNextMessageIfTokenIsAboutToExpire, if_pos hdue]
        exact Nat.le_refl _
      · exact Or.inl (hnow ▸ hwaited q hq check hold houtcome)
    · refine Or.inl fun p hp check hc houtcome => ?_
      rcases hcases hp check hc with rfl | ⟨q, hq, hold⟩
      · exact absurd houtcome hdue
      · exact hnow ▸ hwaited q hq check hold houtcome
  · cases hpushes : s.pushes with
    | nil => exact List.Pairwise.nil
    | cons p ps =>
        have hdelays := h.delays
        rw [hpushes, List.map_cons, List.pairwise_cons] at hdelays
        rw [List.modify_zero_cons, List.map_cons, List.pairwise_cons]
        exact hdelays

theorem Followed.endpoint (h : Followed tokens s) {e : EndpointEvent} {b : Endpoint Json}
    (hpermitted : permitted tokens s e = true)
    (hstep : HubEndpoint.step json s.endpoint e = some b) : Followed tokens (s.record e b) := by
  cases e with
  | sent command => exact h.quiet (step_quiet rfl hstep)
  | auditHandled position headers => exact h.quiet (step_quiet rfl hstep)
  | auditedElsewhere message headers => exact h.quiet (step_quiet rfl hstep)
  | posted ack => exact h.quiet (step_quiet rfl hstep)
  | completed correlationId => exact h.quiet (step_quiet rfl hstep)
  | clock now =>
      obtain ⟨-, rfl⟩ := guarded hstep
      exact h.move h.registered (of_decide_eq_true hpermitted) (Or.inr rfl)
  | taken position =>
      obtain ⟨d, hidle, -, rfl⟩ := step_taken hstep
      apply h.move
      · rw [Endpoint.proceed_hub]
        exact h.registered
      · apply Nat.le_of_eq
        rw [Endpoint.proceed_now]
      · exact Or.inl (h.waited (by simp [hidle]))
  | pushed outcome =>
      obtain ⟨d, hhandling, rfl⟩ := step_pushed hstep
      have hwaited : Waited s := h.waited (by simp [hhandling])
      cases outcome with
      | ok u =>
          simp only [Throttle.record, hhandling]
          exact h.pushed hwaited (Endpoint.proceed_hub _ _ _ _) (Endpoint.proceed_now _ _ _ _) _
      | error x =>
          apply h.move
          · rw [Endpoint.proceed_hub]
            exact h.registered
          · exact Nat.le_of_eq (Endpoint.proceed_now _ _ _ _).symm
          · exact Or.inl hwaited
  | throttled =>
      obtain ⟨d, hhandling, rfl⟩ := step_throttled hstep
      simp only [Throttle.record, hhandling]
      refine h.checked (h.waited (by simp [hhandling])) _ (d := d) (Endpoint.proceed_hub _ _ _ _)
        (Endpoint.proceed_now _ _ _ _) fun hdue => ?_
      have hdue : activeBrokerTokenIsDueToExpire s.endpoint.hub.brokerConnections.entries
          d.command.brokerId s.endpoint.now = .ok true := hdue
      rw [hdue]
      rfl
  | returned =>
      obtain ⟨d, -, rfl⟩ := step_returned hstep
      have hwaited : Waited s := h.resumed (of_decide_eq_true hpermitted)
      exact h.move h.registered (Nat.le_refl _) (Or.inl hwaited)
  | onConnected context env =>
      obtain rfl := Option.some.inj hstep
      have huser := eq_of_beq hpermitted
      have hframe := onConnected_registry json context { env with now := s.endpoint.now }
        s.endpoint.hub
      exact h.move (h.registered.callback huser hframe) (Nat.le_refl _) (Or.inr rfl)
  | onReconnected context env =>
      obtain rfl := Option.some.inj hstep
      have huser := eq_of_beq hpermitted
      have hframe := onReconnected_registry context { env with now := s.endpoint.now }
        s.endpoint.hub
      exact h.move (h.registered.callback huser hframe) (Nat.le_refl _) (Or.inr rfl)
  | onDisconnected context env =>
      obtain rfl := Option.some.inj hstep
      apply h.move
      · rw [onDisconnected_registry]
        split
        · exact h.registered.remove _
        · exact h.registered
      · exact Nat.le_refl _
      · exact Or.inr rfl

theorem Followed.step (h : Followed tokens s) {e : ThrottleEvent}
    (hstep : TokenThrottle.step tokens json s e = some t) : Followed tokens t := by
  cases e with
  | endpoint e =>
      obtain ⟨hpermitted, hstep⟩ := Option.ite_none_right_eq_some.mp hstep
      obtain ⟨b, hb, rfl⟩ := Option.map_eq_some_iff.mp hstep
      exact h.endpoint hpermitted hb
  | acknowledged position =>
      obtain ⟨hany, rfl⟩ := guarded hstep
      refine h.acknowledged fun p hp => ?_
      rw [Option.mem_def.mp hp] at hany
      exact hany

end Runs

section Exactness
variable {tokens : String → Token} {json : JsonSerializer Json} {s t : Throttle Json}

theorem Followed.push_agrees_iff (h : Followed tokens s) {p : Push} (hp : p ∈ s.pushes) :
    (p.Refreshes tokens → ∀ check ∈ p.check, check.outcome = .ok true) ↔ p.InTime tokens := by
  have hrefresh : p.Refreshes tokens ↔ ∃ connectionId ∈ p.connectionId,
      ∃ utcNow ∈ p.acknowledgedAt, ¬(tokens connectionId).BeforeRefresh utcNow := by
    have hneeds : ∀ connectionId ∈ p.connectionId, ∀ utcNow ∈ p.acknowledgedAt,
        ((tokens connectionId).needsRefresh utcNow = .ok true ↔
          ¬(tokens connectionId).BeforeRefresh utcNow) := fun connectionId hid utcNow hnow =>
      needsRefresh_iff (h.parsed p hp (List.ne_nil_of_mem hnow) connectionId hid)
    constructor
    · intro ⟨connectionId, hid, utcNow, hnow, hneed⟩
      exact ⟨connectionId, hid, utcNow, hnow, (hneeds connectionId hid utcNow hnow).mp hneed⟩
    · intro ⟨connectionId, hid, utcNow, hnow, hnot⟩
      exact ⟨connectionId, hid, utcNow, hnow, (hneeds connectionId hid utcNow hnow).mpr hnot⟩
  constructor
  · intro hagrees check hcheck
    by_cases hrefreshes : p.Refreshes tokens
    · exact Or.inl ((h.checks p hp check hcheck).mp (hagrees hrefreshes check hcheck))
    · refine Or.inr fun connectionId hid utcNow hnow => ?_
      by_contra hnot
      exact hrefreshes (hrefresh.mpr ⟨connectionId, hid, utcNow, hnow, hnot⟩)
  · intro htime hrefreshes check hcheck
    rcases htime check hcheck with hdue | hbefore
    · exact (h.checks p hp check hcheck).mpr hdue
    · obtain ⟨connectionId, hid, utcNow, hnow, hnot⟩ := hrefresh.mp hrefreshes
      exact absurd (hbefore connectionId hid utcNow hnow) hnot

/-- The delay follows from the answer, so agreement is a matter of each push. -/
theorem Followed.agrees_iff (h : Followed tokens s) :
    ThrottleAgrees tokens s ↔ ∀ p ∈ s.pushes, p.InTime tokens := by
  constructor
  · exact fun hagrees p hp => (h.push_agrees_iff hp).mp (hagrees.due p hp)
  · intro htime
    have hdue : ∀ p ∈ s.pushes, p.Refreshes tokens →
        ∀ check ∈ p.check, check.outcome = .ok true :=
      fun p hp => (h.push_agrees_iff hp).mpr (htime p hp)
    refine ⟨hdue, ?_⟩
    have hdelays := List.pairwise_map.mp h.delays
    exact hdelays.imp_of_mem fun _ hp hdelay hrefreshes check hcheck =>
      hdelay check hcheck (hdue _ hp hrefreshes check hcheck)

theorem inTime_push (s : Throttle Json) (brokerId : ℤ) : (s.push brokerId).InTime tokens := nofun

theorem record_inTime {e : EndpointEvent} {b : Endpoint Json}
    (htime : ∀ p ∈ s.pushes, p.InTime tokens)
    (hstep : HubEndpoint.step json s.endpoint e = some b) :
    (∀ p ∈ (s.record e b).pushes, p.InTime tokens) ↔ StaysInTime tokens s (.endpoint e) := by
  cases e with
  | pushed outcome =>
      refine ⟨fun _ => trivial, fun _ => ?_⟩
      cases outcome with
      | error x =>
          simp only [Throttle.record]
          exact htime
      | ok u =>
          cases hhandling : s.endpoint.handling with
          | none =>
              simp only [Throttle.record, hhandling]
              exact htime
          | some d =>
              simp only [Throttle.record, hhandling]
              exact List.forall_mem_cons.mpr ⟨inTime_push s _, htime⟩
  | throttled =>
      obtain ⟨d, hhandling, -⟩ := step_throttled hstep
      simp only [Throttle.record, hhandling, StaysInTime, Option.mem_some_iff, forall_eq']
      rw [forall_mem_modify htime, ← List.head?_eq_getElem?]
  | _ => exact ⟨fun _ => trivial, fun _ => htime⟩

theorem exact_step (h : Followed tokens s) (hagrees : ThrottleAgrees tokens s) {e : ThrottleEvent}
    (hstep : TokenThrottle.step tokens json s e = some t) :
    ThrottleAgrees tokens t ↔ StaysInTime tokens s e := by
  have htime := h.agrees_iff.mp hagrees
  rw [(h.step hstep).agrees_iff]
  cases e with
  | endpoint e =>
      obtain ⟨-, hstep⟩ := Option.ite_none_right_eq_some.mp hstep
      obtain ⟨b, hb, rfl⟩ := Option.map_eq_some_iff.mp hstep
      exact record_inTime htime hb
  | acknowledged position =>
      obtain ⟨-, rfl⟩ := guarded hstep
      exact forall_mem_modify htime

end Exactness

/-- In every run, whatever the tokens and the latencies: the throttle agrees with
the refresh precisely if no push is checked before its broker's token is fifteen
minutes old and acknowledged in the last five minutes of the subscriber's expiry. -/
theorem throttle_agrees_exactly_when (tokens : String → Token) (json : JsonSerializer Json)
    (events : List ThrottleEvent) :
    (throttle tokens json).Always (ThrottleAgrees tokens) Throttle.initial events ↔
      (throttle tokens json).Meets (StaysInTime tokens) Throttle.initial events := by
  apply Machine.always_iff_meets (B := Followed tokens)
  · exact fun s e t hs hstep => hs.step hstep
  · exact fun s e t hs hagrees hstep => exact_step hs hagrees hstep
  · exact Followed.initial
  · exact ⟨nofun, List.Pairwise.nil⟩

/-- For one token and acknowledgements that are handled at most `latency` after
the check, the decisions agree at all instants precisely if the token was received
in its last five minutes or the subscriber's expiry is the later one by `latency`. The
worst check comes one tick before the hub's boundary, with the acknowledgement as late
as possible. -/
theorem decisions_agree_iff (token : Token) (latency : ℕ) :
    (∀ checkedAt utcNow : ℕ, token.received ≤ checkedAt → utcNow ≤ checkedAt + latency →
        ¬token.BeforeRefresh utcNow → token.DueBy checkedAt) ↔
      token.DueBy token.received ∨
        (DateTime.addMinutes token.issued IdentityConstants.tokenDurationInMinutes + latency : ℤ) ≤
          token.received + token.expiresIn * DateTime.ticksPerSecond := by
  have hdue : ∀ utcNow : ℕ, token.DueBy utcNow ↔ (token.issued : ℤ) + 9000000000 ≤ utcNow :=
    fun _ => Int.ofNat_le.symm
  have hbefore : ∀ utcNow : ℕ, token.BeforeRefresh utcNow ↔
      (utcNow : ℤ) + 3000000000 < token.received + token.expiresIn * 10000000 :=
    fun _ => Iff.rfl
  have hexpires : ((DateTime.addMinutes token.issued IdentityConstants.tokenDurationInMinutes : ℕ) :
      ℤ) = token.issued + 12000000000 := rfl
  have hsecond : (DateTime.ticksPerSecond : ℤ) = 10000000 := rfl
  rw [hexpires, hsecond, hdue]
  simp only [hbefore, hdue]
  constructor
  · intro hagree
    by_contra hnot
    have hreceived : @LE.le ℕ _ token.received (token.issued + 9000000000 - 1) := by omega
    have hcheck := hagree _ _ hreceived (Nat.le_refl _)
    omega
  · intro h checkedAt utcNow hreceived hlatency hrefresh
    have hreceived : (token.received : ℤ) ≤ checkedAt := Int.ofNat_le.mpr hreceived
    omega

/-- Two tokens of twenty minutes. -/
def twentyMinutes (_ : String) : Token := ⟨"123", 0, 0, 1200⟩

/-- The push and the check come one minute before the boundary that both sides
share, the acknowledgement one minute after it. -/
def acrossTheBoundary : List ThrottleEvent :=
  [.endpoint (.onConnected ⟨"conn1", (twentyMinutes "conn1").user⟩ (Environment.calm 0)),
    .endpoint (.sent (insertCommand 7 123)),
    .endpoint (.clock (DateTime.addMinutes 0 14)),
    .endpoint (.taken 0), .endpoint (.pushed (.ok ())), .endpoint .throttled,
    .endpoint .returned, .endpoint (.clock (DateTime.addMinutes 0 16)), .acknowledged 0]

theorem boundary_between_counterexample :
    ∃ s, (throttle twentyMinutes JsonSerializer.transparent).run Throttle.initial
        acrossTheBoundary = some s ∧
      s.pushes = [⟨some "conn1", DateTime.addMinutes 0 14,
        some ⟨some "conn1", DateTime.addMinutes 0 14, .ok false⟩, [DateTime.addMinutes 0 16]⟩] ∧
      (twentyMinutes "conn1").needsRefresh (DateTime.addMinutes 0 16) = .ok true ∧
      ¬ThrottleAgrees twentyMinutes s := by
  have hrun : ((throttle twentyMinutes JsonSerializer.transparent).run Throttle.initial
      acrossTheBoundary).map (fun s => s.pushes) =
      some [⟨some "conn1", DateTime.addMinutes 0 14,
        some ⟨some "conn1", DateTime.addMinutes 0 14, .ok false⟩,
        [DateTime.addMinutes 0 16]⟩] := by
    decide +kernel
  have hneeds : (twentyMinutes "conn1").needsRefresh (DateTime.addMinutes 0 16) = .ok true := by
    decide +kernel
  obtain ⟨s, hs, hpushes⟩ := Option.map_eq_some_iff.mp hrun
  refine ⟨s, hs, hpushes, hneeds, fun hagrees => ?_⟩
  have hdue := hagrees.due _ (hpushes ▸ List.mem_singleton.mpr rfl)
    ⟨"conn1", rfl, _, List.mem_singleton.mpr rfl, hneeds⟩ _ rfl
  cases hdue

end ReliableSignalR.TokenThrottle
