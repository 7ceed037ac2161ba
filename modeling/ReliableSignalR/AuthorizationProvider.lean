import ReliableSignalR.HubRuns

/-!
# Tokens, and the connections they open

The identity provider grants a token unless both the user name and the password
are wrong. The claims of the token are those of its identity; the hub reads the
broker id from their name claim. A user name or a password that is missing from
the request is null.

A run consists of token requests, of callbacks that present an issued token, and
of the work of the audit endpoint. Everything that is registered or received
belongs to a correct request precisely as long as no request has exactly one of
the two right.
-/
namespace ReliableSignalR.AuthorizationProvider
open DotNet EventRuns RetainedEffects IdentityInfrastructure Messages
open BrokerConnectionManager AuditEndpoint BackOfficeHub HubRuns

variable {Json : Type}

structure OAuthGrantResourceOwnerCredentialsContext where
  userName : Option String
  password : Option String
deriving DecidableEq, Repr

/-- What the handler has done to the context. -/
inductive Decision
  | untouched
  | rejected
  | validated (user : ClaimsPrincipal)
deriving DecidableEq, Repr

def addMandatoryClaims (userName : String) (utcNow : DateTime) : List Claim :=
  [⟨ClaimTypes.nameIdentifier, userName⟩,
    ⟨IdentityConstants.identityProviderClaimType, userName⟩,
    ⟨ClaimTypes.name, userName⟩,
    ⟨ClaimTypes.name, userName⟩,
    ⟨IdentityConstants.tokenExpiresOnClaimType,
      toString (DateTime.addMinutes utcNow IdentityConstants.tokenDurationInMinutes)⟩,
    ⟨ClaimTypes.authenticationMethod, IdentityConstants.authenticationMethod⟩]

def addAudienceClaims : List Claim :=
  [⟨IdentityConstants.audienceClaimType, IdentityConstants.allowedAudienceCode⟩]

section Grant
variable (toUpperInvariant : String → String)

def createClaimsIdentity (userName : Option String) (utcNow : DateTime) :
    Except Exception ClaimsPrincipal :=
  match userName with
  | none => .error .nullReferenceException
  | some userName =>
      .ok ⟨addMandatoryClaims (toUpperInvariant userName) utcNow ++ addAudienceClaims⟩

def grantResourceOwnerCredentials
    (context : Option OAuthGrantResourceOwnerCredentialsContext) (utcNow : DateTime) :
    Except Exception Decision :=
  match context with
  | none => .ok .untouched
  | some context =>
      if context.userName != some "123" && context.password != some "mypassword" then
        .ok .rejected
      else (createClaimsIdentity toUpperInvariant context.userName utcNow).map .validated

end Grant

/-- A signed token: the request it was granted to and the principal it yields. -/
structure Token where
  request : OAuthGrantResourceOwnerCredentialsContext
  user : ClaimsPrincipal
deriving DecidableEq, Repr

/-- A connection that has presented a token. -/
structure Opened where
  connectionId : String
  token : Token
deriving DecidableEq, Repr

structure AuthRun (Json : Type) where
  requests : List (OAuthGrantResourceOwnerCredentialsContext × Except Exception Decision)
  issued : List Token
  opened : List Opened
  run : HubRun Json

inductive AuthEvent
  | requested (context : OAuthGrantResourceOwnerCredentialsContext) (utcNow : DateTime)
  | onConnected (connectionId : String) (token : ℕ) (env : Environment)
  | onReconnected (connectionId : String) (token : ℕ) (env : Environment)
  | onDisconnected (connectionId : String) (token : ℕ) (env : Environment)
  | audited (message : StandardAuditMessage) (headers : Headers)
  | posted (ack : SendAcknowledgementCommand) (now : DateTime)
  | completed (correlationId : Guid) (now : DateTime)

namespace AuthRun

def initial : AuthRun Json := ⟨[], [], [], HubRun.initial⟩

/-- The answer to a token request. -/
def answer (s : AuthRun Json) (context : OAuthGrantResourceOwnerCredentialsContext)
    (decision : Except Exception Decision) : AuthRun Json :=
  { s with
    requests := s.requests ++ [(context, decision)]
    issued :=
      match decision with
      | .ok (.validated user) => s.issued ++ [⟨context, user⟩]
      | _ => s.issued }

/-- A callback for a connection that presents a token. -/
def present (s : AuthRun Json) (connectionId : String) (token : Token)
    (run : HubRun Json) : AuthRun Json :=
  { s with opened := s.opened ++ [⟨connectionId, token⟩], run }

end AuthRun

section Runs
variable (toUpperInvariant : String → String) (json : JsonSerializer Json)

def step (s : AuthRun Json) : AuthEvent → Option (AuthRun Json)
  | .requested context utcNow =>
      some (s.answer context
        (grantResourceOwnerCredentials toUpperInvariant (some context) utcNow))
  | .onConnected connectionId i env =>
      s.issued[i]?.map fun token => s.present connectionId token
        (HubRuns.step json s.run (.onConnected ⟨connectionId, token.user⟩ env))
  | .onReconnected connectionId i env =>
      s.issued[i]?.map fun token => s.present connectionId token
        (HubRuns.step json s.run (.onReconnected ⟨connectionId, token.user⟩ env))
  | .onDisconnected connectionId i env =>
      s.issued[i]?.map fun token => s.present connectionId token
        (HubRuns.step json s.run (.onDisconnected ⟨connectionId, token.user⟩ env))
  | .audited message headers =>
      some { s with run := HubRuns.step json s.run (.audited message headers) }
  | .posted ack now => some { s with run := HubRuns.step json s.run (.posted ack now) }
  | .completed correlationId now =>
      some { s with run := HubRuns.step json s.run (.completed correlationId now) }

def system : Machine (AuthRun Json) AuthEvent where
  init := AuthRun.initial
  step := step toUpperInvariant json

end Runs

def Correct (context : OAuthGrantResourceOwnerCredentialsContext) : Prop :=
  context.userName = some "123" ∧ context.password = some "mypassword"

/-- Wrong requests are rejected. Whoever is registered, counted as connected or
among the receivers of a replay has a token of a correct request. -/
structure Authentic (s : AuthRun Json) : Prop where
  rejected : ∀ r ∈ s.requests, ¬Correct r.1 → r.2 = .ok .rejected
  registered : ∀ c ∈ s.run.hub.brokerConnections.entries, ∀ o ∈ s.opened,
    o.connectionId = c.connectionId → Correct o.token.request
  counted : ∀ brokerId,
    isBrokerConnected s.run.hub.brokerConnections.entries brokerId = true →
      ∃ o ∈ s.opened, o.token.user.brokerId = .ok brokerId ∧ Correct o.token.request ∧
        o.connectionId ∈ s.run.hub.brokerConnections.connectionIds
  receives : ∀ p ∈ s.run.hub.replayed, ∀ o ∈ s.opened,
    o.token.user.name = some p.user → Correct o.token.request

/-- The condition on a request: its two parts are both right or both wrong. -/
def NotHalfRight : AuthEvent → Prop
  | .requested context _ =>
      context.userName = some "123" ↔ context.password = some "mypassword"
  | _ => True

/-- Tokens come from validated requests, and entries from presented tokens. -/
structure Traced (s : AuthRun Json) : Prop where
  issued : ∀ token ∈ s.issued, (token.request, .ok (.validated token.user)) ∈ s.requests
  opened : ∀ o ∈ s.opened, o.token ∈ s.issued
  entries : ∀ c ∈ s.run.hub.brokerConnections.entries, ∃ o ∈ s.opened,
    o.connectionId = c.connectionId ∧ o.token.user.brokerId = .ok c.brokerId

section Traced
variable {toUpperInvariant : String → String} {json : JsonSerializer Json}
  {s : AuthRun Json}

/-- As long as wrong requests are rejected, all tokens belong to correct ones. -/
theorem Traced.correct (h : Traced s)
    (hrejected : ∀ r ∈ s.requests, ¬Correct r.1 → r.2 = .ok .rejected) {token : Token}
    (ht : token ∈ s.issued) : Correct token.request := by
  by_contra hwrong
  have hdecision := hrejected _ (h.issued token ht) hwrong
  cases Except.ok.inj hdecision

theorem Traced.authentic_iff (h : Traced s) :
    Authentic s ↔ ∀ r ∈ s.requests, ¬Correct r.1 → r.2 = .ok .rejected := by
  constructor
  · exact fun ha => ha.rejected
  · intro hrejected
    have hopened : ∀ o ∈ s.opened, Correct o.token.request :=
      fun o ho => h.correct hrejected (h.opened o ho)
    refine ⟨hrejected, fun _ _ o ho _ => hopened o ho, ?_, fun _ _ o ho _ => hopened o ho⟩
    intro brokerId hconnected
    obtain ⟨c, hc, rfl⟩ := isBrokerConnected_iff.mp hconnected
    obtain ⟨o, ho, hid, hbroker⟩ := h.entries c hc
    refine ⟨o, ho, hbroker, hopened o ho, ?_⟩
    rw [hid]
    exact List.mem_map_of_mem hc

theorem Traced.answer (h : Traced s) (context : OAuthGrantResourceOwnerCredentialsContext)
    (decision : Except Exception Decision) : Traced (s.answer context decision) := by
  have hold : ∀ token ∈ s.issued,
      (token.request, .ok (.validated token.user)) ∈ s.requests ++ [(context, decision)] :=
    fun token ht => List.mem_append_left _ (h.issued token ht)
  cases decision with
  | error e => exact ⟨hold, h.opened, h.entries⟩
  | ok decision =>
      cases decision with
      | untouched => exact ⟨hold, h.opened, h.entries⟩
      | rejected => exact ⟨hold, h.opened, h.entries⟩
      | validated user =>
          refine ⟨fun token ht => ?_, fun o ho => List.mem_append_left _ (h.opened o ho),
            h.entries⟩
          rcases List.mem_append.mp ht with hin | hnew
          · exact hold token hin
          · rw [List.mem_singleton.mp hnew]
            exact List.mem_append_right _ (List.mem_singleton.mpr rfl)

/-- A callback adds at most an entry of the presented token. -/
theorem Traced.present (h : Traced s) {token : Token} (ht : token ∈ s.issued)
    (connectionId : String) {run : HubRun Json}
    (hrun : ∀ c ∈ run.hub.brokerConnections.entries,
      c.connectionId = connectionId ∧ token.user.brokerId = .ok c.brokerId ∨
        ∃ d ∈ s.run.hub.brokerConnections.entries,
          d.connectionId = c.connectionId ∧ d.brokerId = c.brokerId) :
    Traced (s.present connectionId token run) := by
  refine ⟨h.issued, fun o ho => ?_, fun c hc => ?_⟩
  · rcases List.mem_append.mp ho with hold | hnew
    · exact h.opened o hold
    · rw [List.mem_singleton.mp hnew]
      exact ht
  · rcases hrun c hc with ⟨hid, hbroker⟩ | ⟨d, hd, hid, hbroker⟩
    · exact ⟨⟨connectionId, token⟩, List.mem_append_right _ (List.mem_singleton.mpr rfl),
        hid.symm, hbroker⟩
    · obtain ⟨o, ho, hoid, hobroker⟩ := h.entries d hd
      exact ⟨o, List.mem_append_left _ ho, hoid.trans hid, hbroker ▸ hobroker⟩

theorem registryFrame_entries {context : HubCallerContext} {a b : HubState Json}
    (h : (registryFrame context).rel a b) {c : BrokerConnection}
    (hc : c ∈ b.brokerConnections.entries) :
    c.connectionId = context.connectionId ∧ context.user.brokerId = .ok c.brokerId ∨
      ∃ d ∈ a.brokerConnections.entries,
        d.connectionId = c.connectionId ∧ d.brokerId = c.brokerId := by
  rcases h with h | ⟨brokerId, tokenExpiresOn, hbroker, -, h⟩
  · rw [h] at hc
    exact Or.inr ⟨c, hc, rfl, rfl⟩
  · rw [h] at hc
    rcases BrokerConnections.mem_addConnection_cases hc with ⟨hid, hb⟩ | hold
    · exact Or.inl ⟨hid, by rw [hbroker, hb]⟩
    · exact Or.inr hold

theorem onDisconnected_entries (context : HubCallerContext) (env : Environment)
    (a : HubState Json) {c : BrokerConnection}
    (hc : c ∈ (exec (onDisconnected context env) a).2.brokerConnections.entries) :
    c ∈ a.brokerConnections.entries := by
  rw [onDisconnected_registry] at hc
  split at hc
  · exact (BrokerConnections.mem_entries_removeConnection.mp hc).1
  · exact hc

theorem Traced.step (h : Traced s) {t : AuthRun Json} {e : AuthEvent}
    (hstep : step toUpperInvariant json s e = some t) : Traced t := by
  cases e with
  | requested context utcNow =>
      obtain rfl := Option.some.inj hstep
      exact h.answer context _
  | onConnected connectionId i env =>
      obtain ⟨token, htoken, rfl⟩ := Option.map_eq_some_iff.mp hstep
      apply h.present (List.mem_of_getElem? htoken)
      exact fun c hc => registryFrame_entries (onConnected_registry json _ env _) hc
  | onReconnected connectionId i env =>
      obtain ⟨token, htoken, rfl⟩ := Option.map_eq_some_iff.mp hstep
      apply h.present (List.mem_of_getElem? htoken)
      exact fun c hc => registryFrame_entries (onReconnected_registry _ env _) hc
  | onDisconnected connectionId i env =>
      obtain ⟨token, htoken, rfl⟩ := Option.map_eq_some_iff.mp hstep
      apply h.present (List.mem_of_getElem? htoken)
      exact fun c hc => Or.inr ⟨c, onDisconnected_entries _ env _ hc, rfl, rfl⟩
  | audited message headers =>
      obtain rfl := Option.some.inj hstep
      exact ⟨h.issued, h.opened, h.entries⟩
  | posted ack now =>
      obtain rfl := Option.some.inj hstep
      exact ⟨h.issued, h.opened, h.entries⟩
  | completed correlationId now =>
      obtain rfl := Option.some.inj hstep
      exact ⟨h.issued, h.opened, h.entries⟩

end Traced

theorem createClaimsIdentity_not_rejected (toUpperInvariant : String → String)
    (userName : Option String) (utcNow : DateTime) :
    (createClaimsIdentity toUpperInvariant userName utcNow).map Decision.validated ≠
      .ok .rejected := by
  cases userName with
  | none => exact fun h => by cases h
  | some userName => exact fun h => by cases Except.ok.inj h

/-- The rejection of wrong requests fails precisely for those with one part right. -/
theorem grant_rejects_iff (toUpperInvariant : String → String)
    (context : OAuthGrantResourceOwnerCredentialsContext) (utcNow : DateTime) :
    (¬Correct context →
        grantResourceOwnerCredentials toUpperInvariant (some context) utcNow = .ok .rejected) ↔
      (context.userName = some "123" ↔ context.password = some "mypassword") := by
  have hgranted := createClaimsIdentity_not_rejected toUpperInvariant context.userName utcNow
  unfold grantResourceOwnerCredentials Correct
  by_cases hu : context.userName = some "123"
  · by_cases hp : context.password = some "mypassword"
    · simp [hu, hp]
    · rw [hu] at hgranted
      simp [hu, hp, hgranted]
  · by_cases hp : context.password = some "mypassword"
    · simp [hu, hp, hgranted]
    · simp [hu, hp]

/-- In every run, connections, replays and the registry are those of correct
requests precisely if no request has exactly one part right. -/
theorem authentication_sound_exactly_when (toUpperInvariant : String → String)
    (json : JsonSerializer Json) (events : List AuthEvent) :
    (system toUpperInvariant json).Always Authentic (system toUpperInvariant json).init events ↔
      (system toUpperInvariant json).Meets (fun _ e => NotHalfRight e)
        (system toUpperInvariant json).init events := by
  refine Machine.always_iff_meets (B := Traced) (fun s e t h hstep => h.step hstep) ?_ events
    ?_ ?_
  · intro s e t htraced hs hstep
    have hafter := htraced.step hstep
    rw [htraced.authentic_iff] at hs
    rw [hafter.authentic_iff]
    cases e with
    | requested context utcNow =>
        obtain rfl := Option.some.inj hstep
        rw [NotHalfRight, ← grant_rejects_iff toUpperInvariant context utcNow]
        constructor
        · intro h hwrong
          exact h _ (List.mem_append_right _ (List.mem_singleton.mpr rfl)) hwrong
        · intro h r hr hwrong
          rcases List.mem_append.mp hr with hold | hnew
          · exact hs r hold hwrong
          · rw [List.mem_singleton.mp hnew] at hwrong ⊢
            exact h hwrong
    | onConnected connectionId i env =>
        obtain ⟨token, -, rfl⟩ := Option.map_eq_some_iff.mp hstep
        exact ⟨fun _ => trivial, fun _ => hs⟩
    | onReconnected connectionId i env =>
        obtain ⟨token, -, rfl⟩ := Option.map_eq_some_iff.mp hstep
        exact ⟨fun _ => trivial, fun _ => hs⟩
    | onDisconnected connectionId i env =>
        obtain ⟨token, -, rfl⟩ := Option.map_eq_some_iff.mp hstep
        exact ⟨fun _ => trivial, fun _ => hs⟩
    | audited message headers =>
        obtain rfl := Option.some.inj hstep
        exact ⟨fun _ => trivial, fun _ => hs⟩
    | posted ack now =>
        obtain rfl := Option.some.inj hstep
        exact ⟨fun _ => trivial, fun _ => hs⟩
    | completed correlationId now =>
        obtain rfl := Option.some.inj hstep
        exact ⟨fun _ => trivial, fun _ => hs⟩
  · refine ⟨?_, ?_, ?_⟩
    all_goals
      intro x hx
      cases hx
  · refine Traced.authentic_iff ?_ |>.mpr ?_
    · refine ⟨?_, ?_, ?_⟩
      all_goals
        intro x hx
        cases hx
    · intro r hr
      cases hr

/-- The password alone, then a document for broker 456 and a connect. -/
def passwordAlone : List AuthEvent :=
  [.requested ⟨some "456", some "mypassword"⟩ 0,
    .audited (.insertDocumentIntoRemoteBackOfficeCommand (insertCommand 7 456)) [],
    .onConnected "conn1" 0 (Environment.calm 0)]

/-- The caller is granted a token in the name of broker 456, is registered for
that broker and receives its document. -/
theorem stranger_receives_documents :
    ∃ s, (system String.toUpper JsonSerializer.transparent).run
        (system String.toUpper JsonSerializer.transparent).init passwordAlone = some s ∧
      ¬Correct ⟨some "456", some "mypassword"⟩ ∧
      s.opened.map (fun o => (o.connectionId, o.token.request)) =
        [("conn1", ⟨some "456", some "mypassword"⟩)] ∧
      isBrokerConnected s.run.hub.brokerConnections.entries 456 = true ∧
      s.run.hub.replayed = [⟨"456", 1, insertCommand 7 456⟩] ∧ ¬Authentic s := by
  have hrun : ((system String.toUpper JsonSerializer.transparent).run
      (system String.toUpper JsonSerializer.transparent).init passwordAlone).map
        (fun s => (s.opened.map (fun o => (o.connectionId, o.token.request)),
          isBrokerConnected s.run.hub.brokerConnections.entries 456, s.run.hub.replayed)) =
      some ([("conn1", ⟨some "456", some "mypassword"⟩)], true,
        [⟨"456", 1, insertCommand 7 456⟩]) := by decide +kernel
  obtain ⟨s, hs, hfinal⟩ := Option.map_eq_some_iff.mp hrun
  simp only [Prod.mk.injEq] at hfinal
  obtain ⟨hopened, hconnected, hreplayed⟩ := hfinal
  have hwrong : ¬Correct ⟨some "456", some "mypassword"⟩ := by
    unfold Correct
    decide
  refine ⟨s, hs, hwrong, hopened, hconnected, hreplayed, fun h => ?_⟩
  obtain ⟨o, ho, -, hcorrect, -⟩ := h.counted 456 hconnected
  have hmem : (o.connectionId, o.token.request) ∈
      s.opened.map fun o => (o.connectionId, o.token.request) := List.mem_map_of_mem ho
  rw [hopened, List.mem_singleton, Prod.mk.injEq] at hmem
  exact hwrong (hmem.2 ▸ hcorrect)

end ReliableSignalR.AuthorizationProvider
