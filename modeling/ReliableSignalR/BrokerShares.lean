import ReliableSignalR.UserKeys

/-!
# The share of one broker in the registry and the message log

A broker's connections and rows are those with its broker id. A callback writes
under the id of its own broker, removes its own connection, and counts on the
broker's first row, so the shares of the others stay as they are. What it does
to its own share depends on nothing outside of it, except for the keys that
the log draws.

`users` gives the user of each connection id, which the connection keeps.
-/
namespace ReliableSignalR.BrokerShares
open DotNet Messages KeyedTable RetainedEffects IdentityInfrastructure
open BrokerConnectionManager AuditEndpoint BackOfficeHub UserKeys
open AuthorizationProvider (registryFrame_entries onDisconnected_entries)

variable {Json : Type}

def connectionsOf (entries : List BrokerConnection) (brokerId : ℤ) : List BrokerConnection :=
  entries.filter fun c => c.brokerId == brokerId

def rowsOf (log : AuditTable Json) (brokerId : ℤ) : List (MessageLog Json) :=
  log.rows.filter fun m => m.brokerId == brokerId

section Connections
variable {entries : List BrokerConnection} {connectionId : String} {a b : ℤ}

theorem mem_connectionsOf {c : BrokerConnection} :
    c ∈ connectionsOf entries b ↔ c ∈ entries ∧ c.brokerId = b := by
  simp [connectionsOf]

theorem connectionsOf_append (cs ds : List BrokerConnection) :
    connectionsOf (cs ++ ds) b = connectionsOf cs b ++ connectionsOf ds b :=
  List.filter_append cs ds

theorem connectionsOf_expire :
    connectionsOf (expireSuperceededConnections entries a) b =
      if a = b then expireSuperceededConnections (connectionsOf entries b) a
      else connectionsOf entries b := by
  have hfilter : connectionsOf (expireSuperceededConnections entries a) b =
      expireSuperceededConnections (connectionsOf entries b) a := by
    rw [connectionsOf, expireSuperceededConnections, List.filter_map]
    congr 1
    apply List.filter_congr
    intro c _
    simp only [Function.comp_apply]
    split
    · rfl
    · rfl
  rw [hfilter]
  split
  · rfl
  · next hne =>
    rw [expireSuperceededConnections]
    refine (List.map_congr_left fun c hc => ?_).trans (List.map_id _)
    have hc := (mem_connectionsOf.mp hc).2
    rw [if_neg (fun h => hne (h.symm.trans hc))]
    rfl

theorem connectionsOf_add_other (hne : a ≠ b) (tokenExpiresOn : DateTime) :
    connectionsOf (addConnection entries connectionId a tokenExpiresOn) b =
      connectionsOf entries b := by
  unfold addConnection
  split
  · rfl
  · have hnew : connectionsOf [(⟨connectionId, a, tokenExpiresOn, false⟩ : BrokerConnection)] b =
        [] := by
      simp [connectionsOf, hne]
    rw [connectionsOf_append, hnew, connectionsOf_expire, if_neg hne, List.append_nil]

/-- A broker's share after an addition is the addition to its share. -/
theorem connectionsOf_add (howner : ∀ c ∈ entries, c.connectionId = connectionId → c.brokerId = b)
    (tokenExpiresOn : DateTime) :
    connectionsOf (addConnection entries connectionId b tokenExpiresOn) b =
      addConnection (connectionsOf entries b) connectionId b tokenExpiresOn := by
  have hany : ((connectionsOf entries b).any fun c => c.connectionId == connectionId) =
      entries.any fun c => c.connectionId == connectionId := by
    rw [Bool.eq_iff_iff]
    simp only [List.any_eq_true, mem_connectionsOf, beq_iff_eq]
    constructor
    · intro ⟨c, hc, hid⟩
      exact ⟨c, hc.1, hid⟩
    · intro ⟨c, hc, hid⟩
      exact ⟨c, ⟨hc, howner c hc hid⟩, hid⟩
  unfold addConnection
  rw [hany]
  split
  · rfl
  · have hnew : connectionsOf [(⟨connectionId, b, tokenExpiresOn, false⟩ : BrokerConnection)] b =
        [⟨connectionId, b, tokenExpiresOn, false⟩] := by
      simp [connectionsOf]
    rw [connectionsOf_append, hnew, connectionsOf_expire, if_pos rfl]

theorem removeConnection_eq_filter (h : Unique entries) :
    removeConnection entries connectionId =
      entries.filter fun c => c.connectionId != connectionId := by
  rw [removeConnection_eq_eraseP]
  induction entries with
  | nil => rfl
  | cons c cs ih =>
      obtain ⟨hc, hcs⟩ := List.nodup_cons.mp h
      by_cases heq : c.connectionId = connectionId
      · rw [List.eraseP_cons_of_pos (by simpa using heq),
          List.filter_cons_of_neg (by simpa using heq)]
        refine (List.filter_eq_self.mpr fun d hd => ?_).symm
        have hne : d.connectionId ≠ connectionId := by
          intro hid
          apply hc
          rw [heq, ← hid]
          exact List.mem_map_of_mem hd
        simpa using hne
      · rw [List.eraseP_cons_of_neg (by simpa using heq),
          List.filter_cons_of_pos (by simpa using heq), ih hcs]

theorem connectionsOf_remove (r : BrokerConnections) (connectionId : String) (b : ℤ) :
    connectionsOf (r.removeConnection connectionId).entries b =
      (connectionsOf r.entries b).filter fun c => c.connectionId != connectionId := by
  have heq : (r.removeConnection connectionId).entries =
      r.entries.filter fun c => c.connectionId != connectionId :=
    removeConnection_eq_filter r.unique
  rw [heq, connectionsOf, connectionsOf, List.filter_filter, List.filter_filter]
  simp only [Bool.and_comm]

theorem connectionsOf_remove_other {r : BrokerConnections}
    (howner : ∀ c ∈ r.entries, c.connectionId = connectionId → c.brokerId ≠ b) :
    connectionsOf (r.removeConnection connectionId).entries b = connectionsOf r.entries b := by
  rw [connectionsOf_remove]
  apply List.filter_eq_self.mpr
  intro c hc
  obtain ⟨hc, hbroker⟩ := mem_connectionsOf.mp hc
  have hne : c.connectionId ≠ connectionId := fun hid => howner c hc hid hbroker
  simpa using hne

end Connections

section Rows
variable {log : AuditTable Json} {a b : ℤ}

theorem mem_rowsOf {m : MessageLog Json} : m ∈ rowsOf log b ↔ m ∈ log.rows ∧ m.brokerId = b := by
  simp [rowsOf]

theorem rowsOf_update {f : MessageLog Json → MessageLog Json} (hkey : ∀ m, (f m).id = m.id)
    (hbroker : ∀ m, (f m).brokerId = m.brokerId) :
    rowsOf (log.update f hkey) b = (rowsOf log b).map f := by
  rw [rowsOf, Table.rows_update, List.filter_map]
  congr 1
  apply List.filter_congr
  intro m _
  simp only [Function.comp_apply, hbroker]

theorem rowsOf_audited (json : JsonSerializer Json) (message : StandardAuditMessage)
    (headers : Headers) :
    rowsOf (handleStandardAuditMessage json log message headers) b =
      rowsOf log b ++ [create json message headers log.next].filter fun m => m.brokerId == b := by
  rw [rowsOf, handleStandardAuditMessage, Table.rows_insert, List.filter_append]
  rfl

theorem rowsOf_complete (correlationId : Guid) (now : DateTime) :
    rowsOf (completeCorrelatedMessages log correlationId now) b =
      (rowsOf log b).map (complete correlationId now) :=
  rowsOf_update _ fun m => (complete_sameRecord correlationId now m).brokerId

theorem rowsOf_addRetries (id k : ℕ) :
    rowsOf (addRetries log id k) b =
      (rowsOf log b).map fun m => if m.id = id then { m with retries := m.retries + k } else m := by
  apply rowsOf_update
  intro m
  split <;> rfl

/-- Counting on the first row of one broker leaves the rows of another. -/
theorem rowsOf_countFirst_other (hne : a ≠ b) (k : ℕ) :
    rowsOf (countFirst log a k) b = rowsOf log b := by
  unfold countFirst
  cases hfirst : log.first? fun m => m.brokerId == a with
  | none => rfl
  | some first =>
      obtain ⟨hrow, hbroker⟩ := Table.mem_of_first? hfirst
      rw [rowsOf_addRetries]
      refine (List.map_congr_left fun m hm => ?_).trans (List.map_id _)
      obtain ⟨hm, hmb⟩ := mem_rowsOf.mp hm
      rw [if_neg]
      · rfl
      · intro hid
        have heq := Table.eq_of_key_eq hm hrow hid
        rw [heq] at hmb
        exact hne ((beq_iff_eq.mp hbroker).symm.trans hmb)

theorem first?_eq_head? :
    (log.first? fun m => m.brokerId == b) = (rowsOf log b).head? :=
  (List.head?_filter).symm

theorem unacknowledged_eq (now : DateTime) :
    unacknowledged log b now =
      (rowsOf log b).filter (isUnacknowledged b (DateTime.addDays (DateTime.today now) 1)) := by
  rw [rowsOf, List.filter_filter, unacknowledged]
  apply List.filter_congr
  intro m _
  unfold isUnacknowledged
  cases hbroker : m.brokerId == b with
  | true => simp
  | false => simp

/-- A completion leaves a broker's rows as they are exactly if those it concerns
have been completed at that instant. -/
theorem rowsOf_complete_eq_iff (correlationId : Guid) (now : DateTime) :
    rowsOf (completeCorrelatedMessages log correlationId now) b = rowsOf log b ↔
      ∀ m ∈ log.rows, m.brokerId = b → m.correlationId = correlationId →
        m.completionDate = some now := by
  have hself : (rowsOf log b).map (complete correlationId now) = rowsOf log b ↔
      ∀ m ∈ rowsOf log b, complete correlationId now m = m :=
    ⟨fun h => List.map_inj_left.mp (h.trans (List.map_id _).symm),
      fun h => (List.map_inj_left.mpr h).trans (List.map_id _)⟩
  rw [rowsOf_complete, hself]
  constructor
  · intro hfixed m hm hbroker hcorrelation
    have hm := hfixed m (mem_rowsOf.mpr ⟨hm, hbroker⟩)
    rw [complete, if_pos hcorrelation] at hm
    rw [← hm]
  · intro h m hm
    obtain ⟨hm, hbroker⟩ := mem_rowsOf.mp hm
    unfold complete
    split
    · next hcorrelation => rw [← h m hm hbroker hcorrelation]
    · rfl

end Rows

/-- Connections are registered under the broker id of their users, and the rows
of the log were made from messages. -/
structure Sound (users : String → ClaimsPrincipal) (json : JsonSerializer Json)
    (s : HubState Json) : Prop where
  owned : ∀ c ∈ s.brokerConnections.entries, (users c.connectionId).brokerId = .ok c.brokerId
  stored : AllStored json s.messageLog

/-- The broker has the same connections and rows, and the next row gets the same key. -/
structure SameShare (b : ℤ) (s t : HubState Json) : Prop where
  connections : connectionsOf s.brokerConnections.entries b =
    connectionsOf t.brokerConnections.entries b
  rows : rowsOf s.messageLog b = rowsOf t.messageLog b
  next : s.messageLog.next = t.messageLog.next

theorem SameShare.refl (b : ℤ) (s : HubState Json) : SameShare b s s := ⟨rfl, rfl, rfl⟩

theorem SameShare.symm {b : ℤ} {s t : HubState Json} (h : SameShare b s t) : SameShare b t s :=
  ⟨h.connections.symm, h.rows.symm, h.next.symm⟩

theorem SameShare.trans {b : ℤ} {s t u : HubState Json} (h : SameShare b s t)
    (k : SameShare b t u) : SameShare b s u :=
  ⟨h.connections.trans k.connections, h.rows.trans k.rows, h.next.trans k.next⟩

section Callbacks
variable {users : String → ClaimsPrincipal} {json : JsonSerializer Json} {b : ℤ}
  {context : HubCallerContext} {env : Environment} {s t : HubState Json}

theorem Sound.initial : Sound users json HubState.initial := ⟨nofun, AllStored.empty json⟩

theorem Sound.owner (h : Sound users json s) (huser : context.user = users context.connectionId)
    {c : BrokerConnection} (hc : c ∈ s.brokerConnections.entries)
    (hid : c.connectionId = context.connectionId) : context.user.brokerId = .ok c.brokerId := by
  rw [huser, ← hid]
  exact h.owned c hc

theorem Sound.registry (h : Sound users json s) (huser : context.user = users context.connectionId)
    (hframe : (registryFrame context).rel s t) :
    ∀ c ∈ t.brokerConnections.entries, (users c.connectionId).brokerId = .ok c.brokerId := by
  intro c hc
  rcases registryFrame_entries hframe hc with ⟨hid, hbroker⟩ | ⟨d, hd, hid, hbroker⟩
  · rw [hid, ← huser]
    exact hbroker
  · rw [← hid, ← hbroker]
    exact h.owned d hd

theorem Sound.onConnected (h : Sound users json s)
    (huser : context.user = users context.connectionId) :
    Sound users json (exec (onConnected json context env) s).2 :=
  ⟨h.registry huser (onConnected_registry json context env s),
    (onConnected_replayed json context env s).1.allStored h.stored⟩

theorem Sound.onReconnected (h : Sound users json s)
    (huser : context.user = users context.connectionId) :
    Sound users json (exec (onReconnected context env) s).2 := by
  refine ⟨h.registry huser (onReconnected_registry context env s), ?_⟩
  rw [(onReconnected_log context env s).1]
  exact h.stored

theorem Sound.onDisconnected (h : Sound users json s) :
    Sound users json (exec (onDisconnected context env) s).2 := by
  refine ⟨fun c hc => h.owned c (onDisconnected_entries context env s hc), ?_⟩
  rw [(onDisconnected_log context env s).1]
  exact h.stored

/-- A registration of another broker's user. -/
theorem connectionsOf_registered (hother : context.user.brokerId ≠ .ok b)
    (hframe : (registryFrame context).rel s t) :
    connectionsOf t.brokerConnections.entries b = connectionsOf s.brokerConnections.entries b := by
  rcases hframe with heq | ⟨brokerId, tokenExpiresOn, hbroker, -, heq⟩
  · rw [heq]
  · have hne : brokerId ≠ b := by
      rintro rfl
      exact hother hbroker
    rw [heq]
    exact connectionsOf_add_other hne tokenExpiresOn

theorem onConnected_other (h : Sound users json s) (hother : context.user.brokerId ≠ .ok b) :
    SameShare b (exec (onConnected json context env) s).2 s := by
  refine ⟨connectionsOf_registered hother (onConnected_registry json context env s), ?_,
    (onConnected_replayed json context env s).1.1⟩
  cases onConnected_effect context env h.stored with
  | unreached hlog _ => rw [hlog]
  | replayed brokerId read j k hbroker hread hkj hj hreplayed hlog =>
      have hne : brokerId ≠ b := by
        rintro rfl
        exact hother hbroker
      rw [hlog, rowsOf_countFirst_other hne]

theorem onReconnected_other (hother : context.user.brokerId ≠ .ok b) :
    SameShare b (exec (onReconnected context env) s).2 s := by
  have hlog := (onReconnected_log context env s).1
  exact ⟨connectionsOf_registered hother (onReconnected_registry context env s), by rw [hlog],
    by rw [hlog]⟩

theorem onDisconnected_other (h : Sound users json s)
    (huser : context.user = users context.connectionId)
    (hother : context.user.brokerId ≠ .ok b) :
    SameShare b (exec (onDisconnected context env) s).2 s := by
  have hlog := (onDisconnected_log context env s).1
  refine ⟨?_, by rw [hlog], by rw [hlog]⟩
  rw [onDisconnected_registry]
  split
  · apply connectionsOf_remove_other
    intro c hc hid hbroker
    apply hother
    rw [h.owner huser hc hid, hbroker]
  · rfl

/-- Two sound states with the same share. -/
structure Twins (users : String → ClaimsPrincipal) (json : JsonSerializer Json) (b : ℤ)
    (s t : HubState Json) : Prop where
  left : Sound users json s
  right : Sound users json t
  share : SameShare b s t

theorem twins_addConnection (huser : context.user = users context.connectionId)
    (hbroker : context.user.brokerId = .ok b) (tokenExpiresOn : DateTime)
    (h : Twins users json b s t) :
    Twins users json b
      { s with brokerConnections :=
          s.brokerConnections.addConnection context.connectionId b tokenExpiresOn }
      { t with brokerConnections :=
          t.brokerConnections.addConnection context.connectionId b tokenExpiresOn } := by
  have hsound : ∀ {r : HubState Json}, Sound users json r → Sound users json
      { r with brokerConnections :=
          r.brokerConnections.addConnection context.connectionId b tokenExpiresOn } := by
    intro r hr
    refine ⟨fun c hc => ?_, hr.stored⟩
    rcases BrokerConnections.mem_addConnection_cases hc with ⟨hid, hb⟩ | ⟨d, hd, hid, hb⟩
    · rw [hid, hb, ← huser]
      exact hbroker
    · rw [← hid, ← hb]
      exact hr.owned d hd
  have hadd : ∀ {r : HubState Json}, Sound users json r →
      connectionsOf (r.brokerConnections.addConnection context.connectionId b
        tokenExpiresOn).entries b = addConnection (connectionsOf r.brokerConnections.entries b)
          context.connectionId b tokenExpiresOn := by
    intro r hr
    refine connectionsOf_add (fun c hc hid => ?_) tokenExpiresOn
    have howner := hr.owner huser hc hid
    rw [hbroker] at howner
    exact (Except.ok.inj howner).symm
  refine ⟨hsound h.left, hsound h.right, ?_, h.share.rows, h.share.next⟩
  simp only [hadd h.left, hadd h.right, h.share.connections]

theorem twins_addRetries (id : ℕ) (h : Twins users json b s t) :
    Twins users json b { s with messageLog := addRetries s.messageLog id 1 }
      { t with messageLog := addRetries t.messageLog id 1 } := by
  have hsound : ∀ {r : HubState Json}, Sound users json r →
      Sound users json { r with messageLog := addRetries r.messageLog id 1 } := fun hr =>
    ⟨hr.owned, (addRetries_onlyRetries _ id 1).allStored hr.stored⟩
  refine ⟨hsound h.left, hsound h.right, h.share.connections, ?_, h.share.next⟩
  simp only [rowsOf_addRetries, h.share.rows]

/-- The events published and the commands replayed belong to no share. -/
theorem Twins.congr (h : Twins users json b s t) {s' t' : HubState Json}
    (hs : s'.brokerConnections = s.brokerConnections) (hslog : s'.messageLog = s.messageLog)
    (ht : t'.brokerConnections = t.brokerConnections) (htlog : t'.messageLog = t.messageLog) :
    Twins users json b s' t' where
  left := ⟨by rw [hs]; exact h.left.owned, by rw [hslog]; exact h.left.stored⟩
  right := ⟨by rw [ht]; exact h.right.owned, by rw [htlog]; exact h.right.stored⟩
  share := ⟨by rw [hs, ht, h.share.connections], by rw [hslog, htlog, h.share.rows],
    by rw [hslog, htlog, h.share.next]⟩

theorem addBrokerToConnections_respects (huser : context.user = users context.connectionId)
    (hbroker : context.user.brokerId = .ok b) :
    Respects (Twins users json b) (addBrokerToConnections context) := by
  intro s t h
  refine respectsAt_bind (respects_call _ s t h) fun brokerId u v hu _ huv => ?_
  have hparsed : context.user.brokerId = .ok brokerId := congrArg Prod.fst hu
  obtain rfl : brokerId = b := Except.ok.inj (hparsed.symm.trans hbroker)
  refine respectsAt_bind (respects_call _ u v huv) fun tokenExpiresOn u v _ _ huv => ?_
  exact respects_modify (fun _ _ h => twins_addConnection huser hbroker tokenExpiresOn h) u v huv

theorem register_respects (huser : context.user = users context.connectionId)
    (hbroker : context.user.brokerId = .ok b) (connectionEventType : String) :
    Respects (Twins users json b) (register context env connectionEventType) := by
  refine respects_bind ?_ fun event => respects_bind ?_ fun _ =>
    addBrokerToConnections_respects huser hbroker
  · exact respects_bind (respects_call _) fun _ => respects_pure _
  · exact respects_bind (respects_call _) fun _ =>
      respects_modify fun _ _ h => h.congr rfl rfl rfl rfl

theorem updateMessageRetries_respects (i : ℕ) :
    Respects (Twins users json b) (updateMessageRetries env i b) := by
  refine respects_bind (respects_call _) fun _ s t h => ?_
  have hfirst : (s.messageLog.first? fun a => a.brokerId == b) =
      t.messageLog.first? fun a => a.brokerId == b := by
    rw [first?_eq_head?, first?_eq_head?, h.share.rows]
  unfold RespectsAt
  simp only [exec_bind, exec_get, hfirst]
  cases t.messageLog.first? fun a => a.brokerId == b with
  | none => exact ⟨rfl, h⟩
  | some messageToUpdate => exact ⟨rfl, twins_addRetries messageToUpdate.id h⟩

theorem getUnacknowledgedMessages_respects (hbroker : context.user.brokerId = .ok b) :
    Respects (Twins users json b) (getUnacknowledgedMessages json context env) := by
  intro s t h
  refine respectsAt_bind (respects_call _ s t h) fun brokerId u v hu _ huv => ?_
  have hparsed : context.user.brokerId = .ok brokerId := congrArg Prod.fst hu
  obtain rfl : brokerId = b := Except.ok.inj (hparsed.symm.trans hbroker)
  refine respectsAt_bind (respects_call _ u v huv) fun _ u v _ _ huv => ?_
  refine respects_read (fun u v h => ?_) (fun result => respects_call result) u v huv
  rw [unacknowledged_eq, unacknowledged_eq, h.share.rows]

/-- The replay of a broker reads its own rows and counts on one of them. -/
theorem replay_respects (hbroker : context.user.brokerId = .ok b) :
    Respects (Twins users json b) (replayUnacknowledgedMessagesSynchronously json context env) := by
  intro s t h
  refine respectsAt_bind (getUnacknowledgedMessages_respects hbroker s t h)
    fun read u v hu _ huv => ?_
  obtain ⟨-, brokerId, hparsed, hread⟩ := getUnacknowledgedMessages_ok hu
  obtain rfl : brokerId = b := Except.ok.inj (hparsed.symm.trans hbroker)
  refine respects_forEach (fun i m hm => ?_) 0 u v huv
  rw [read_brokerId h.left.stored hread m hm]
  refine respects_bind ?_ fun _ => updateMessageRetries_respects i
  exact respects_bind (respects_call _) fun _ => respects_bind (respects_call _) fun _ =>
    respects_modify fun _ _ h => h.congr rfl rfl rfl rfl

/-- A callback of any user leads from twins to twins. -/
theorem Twins.onConnected (h : Twins users json b s t)
    (huser : context.user = users context.connectionId) :
    Twins users json b (exec (onConnected json context env) s).2
      (exec (onConnected json context env) t).2 := by
  by_cases hbroker : context.user.brokerId = .ok b
  · have hrespects :
        Respects (Twins users json b) (BackOfficeHub.onConnected json context env) := by
      rw [onConnected_eq]
      exact respects_bind (register_respects huser hbroker "Connected")
        fun _ => replay_respects hbroker
    exact (hrespects s t h).2
  · refine ⟨h.left.onConnected huser, h.right.onConnected huser, ?_⟩
    exact (onConnected_other h.left hbroker).trans
      (h.share.trans (onConnected_other h.right hbroker).symm)

theorem Twins.onReconnected (h : Twins users json b s t)
    (huser : context.user = users context.connectionId) :
    Twins users json b (exec (onReconnected context env) s).2
      (exec (onReconnected context env) t).2 := by
  by_cases hbroker : context.user.brokerId = .ok b
  · exact (register_respects huser hbroker "Reconnected" s t h).2
  · refine ⟨h.left.onReconnected huser, h.right.onReconnected huser, ?_⟩
    exact (onReconnected_other hbroker).trans
      (h.share.trans (onReconnected_other hbroker).symm)

theorem Twins.onDisconnected (h : Twins users json b s t) :
    Twins users json b (exec (onDisconnected context env) s).2
      (exec (onDisconnected context env) t).2 := by
  refine ⟨h.left.onDisconnected, h.right.onDisconnected, ?_, ?_, ?_⟩
  · rw [onDisconnected_registry, onDisconnected_registry]
    split
    · rw [connectionsOf_remove, connectionsOf_remove, h.share.connections]
    · exact h.share.connections
  · rw [(onDisconnected_log context env s).1, (onDisconnected_log context env t).1]
    exact h.share.rows
  · rw [(onDisconnected_log context env s).1, (onDisconnected_log context env t).1]
    exact h.share.next

theorem Twins.audited (h : Twins users json b s t) (message : StandardAuditMessage)
    (headers : Headers) :
    Twins users json b
      { s with messageLog := handleStandardAuditMessage json s.messageLog message headers }
      { t with messageLog := handleStandardAuditMessage json t.messageLog message headers } := by
  refine ⟨⟨h.left.owned, h.left.stored.insert message headers⟩,
    ⟨h.right.owned, h.right.stored.insert message headers⟩, h.share.connections, ?_, ?_⟩
  · simp only [rowsOf_audited, h.share.rows, h.share.next]
  · exact congrArg (· + 1) h.share.next

theorem Twins.complete (h : Twins users json b s t) (correlationId : Guid) (now : DateTime) :
    Twins users json b
      { s with messageLog := completeCorrelatedMessages s.messageLog correlationId now }
      { t with messageLog := completeCorrelatedMessages t.messageLog correlationId now } := by
  refine ⟨⟨h.left.owned, h.left.stored.complete correlationId now⟩,
    ⟨h.right.owned, h.right.stored.complete correlationId now⟩, h.share.connections, ?_,
    h.share.next⟩
  simp only [rowsOf_complete, h.share.rows]

end Callbacks

end ReliableSignalR.BrokerShares
