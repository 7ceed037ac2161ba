import ReliableSignalR.RemoteStations

/-!
# The places of an agreement

A submitted agreement waits in a queue, has failed in one, is at a station of the
remote path or is completed. `agreementsAt` lists the agreements of each place by
the correlation ids of what the place holds: the messages of a queue or an error
queue, the rows of the log. `stage` says where one agreement is. `Follows` is the
life cycle on the places and the edge relation of an abstract board. An agreement
whose command is in an error queue of the remote path is completed all the same if
a copy that was pushed before is inserted and acknowledged.

A step of the endpoints changes nothing, brings a new agreement or moves one
agreement along the life cycle. This is `Moved`, and it is all that keeping
every agreement in one place needs to know of a step.
-/
namespace ReliableSignalR.AgreementPlaces
open DotNet EventRuns Messages TokenBoard AgreementSaga AgreementDelivery RemoteStations

variable {Json : Type}

inductive Place
  | waiting (queue : Queue)
  | failed (queue : Queue)
  | remote (station : Station)
  | completed
deriving DecidableEq, Repr

namespace Place

def all : List Place :=
  [.waiting .submitAgreement, .waiting .downloadDocument, .waiting .documentDownloaded,
    .waiting .insertOnline, .waiting .onlineInserted, .failed .submitAgreement,
    .failed .downloadDocument, .failed .documentDownloaded, .failed .insertOnline,
    .failed .onlineInserted, .remote .hub, .remote .hubError, .remote .audit,
    .remote .auditError, .remote .messageLog, .completed]

theorem mem_all (p : Place) : p ∈ all := by
  cases p with
  | waiting queue => cases queue <;> simp [all]
  | failed queue => cases queue <;> simp [all]
  | remote station => cases station <;> simp [all]
  | completed => simp [all]

/-- The places between the handling of a submission and a completion. -/
def hasSaga : Place → Bool
  | .waiting .submitAgreement | .failed .submitAgreement | .completed => false
  | _ => true

/-- The steps of the life cycle. -/
def follows : Place → Place → Bool
  | .waiting .submitAgreement, .waiting .downloadDocument => true
  | .waiting .downloadDocument, .waiting .documentDownloaded => true
  | .waiting .documentDownloaded, .waiting .insertOnline => true
  | .waiting .documentDownloaded, .remote .hub => true
  | .waiting .insertOnline, .waiting .onlineInserted => true
  | .waiting .onlineInserted, .completed => true
  | .remote station, .remote station' => station.follows station'
  | .remote _, .completed => true
  | .waiting queue, .failed queue' => queue = queue'
  | _, _ => false

def rank : Place → ℕ
  | .waiting .submitAgreement => 0
  | .waiting .downloadDocument => 1
  | .waiting .documentDownloaded => 2
  | .waiting .insertOnline => 3
  | .waiting .onlineInserted => 4
  | .remote .hub => 3
  | .remote .audit => 4
  | .remote .hubError | .remote .auditError | .remote .messageLog => 5
  | .completed => 6
  | .failed _ => 6

end Place

def Follows (p q : Place) : Prop := p.follows q = true

instance : DecidableRel Follows := fun p q => inferInstanceAs (Decidable (p.follows q = true))

/-- Each step of the life cycle raises the rank. -/
theorem rank_lt {p q : Place} (h : Follows p q) : p.rank < q.rank := by
  have hall : (Place.all.all fun p => Place.all.all fun q =>
      !p.follows q || decide (p.rank < q.rank)) = true := by decide
  have hp := List.all_eq_true.mp hall p (Place.mem_all p)
  have hq := List.all_eq_true.mp hp q (Place.mem_all q)
  rw [Bool.or_eq_true, Bool.not_eq_true', decide_eq_true_eq] at hq
  exact hq.resolve_left fun hfalse => by
    rw [Follows, hfalse] at h
    cases h

theorem Follows.ne {p q : Place} (h : Follows p q) : p ≠ q := by
  rintro rfl
  exact Nat.lt_irrefl _ (rank_lt h)

section Places
variable (s : Delivery Json)

/-- The correlation ids at each place. -/
def agreementsAt : Place → List Guid
  | .waiting .submitAgreement => s.submitQueue.map fun m => m.correlationId
  | .waiting .downloadDocument => s.downloadQueue.map fun m => m.correlationId
  | .waiting .documentDownloaded => s.downloadedQueue.map fun m => m.correlationId
  | .waiting .insertOnline => s.onlineQueue.map fun m => m.correlationId
  | .waiting .onlineInserted => s.insertedQueue.map fun m => m.correlationId
  | .failed queue =>
      (s.errors.filter fun m => m.queue = queue).map fun m => m.message.correlationId
  | .remote station => openCommandsAt s.path station
  | .completed => s.path.completedSagas ++ s.completedOnline

/-- Where each agreement is. -/
def stage : Board Guid Place := Represents.locate Place.all (agreementsAt s)

end Places

/-- Every submitted agreement is at one place, and there its saga runs or not. -/
structure InOnePlace (s : Delivery Json) : Prop where
  places : Represents (agreementsAt s) (stage s)
  submitted : ∀ c, c ∈ (s.agreements.submitted.map fun a => a.correlationId) ↔
    (stage s c).isSome
  saga : ∀ c, (s.agreements.sagas c).isSome = (stage s c).any Place.hasSaga

/-- Whether the saga of an agreement runs is a matter of the agreement's place. -/
theorem InOnePlace.running {s : Delivery Json} (hs : InOnePlace s) {p : Place} {c : Guid}
    (hc : c ∈ agreementsAt s p) : (s.agreements.sagas c).isSome = p.hasSaga := by
  rw [hs.saga, (hs.places.mem p c).mp hc]
  rfl

theorem InOnePlace.not_completed {s : Delivery Json} (hs : InOnePlace s) {p : Place} {c : Guid}
    (hp : p ≠ .completed) (hc : c ∈ agreementsAt s p) : c ∉ s.path.completedSagas := by
  intro hcompleted
  have hplace := (hs.places.mem p c).mp hc
  have hplace' := (hs.places.mem .completed c).mp (List.mem_append_left _ hcompleted)
  exact hp (Option.some.inj (hplace.symm.trans hplace'))

/-- What a step does to the places: nothing, a submission, or one agreement's step
of the life cycle. -/
inductive Moved (s t : Delivery Json) : List (BoardEvent Guid Place) → Prop
  | stayed (places : ∀ p, (agreementsAt t p).Perm (agreementsAt s p))
      (submitted : t.agreements.submitted = s.agreements.submitted)
      (saga : ∀ c, (t.agreements.sagas c).isSome = (s.agreements.sagas c).isSome) :
      Moved s t []
  | minted (command : SubmitAgreementCommand)
      (unborn : stage s command.correlationId = none)
      (start : (agreementsAt t (.waiting .submitAgreement)).Perm
        (command.correlationId :: agreementsAt s (.waiting .submitAgreement)))
      (rest : ∀ p, p ≠ .waiting .submitAgreement →
        (agreementsAt t p).Perm (agreementsAt s p))
      (submitted : t.agreements.submitted = s.agreements.submitted ++ [command])
      (saga : t.agreements.sagas = s.agreements.sagas) :
      Moved s t [.minted command.correlationId]
  | moved (c : Guid) (p q : Place) (follows : Follows p q)
      (transfer : Transfer (agreementsAt s) (agreementsAt t) c p q)
      (submitted : t.agreements.submitted = s.agreements.submitted)
      (saga : (t.agreements.sagas c).isSome = q.hasSaga)
      (others : ∀ c' ≠ c, t.agreements.sagas c' = s.agreements.sagas c') :
      Moved s t [.moved c q]

abbrev lifeCycle : Machine (Board Guid Place) (BoardEvent Guid Place) :=
  board (.waiting .submitAgreement) Follows

section Moved
variable {s t : Delivery Json} {events : List (BoardEvent Guid Place)}

/-- The board moves with the places, and the agreements stay in one place each. -/
theorem InOnePlace.step (hs : InOnePlace s) (hmoved : Moved s t events) :
    InOnePlace t ∧ lifeCycle.run (stage s) events = some (stage t) := by
  cases hmoved with
  | stayed hplaces hsubmitted hsaga =>
      have hrep : Represents (agreementsAt t) (stage s) := hs.places.perm hplaces
      have hstage : stage t = stage s := hrep.locate_eq Place.mem_all
      refine ⟨⟨hstage ▸ hrep, ?_, ?_⟩, by rw [hstage]; rfl⟩
      · rw [hsubmitted, hstage]
        exact hs.submitted
      · intro c
        rw [hsaga, hstage]
        exact hs.saga c
  | minted command hnone hstart hrest hsubmitted hsaga =>
      have hrep := hs.places.mint hnone hstart hrest
      have hstage := hrep.locate_eq Place.mem_all
      change stage t = _ at hstage
      refine ⟨⟨hstage ▸ hrep, ?_, ?_⟩, ?_⟩
      · intro c
        rw [hsubmitted, hstage, List.map_append, List.mem_append, hs.submitted]
        by_cases hc : c = command.correlationId
        · subst hc
          simp
        · simp [hc]
      · intro c
        rw [hsaga, hs.saga, hstage]
        by_cases hc : c = command.correlationId
        · subst hc
          rw [hnone, Function.update_self]
          rfl
        · rw [Function.update_of_ne hc]
      · have hstep : lifeCycle.step (stage s) (.minted command.correlationId) = some (stage t) := by
          rw [hstage]
          exact step_minted hnone
        simp only [Machine.run_cons, Machine.run_nil, hstep, Option.bind_some]
  | moved c p q hfollows htransfer hsubmitted hsaga hothers =>
      obtain ⟨hplace, hrep⟩ := hs.places.move hfollows.ne htransfer
      have hstage := hrep.locate_eq Place.mem_all
      change stage t = _ at hstage
      refine ⟨⟨hstage ▸ hrep, ?_, ?_⟩, ?_⟩
      · intro c'
        rw [hsubmitted, hstage, hs.submitted]
        by_cases hc : c' = c
        · subst hc
          simp [hplace]
        · rw [Function.update_of_ne hc]
      · intro c'
        rw [hstage]
        by_cases hc : c' = c
        · subst hc
          rw [Function.update_self, hsaga]
          rfl
        · rw [Function.update_of_ne hc, hothers c' hc]
          exact hs.saga c'
      · have hstep : lifeCycle.step (stage s) (.moved c q) = some (stage t) := by
          rw [hstage]
          exact step_moved hplace hfollows
        simp only [Machine.run_cons, Machine.run_nil, hstep, Option.bind_some]

end Moved

end ReliableSignalR.AgreementPlaces
