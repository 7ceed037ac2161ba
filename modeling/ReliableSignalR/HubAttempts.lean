import Mathlib.Algebra.Ring.Nat
import ReliableSignalR.HubEndpoint

/-!
# The attempts of the Hub handler at one command

The handler asks the registry, pushes the command and asks the registry again.
Each question takes the lock for itself, so callbacks of the hub may add and
remove connections between any two statements. A statement that throws ends the
attempt, and the endpoint runs the handler again for the same command.

The push cannot be taken back. An attempt that fails has pushed nothing exactly
if the second question is asked of a registry that still holds an active
connection of the broker.
-/
namespace ReliableSignalR.HubAttempts
open DotNet Messages EventRuns BrokerConnectionManager HubEndpoint
open HubRuns (insertCommand)

/-- `running` is the statement that the attempt has passed and the number of its
pushes, `failed` has the number of pushes of each attempt that has thrown, and
`returned` that of the attempt that has returned. -/
structure Attempts where
  registry : BrokerConnections
  running : Option (Passed × ℕ)
  failed : List ℕ
  returned : Option ℕ

/-- A call of the registry by a callback, or the next statement of the handler. -/
inductive AttemptEvent
  | call (call : Call)
  | isBrokerConnected
  | insertDocument (outcome : Except Exception Unit)
  | activeBrokerTokenIsDueToExpire (utcNow : DateTime)
  | returned

namespace Attempts

def start (registry : BrokerConnections) : Attempts := ⟨registry, none, [], none⟩

/-- The outcome of a statement after which the attempt has made so many pushes. -/
def proceed {α : Type} (s : Attempts) (passed : Passed) (failing pushes : ℕ) :
    Except Exception α → Attempts
  | .error _ => { s with running := none, failed := s.failed ++ [failing] }
  | .ok _ => { s with running := some (passed, pushes) }

/-- All pushes of the command, over all attempts. -/
def pushes (s : Attempts) : ℕ :=
  s.failed.sum + (s.running.map Prod.snd).getD 0 + s.returned.getD 0

end Attempts

section Machine
variable (command : InsertDocumentIntoRemoteBackOfficeCommand)

def step (s : Attempts) : AttemptEvent → Option Attempts
  | .call call => some { s with registry := perform s.registry call }
  | .isBrokerConnected =>
      match s.running, s.returned with
      | none, none =>
          some (s.proceed .isBrokerConnected 0 0 (requireConnected s.registry.entries command))
      | _, _ => none
  | .insertDocument outcome =>
      match s.running with
      | some (.isBrokerConnected, n) => some (s.proceed .insertDocument n (n + 1) outcome)
      | _ => none
  | .activeBrokerTokenIsDueToExpire utcNow =>
      match s.running with
      | some (.insertDocument, n) =>
          some (s.proceed .activeBrokerTokenIsDueToExpire n n
            (activeBrokerTokenIsDueToExpire s.registry.entries command.brokerId utcNow))
      | _ => none
  | .returned =>
      match s.running with
      | some (.activeBrokerTokenIsDueToExpire, n) =>
          some { s with running := none, returned := some n }
      | _ => none

def handler (registry : BrokerConnections) : Machine Attempts AttemptEvent where
  init := Attempts.start registry
  step := step command

end Machine

/-- Failed attempts have pushed nothing, and there is at most one push in all. -/
structure FailuresPushNothing (s : Attempts) : Prop where
  failed : ∀ n ∈ s.failed, n = 0
  once : s.pushes ≤ 1

/-- The condition on a step: the question after the push is asked while an active
connection of the broker is registered. -/
def AsksWhileActive (command : InsertDocumentIntoRemoteBackOfficeCommand) (s : Attempts) :
    AttemptEvent → Prop
  | .activeBrokerTokenIsDueToExpire _ =>
      ∃ c ∈ s.registry.entries, c.brokerId = command.brokerId ∧ c.expired = false
  | _ => True

/-- The pushes of an attempt follow from the statement it has passed. -/
structure Counted (s : Attempts) : Prop where
  unpushed : ∀ n, s.running = some (.isBrokerConnected, n) → n = 0
  pushed : ∀ passed n, s.running = some (passed, n) → passed ≠ .isBrokerConnected → n = 1
  ended : ∀ n, s.returned = some n → s.running = none ∧ n = 1

theorem activeBrokerTokenIsDueToExpire_ok_iff {entries : List BrokerConnection} {brokerId : ℤ}
    {utcNow : DateTime} :
    (∃ due, activeBrokerTokenIsDueToExpire entries brokerId utcNow = .ok due) ↔
      ∃ c ∈ entries, c.brokerId = brokerId ∧ c.expired = false := by
  constructor
  · intro ⟨due, hdue⟩
    unfold activeBrokerTokenIsDueToExpire at hdue
    split at hdue
    · cases hdue
    · split at hdue
      · cases hdue
      · next c hfind =>
        have hc := List.find?_some hfind
        simp only [Bool.and_eq_true, beq_iff_eq, Bool.not_eq_true'] at hc
        exact ⟨c, List.mem_of_find?_eq_some hfind, hc⟩
  · exact fun h => activeBrokerTokenIsDueToExpire_ok h utcNow

/-- The statement of each event, with what it is executed on. -/
inductive Stepped (command : InsertDocumentIntoRemoteBackOfficeCommand) (s : Attempts) :
    AttemptEvent → Attempts → Prop
  | call (call : Call) :
      Stepped command s (.call call) { s with registry := perform s.registry call }
  | isBrokerConnected (running : s.running = none) (returned : s.returned = none) :
      Stepped command s .isBrokerConnected
        (s.proceed .isBrokerConnected 0 0 (requireConnected s.registry.entries command))
  | insertDocument (n : ℕ) (outcome : Except Exception Unit)
      (running : s.running = some (.isBrokerConnected, n)) :
      Stepped command s (.insertDocument outcome) (s.proceed .insertDocument n (n + 1) outcome)
  | activeBrokerTokenIsDueToExpire (n : ℕ) (utcNow : DateTime)
      (running : s.running = some (.insertDocument, n)) :
      Stepped command s (.activeBrokerTokenIsDueToExpire utcNow)
        (s.proceed .activeBrokerTokenIsDueToExpire n n
          (activeBrokerTokenIsDueToExpire s.registry.entries command.brokerId utcNow))
  | returned (n : ℕ) (running : s.running = some (.activeBrokerTokenIsDueToExpire, n)) :
      Stepped command s .returned { s with running := none, returned := some n }

section Steps
variable {command : InsertDocumentIntoRemoteBackOfficeCommand} {s t : Attempts}
  {e : AttemptEvent}

theorem step_stepped (hstep : step command s e = some t) : Stepped command s e t := by
  cases e with
  | call call =>
      obtain rfl := Option.some.inj hstep
      exact .call call
  | isBrokerConnected =>
      simp only [step] at hstep
      split at hstep
      · next hrunning hreturned =>
        obtain rfl := Option.some.inj hstep
        exact .isBrokerConnected hrunning hreturned
      · cases hstep
  | insertDocument outcome =>
      simp only [step] at hstep
      split at hstep
      · next n hrunning =>
        obtain rfl := Option.some.inj hstep
        exact .insertDocument n outcome hrunning
      · cases hstep
  | activeBrokerTokenIsDueToExpire utcNow =>
      simp only [step] at hstep
      split at hstep
      · next n hrunning =>
        obtain rfl := Option.some.inj hstep
        exact .activeBrokerTokenIsDueToExpire n utcNow hrunning
      · cases hstep
  | returned =>
      simp only [step] at hstep
      split at hstep
      · next n hrunning =>
        obtain rfl := Option.some.inj hstep
        exact .returned n hrunning
      · cases hstep

theorem Counted.unreturned (hs : Counted s) {passed : Passed × ℕ}
    (hrunning : s.running = some passed) : s.returned = none := by
  cases hreturned : s.returned with
  | none => rfl
  | some n =>
      rw [(hs.ended n hreturned).1] at hrunning
      cases hrunning

theorem Counted.proceed {α : Type} (hreturned : s.returned = none) (passed : Passed)
    (failing : ℕ) {pushes : ℕ} (hunpushed : passed = .isBrokerConnected → pushes = 0)
    (hpushed : passed ≠ .isBrokerConnected → pushes = 1) (outcome : Except Exception α) :
    Counted (s.proceed passed failing pushes outcome) := by
  have hended : ∀ n, s.returned ≠ some n := by
    intro n hn
    rw [hreturned] at hn
    cases hn
  cases outcome with
  | error e => exact ⟨nofun, nofun, fun n hn => absurd hn (hended n)⟩
  | ok a =>
      refine ⟨fun n hn => ?_, fun passed' n hn hne => ?_, fun n hn => absurd hn (hended n)⟩
      · obtain ⟨hpassed, rfl⟩ := Prod.mk.inj (Option.some.inj hn)
        exact hunpushed hpassed
      · obtain ⟨rfl, rfl⟩ := Prod.mk.inj (Option.some.inj hn)
        exact hpushed hne

theorem Counted.step (hs : Counted s) (hstep : HubAttempts.step command s e = some t) :
    Counted t := by
  cases step_stepped hstep with
  | call call => exact ⟨hs.unpushed, hs.pushed, hs.ended⟩
  | isBrokerConnected hrunning hreturned =>
      exact Counted.proceed hreturned _ 0 (fun _ => rfl) (fun hne => absurd rfl hne) _
  | insertDocument n outcome hrunning =>
      have hn := hs.unpushed n hrunning
      exact Counted.proceed (hs.unreturned hrunning) .insertDocument n nofun
        (fun _ => by rw [hn]) outcome
  | activeBrokerTokenIsDueToExpire n utcNow hrunning =>
      have hn := hs.pushed _ n hrunning nofun
      exact Counted.proceed (hs.unreturned hrunning) .activeBrokerTokenIsDueToExpire n nofun
        (fun _ => hn) _
  | returned n hrunning =>
      have hn := hs.pushed _ n hrunning nofun
      refine ⟨nofun, nofun, fun m hm => ⟨rfl, ?_⟩⟩
      rw [← Option.some.inj hm]
      exact hn

/-- The bound on all pushes follows from what failed attempts push. -/
theorem failuresPushNothing_iff (hs : Counted s) :
    FailuresPushNothing s ↔ ∀ n ∈ s.failed, n = 0 := by
  refine ⟨fun h => h.failed, fun hfailed => ⟨hfailed, ?_⟩⟩
  have hsum : s.failed.sum = 0 := List.sum_eq_zero_iff_forall_eq_nat.mpr hfailed
  unfold Attempts.pushes
  cases hrunning : s.running with
  | none =>
      cases hreturned : s.returned with
      | none => simp [hsum]
      | some n => simp [hsum, (hs.ended n hreturned).2]
  | some running =>
      have hle : running.2 ≤ 1 := by
        by_cases hpassed : running.1 = .isBrokerConnected
        · have hzero := hs.unpushed running.2 (by rw [hrunning, ← hpassed])
          omega
        · have hone := hs.pushed running.1 running.2 hrunning hpassed
          omega
      simp [hsum, hs.unreturned hrunning, hle]

/-- A statement makes a failed attempt that has pushed exactly if it throws after
a push. -/
theorem proceed_failed {α : Type} (hs : ∀ n ∈ s.failed, n = 0) (passed : Passed)
    (failing pushes : ℕ) (outcome : Except Exception α) :
    (∀ n ∈ (s.proceed passed failing pushes outcome).failed, n = 0) ↔
      failing = 0 ∨ ∃ a, outcome = .ok a := by
  cases outcome with
  | ok a => exact ⟨fun _ => Or.inr ⟨a, rfl⟩, fun _ => hs⟩
  | error x =>
      constructor
      · intro h
        exact Or.inl (h failing (List.mem_append_right _ (List.mem_singleton.mpr rfl)))
      · intro h n hn
        rcases List.mem_append.mp hn with hold | hnew
        · exact hs n hold
        · rw [List.mem_singleton.mp hnew]
          exact h.resolve_right nofun

/-- From a state in which failures have pushed nothing, a step keeps that exactly
if it meets the condition. -/
theorem exact_step (hs : Counted s) (hfailed : FailuresPushNothing s)
    (hstep : HubAttempts.step command s e = some t) :
    FailuresPushNothing t ↔ AsksWhileActive command s e := by
  rw [failuresPushNothing_iff (hs.step hstep)]
  cases step_stepped hstep with
  | call call => exact ⟨fun _ => trivial, fun _ => hfailed.failed⟩
  | isBrokerConnected hrunning hreturned =>
      rw [proceed_failed hfailed.failed]
      exact ⟨fun _ => trivial, fun _ => Or.inl rfl⟩
  | insertDocument n outcome hrunning =>
      rw [proceed_failed hfailed.failed]
      exact ⟨fun _ => trivial, fun _ => Or.inl (hs.unpushed n hrunning)⟩
  | activeBrokerTokenIsDueToExpire n utcNow hrunning =>
      have hn := hs.pushed _ n hrunning nofun
      rw [proceed_failed hfailed.failed, activeBrokerTokenIsDueToExpire_ok_iff]
      exact or_iff_right (by omega)
  | returned n hrunning => exact ⟨fun _ => trivial, fun _ => hfailed.failed⟩

end Steps

theorem Counted.start (registry : BrokerConnections) : Counted (Attempts.start registry) :=
  ⟨nofun, nofun, nofun⟩

/-- Over all attempts at a command, whatever the registry holds and whichever
calls come in between: failed attempts have pushed nothing and there is at most
one push precisely if each question after a push finds an active connection. -/
theorem failures_push_nothing_exactly_when (command : InsertDocumentIntoRemoteBackOfficeCommand)
    (registry : BrokerConnections) (events : List AttemptEvent) :
    (handler command registry).Always FailuresPushNothing (Attempts.start registry) events ↔
      (handler command registry).Meets (AsksWhileActive command) (Attempts.start registry)
        events := by
  apply Machine.always_iff_meets (B := Counted)
  · exact fun s e t hs hstep => hs.step hstep
  · exact fun s e t hs hfailed hstep => exact_step hs hfailed hstep
  · exact Counted.start registry
  · exact (failuresPushNothing_iff (Counted.start registry)).mpr nofun

/-- The broker's only connection goes away after the push: the attempt throws,
and the next one pushes the command again. -/
theorem disconnect_after_push_counterexample :
    ∃ s t, (handler (insertCommand 7 123) BrokerConnections.empty).run
        (Attempts.start BrokerConnections.empty)
        [.call (.addConnection "conn1" 123 0), .isBrokerConnected, .insertDocument (.ok ()),
          .call (.removeConnection "conn1"), .activeBrokerTokenIsDueToExpire 0] = some s ∧
      s.failed = [1] ∧ ¬FailuresPushNothing s ∧
      (handler (insertCommand 7 123) BrokerConnections.empty).run s
        [.call (.addConnection "conn2" 123 0), .isBrokerConnected, .insertDocument (.ok ()),
          .activeBrokerTokenIsDueToExpire 0, .returned] = some t ∧ t.pushes = 2 := by
  refine ⟨_, _, rfl, rfl, fun h => ?_, rfl, rfl⟩
  cases h.failed 1 (by decide)

end ReliableSignalR.HubAttempts
