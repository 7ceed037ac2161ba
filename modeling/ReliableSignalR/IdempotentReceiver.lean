import ReliableSignalR.EventRuns
import Mathlib.Data.List.Nodup

/-!
# Receivers that record before they perform

An idempotent receiver keeps the set of identifiers that it has seen. It claims
an unseen identifier, which records it for good, and then performs the effect of
that identifier at most once; it may also let the claim go without the effect.
The record is what a restart finds again, so that a crash is a release.

Whatever the order of the events, no effect is performed twice. What is seen,
not performed and not claimed any more is abandoned: no later event can perform
its effect. Nothing is abandoned but by letting a claim go.
-/
namespace ReliableSignalR.IdempotentReceiver
open EventRuns

variable {ι : Type*} [DecidableEq ι]

structure Receiver (ι : Type*) where
  seen : List ι
  performed : List ι
  current : Option ι

inductive ReceiverEvent (ι : Type*)
  | claim (i : ι)
  | perform
  | release

def step (s : Receiver ι) : ReceiverEvent ι → Option (Receiver ι)
  | .claim i =>
      if s.current = none ∧ i ∉ s.seen then
        some { s with seen := i :: s.seen, current := some i }
      else none
  | .perform =>
      s.current.map fun i => { s with performed := i :: s.performed, current := none }
  | .release => some { s with current := none }

def receiver (ι : Type*) [DecidableEq ι] : Machine (Receiver ι) (ReceiverEvent ι) where
  init := ⟨[], [], none⟩
  step := step

/-- Effects are performed once, after their identifier was recorded. -/
structure Recorded (s : Receiver ι) : Prop where
  nodup : s.performed.Nodup
  seen : ∀ i ∈ s.performed, i ∈ s.seen
  claimed : ∀ i, s.current = some i → i ∈ s.seen ∧ i ∉ s.performed

theorem Recorded.step {s t : Receiver ι} {e : ReceiverEvent ι} (h : Recorded s)
    (hstep : step s e = some t) : Recorded t := by
  cases e with
  | claim i =>
      obtain ⟨hfree, rfl⟩ := guarded hstep
      refine ⟨h.nodup, fun j hj => List.mem_cons_of_mem i (h.seen j hj), fun j hj => ?_⟩
      obtain rfl := Option.some.inj hj
      exact ⟨List.mem_cons_self, fun hperformed => hfree.2 (h.seen i hperformed)⟩
  | perform =>
      obtain ⟨i, hi, rfl⟩ := Option.map_eq_some_iff.mp hstep
      obtain ⟨hseen, hnew⟩ := h.claimed i hi
      refine ⟨List.nodup_cons.mpr ⟨hnew, h.nodup⟩, fun j hj => ?_, fun j hj => ?_⟩
      · rcases List.mem_cons.mp hj with rfl | hold
        · exact hseen
        · exact h.seen j hold
      · cases hj
  | release =>
      obtain rfl := Option.some.inj hstep
      refine ⟨h.nodup, h.seen, fun j hj => ?_⟩
      cases hj

/-- In every reachable state each effect has been performed at most once. -/
theorem performed_nodup {s : Receiver ι} (h : (receiver ι).Reachable s) :
    s.performed.Nodup := by
  have hrecorded : Recorded s := by
    apply h.invariant fun s e t hs hstep => hs.step hstep
    refine ⟨List.nodup_nil, fun i hi => ?_, fun i hi => ?_⟩
    · cases hi
    · cases hi
  exact hrecorded.nodup

/-- Recorded, and neither performed nor claimed. -/
def Abandoned (s : Receiver ι) (i : ι) : Prop :=
  i ∈ s.seen ∧ i ∉ s.performed ∧ s.current ≠ some i

/-- No event leads out of an abandonment. -/
theorem Abandoned.step {s t : Receiver ι} {e : ReceiverEvent ι} {i : ι} (h : Abandoned s i)
    (hstep : step s e = some t) : Abandoned t i := by
  obtain ⟨hseen, hperformed, hcurrent⟩ := h
  cases e with
  | claim j =>
      obtain ⟨hfree, rfl⟩ := guarded hstep
      refine ⟨List.mem_cons_of_mem j hseen, hperformed, fun hji => ?_⟩
      obtain rfl := Option.some.inj hji
      exact hfree.2 hseen
  | perform =>
      obtain ⟨j, hj, rfl⟩ := Option.map_eq_some_iff.mp hstep
      refine ⟨hseen, fun hmem => ?_, fun hnone => by cases hnone⟩
      rcases List.mem_cons.mp hmem with rfl | hold
      · exact hcurrent hj
      · exact hperformed hold
  | release =>
      obtain rfl := Option.some.inj hstep
      exact ⟨hseen, hperformed, fun hnone => by cases hnone⟩

/-- A run abandons nothing if it never lets a claim go. -/
theorem notAbandoned_run {s t : Receiver ι} {events : List (ReceiverEvent ι)}
    (hs : ∀ i, ¬Abandoned s i)
    (hkeeps : (receiver ι).Meets (fun s e => e = .release → s.current = none) s events)
    (hrun : (receiver ι).run s events = some t) : ∀ i, ¬Abandoned t i := by
  refine (Machine.always_of_meets (I := fun s => ∀ i, ¬Abandoned s i) ?_ hs hkeeps).last hrun
  intro s e t hs he hstep i habandoned
  obtain ⟨hseen, hperformed, hcurrent⟩ := habandoned
  cases e with
  | claim j =>
      obtain ⟨⟨hnone, -⟩, rfl⟩ := guarded hstep
      have hne : i ≠ j := fun heq => hcurrent (congrArg some heq.symm)
      refine hs i ⟨(List.mem_cons.mp hseen).resolve_left hne, hperformed, ?_⟩
      rw [hnone]
      exact nofun
  | perform =>
      obtain ⟨j, hj, rfl⟩ := Option.map_eq_some_iff.mp hstep
      obtain ⟨hne, hold⟩ := not_or.mp (mt List.mem_cons.mpr hperformed)
      refine hs i ⟨hseen, hold, fun hi => hne ?_⟩
      exact Option.some.inj (hi.symm.trans hj)
  | release =>
      obtain rfl := Option.some.inj hstep
      refine hs i ⟨hseen, hperformed, ?_⟩
      rw [he rfl]
      exact nofun

/-- If the performed effects have distinct identifiers, a class of events that share
one identifier holds at most one of them. -/
theorem countP_le_one_of_nodup {α κ : Type*} {events : List α} {performs inClass : α → Bool}
    {key : α → κ} {k : κ} (hnodup : ((events.filter performs).map key).Nodup)
    (hclass : ∀ a ∈ events, inClass a = true → key a = k) :
    events.countP (fun a => inClass a && performs a) ≤ 1 := by
  have hsub : ((events.filter performs).filter inClass).map key =
      List.replicate ((events.filter performs).filter inClass).length k := by
    rw [← List.length_map key]
    apply List.eq_replicate_of_mem
    intro i hi
    obtain ⟨a, ha, rfl⟩ := List.mem_map.mp hi
    obtain ⟨hperforms, hin⟩ := List.mem_filter.mp ha
    exact hclass a (List.mem_filter.mp hperforms).1 hin
  have hdistinct : (((events.filter performs).filter inClass).map key).Nodup :=
    hnodup.sublist (List.filter_sublist.map key)
  rw [List.countP_eq_length_filter, ← List.filter_filter]
  rw [hsub] at hdistinct
  exact List.nodup_replicate.mp hdistinct

end ReliableSignalR.IdempotentReceiver
