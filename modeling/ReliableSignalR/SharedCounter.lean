import ReliableSignalR.EventRuns
import Mathlib.Logic.Function.Basic
import Mathlib.Data.Option.Basic
import Mathlib.Tactic.Common

/-!
# A shared counter with copies

Parties load the value of a counter into a copy of their own and later write back
the copy plus one. A write is fresh if the copy still is the value. As long as all
writes are fresh the counter counts them. A write that is not fresh loses an
increment for good: from then on the value and every copy stay below the count.
-/
namespace ReliableSignalR.SharedCounter
open EventRuns

variable {ι : Type*}

structure Counter (ι : Type*) where
  value : ℕ
  copy : ι → Option ℕ
  increments : ℕ

inductive Move (ι : Type*)
  | load (i : ι)
  | write (i : ι)
  | forget (i : ι)

namespace Counter
variable [DecidableEq ι]

def move (s : Counter ι) : Move ι → Option (Counter ι)
  | .load i => some { s with copy := Function.update s.copy i (some s.value) }
  | .write i => (s.copy i).map fun k =>
      ⟨k + 1, Function.update s.copy i (some (k + 1)), s.increments + 1⟩
  | .forget i => some { s with copy := Function.update s.copy i none }

def Fresh (s : Counter ι) : Move ι → Prop
  | .write i => s.copy i = some s.value
  | _ => True

/-- The counter has counted every increment. -/
structure Complete (start : ℕ) (s : Counter ι) : Prop where
  value : s.value = start + s.increments
  copies : ∀ i, ∀ k ∈ s.copy i, k ≤ start + s.increments

/-- The counter has lost an increment, and no party has a copy that brings it back. -/
structure Short (start : ℕ) (s : Counter ι) : Prop where
  value : s.value < start + s.increments
  copies : ∀ i, ∀ k ∈ s.copy i, k < start + s.increments

theorem forall_copies_update {P : ℕ → Prop} {copy : ι → Option ℕ} {i : ι} {c : Option ℕ}
    (hcopy : ∀ j, ∀ k ∈ copy j, P k) (hc : ∀ k ∈ c, P k) :
    ∀ j, ∀ k ∈ Function.update copy i c j, P k := by
  intro j k hk
  by_cases hj : j = i
  · subst hj
    rw [Function.update_self] at hk
    exact hc k hk
  · rw [Function.update_of_ne hj] at hk
    exact hcopy j k hk

variable {start : ℕ} {s t : Counter ι} {m : Move ι}

theorem write_eq_some {i : ι} :
    s.move (.write i) = some t ↔ ∃ k, s.copy i = some k ∧
      ⟨k + 1, Function.update s.copy i (some (k + 1)), s.increments + 1⟩ = t :=
  Option.map_eq_some_iff

theorem Complete.move (h : Complete start s) (hfresh : s.Fresh m) (hmove : s.move m = some t) :
    Complete start t := by
  cases m with
  | load i =>
      obtain rfl := Option.some.inj hmove
      exact ⟨h.value, forall_copies_update h.copies fun k hk => by
        rw [← Option.some.inj hk]
        exact Nat.le_of_eq h.value⟩
  | write i =>
      obtain ⟨k, hk, rfl⟩ := write_eq_some.mp hmove
      have hvalue : k = s.value := Option.some.inj (hk.symm.trans hfresh)
      have hcount : k + 1 = start + (s.increments + 1) := by rw [hvalue, h.value, Nat.add_assoc]
      refine ⟨hcount, forall_copies_update (fun j l hl => ?_) fun l hl => ?_⟩
      · exact Nat.le_succ_of_le (h.copies j l hl)
      · exact Option.some.inj hl ▸ Nat.le_of_eq hcount
  | forget i =>
      obtain rfl := Option.some.inj hmove
      exact ⟨h.value, forall_copies_update h.copies fun k hk => by cases hk⟩

/-- A write that is not fresh sets the value to one that it had before. -/
theorem Complete.stale (h : Complete start s) (hstale : ¬s.Fresh m) (hmove : s.move m = some t) :
    Short start t := by
  cases m with
  | write i =>
      obtain ⟨k, hk, rfl⟩ := write_eq_some.mp hmove
      have hle := h.copies i k hk
      have hne : k ≠ start + s.increments := by
        rintro rfl
        exact hstale (hk.trans (congrArg some h.value.symm))
      have hcount : k + 1 < start + (s.increments + 1) := by omega
      refine ⟨hcount, forall_copies_update (fun j l hl => ?_) fun l hl => ?_⟩
      · exact Nat.lt_succ_of_le (h.copies j l hl)
      · exact Option.some.inj hl ▸ hcount
  | _ => exact absurd trivial hstale

theorem Short.move (h : Short start s) (hmove : s.move m = some t) : Short start t := by
  cases m with
  | load i =>
      obtain rfl := Option.some.inj hmove
      exact ⟨h.value, forall_copies_update h.copies fun k hk => by
        rw [← Option.some.inj hk]
        exact h.value⟩
  | write i =>
      obtain ⟨k, hk, rfl⟩ := write_eq_some.mp hmove
      have hlt := h.copies i k hk
      have hcount : k + 1 < start + (s.increments + 1) := by omega
      refine ⟨hcount, forall_copies_update (fun j l hl => ?_) fun l hl => ?_⟩
      · exact Nat.lt_succ_of_lt (h.copies j l hl)
      · exact Option.some.inj hl ▸ hcount
  | forget i =>
      obtain rfl := Option.some.inj hmove
      exact ⟨h.value, forall_copies_update h.copies fun k hk => by cases hk⟩

/-- A step of a system either leaves its counter alone or makes one move of it, and
the condition on the step says that the move is fresh. -/
def Simulates {σ ε : Type*} (counter : σ → Counter ι) (C : σ → ε → Prop) (s : σ) (e : ε)
    (t : σ) : Prop :=
  (counter t = counter s ∧ C s e) ∨
    ∃ m, (counter s).move m = some (counter t) ∧ ((counter s).Fresh m ↔ C s e)

section Simulates
variable {σ ε : Type*} {counter : σ → Counter ι} {C : σ → ε → Prop} {s t : σ} {e : ε}

theorem Simulates.complete (h : Simulates counter C s e t) (hs : Complete start (counter s))
    (hC : C s e) : Complete start (counter t) := by
  rcases h with ⟨heq, -⟩ | ⟨m, hmove, hfresh⟩
  · exact heq ▸ hs
  · exact hs.move (hfresh.mpr hC) hmove

theorem Simulates.stale (h : Simulates counter C s e t) (hs : Complete start (counter s))
    (hC : ¬C s e) : Short start (counter t) := by
  rcases h with ⟨-, hcurrent⟩ | ⟨m, hmove, hfresh⟩
  · exact absurd hcurrent hC
  · exact hs.stale (fun h => hC (hfresh.mp h)) hmove

theorem Simulates.short (h : Simulates counter C s e t) (hs : Short start (counter s)) :
    Short start (counter t) := by
  rcases h with ⟨heq, -⟩ | ⟨m, hmove, -⟩
  · exact heq ▸ hs
  · exact hs.move hmove

/-- A run has counted all its increments precisely if all its writes were fresh. -/
theorem counts_iff_meets {M : Machine σ ε} {I : σ → Prop}
    (keep : ∀ s e t, I s → M.step s e = some t → I t)
    (simulates : ∀ s e t, I s → M.step s e = some t → Simulates counter C s e t)
    {es : List ε} (hI : I s) (hs : Complete start (counter s)) (h : M.run s es = some t) :
    (counter t).value = start + (counter t).increments ↔ M.Meets C s es := by
  have hfinal := Machine.final_of_meets (G := fun s => I s ∧ Complete start (counter s))
    (B := fun s => I s ∧ Short start (counter s))
    (fun s e t hG hC ht => ⟨keep s e t hG.1 ht, (simulates s e t hG.1 ht).complete hG.2 hC⟩)
    (fun s e t hG hC ht => ⟨keep s e t hG.1 ht, (simulates s e t hG.1 ht).stale hG.2 hC⟩)
    (fun s e t hB ht => ⟨keep s e t hB.1 ht, (simulates s e t hB.1 ht).short hB.2⟩) ⟨hI, hs⟩ h
  rcases hfinal with ⟨⟨-, hcomplete⟩, hmeets⟩ | ⟨⟨-, hshort⟩, hmeets⟩
  · exact ⟨fun _ => hmeets, fun _ => hcomplete.value⟩
  · exact ⟨fun heq => absurd heq (Nat.ne_of_lt hshort.value), fun h => absurd h hmeets⟩

end Simulates

end Counter

end ReliableSignalR.SharedCounter
