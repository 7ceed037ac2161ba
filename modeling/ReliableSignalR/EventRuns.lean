import Mathlib.Data.List.Induction
import Mathlib.Tactic.Common

/-!
# Event-driven machines and properties of whole runs

A machine's event carries every choice that its environment makes: which party
moves, what an external call returns and where it fails. The step is therefore
a partial function, and a run is a list of events. An event that is not enabled
returns no successor and constrains nothing.

`Always` speaks about every state that a run visits and `Throughout` about
every step that it takes. The rules below reduce both to obligations about a
single step; `always_iff_meets_of_invariant` is the rule for a property that holds
of a run exactly when each of its steps meets a condition in the state before it.
-/
namespace ReliableSignalR.EventRuns

variable {σ ε τ δ : Type*}

structure Machine (σ ε : Type*) where
  init : σ
  step : σ → ε → Option σ

/-- A guarded step is taken under its guard only. -/
theorem guarded {c : Prop} [Decidable c] {s t : σ}
    (h : (if c then some s else none) = some t) : c ∧ s = t :=
  ⟨(Option.ite_none_right_eq_some.mp h).1, Option.some.inj (Option.ite_none_right_eq_some.mp h).2⟩

namespace Machine
variable (M : Machine σ ε)

/-- The state after all events, if each of them is enabled in its turn. -/
def run : σ → List ε → Option σ
  | s, [] => some s
  | s, e :: es => (M.step s e).bind fun t => run t es

def Reachable (t : σ) : Prop := ∃ es, M.run M.init es = some t

/-- `P` holds of the first state and of every state visited afterwards. -/
def Always (P : σ → Prop) : σ → List ε → Prop
  | s, [] => P s
  | s, e :: es => P s ∧ ∀ t, M.step s e = some t → Always P t es

/-- `Q` holds of every step taken: state before, event, state after. -/
def Throughout (Q : σ → ε → σ → Prop) : σ → List ε → Prop
  | _, [] => True
  | s, e :: es => ∀ t, M.step s e = some t → Q s e t ∧ Throughout Q t es

/-- Every step taken meets a condition on its event and the state before it. -/
def Meets (C : σ → ε → Prop) : σ → List ε → Prop :=
  M.Throughout fun s e _ => C s e

/-- At some point of the run its next event and the state reached satisfy `Q`. -/
def Occurs (Q : σ → ε → Prop) (s : σ) (es : List ε) : Prop :=
  ∃ as e bs t, es = as ++ e :: bs ∧ M.run s as = some t ∧ Q t e

@[simp] theorem run_nil (s : σ) : M.run s [] = some s := rfl

@[simp] theorem run_cons (s : σ) (e : ε) (es : List ε) :
    M.run s (e :: es) = (M.step s e).bind fun t => M.run t es := rfl

theorem run_cons_eq_some {s u : σ} {e : ε} {es : List ε} :
    M.run s (e :: es) = some u ↔ ∃ t, M.step s e = some t ∧ M.run t es = some u := by
  simp only [run_cons, Option.bind_eq_some_iff]

theorem run_append (s : σ) (as bs : List ε) :
    M.run s (as ++ bs) = (M.run s as).bind fun t => M.run t bs := by
  induction as generalizing s with
  | nil => rfl
  | cons e as ih =>
      simp only [List.cons_append, run_cons, Option.bind_assoc]
      congr 1
      funext t
      exact ih t

theorem run_concat_eq_some {s u : σ} {es : List ε} {e : ε} :
    M.run s (es ++ [e]) = some u ↔ ∃ t, M.run s es = some t ∧ M.step t e = some u := by
  rw [run_append, Option.bind_eq_some_iff]
  simp only [run_cons, run_nil, Option.bind_fun_some]

variable {M}

/-- The induction on the history of a run: what holds of the empty history and
is kept when one more step is taken holds of every history and where it led. -/
theorem run_history {P : List ε → σ → Prop} {s : σ} (start : P [] s)
    (more : ∀ es t e u, M.run s es = some t → P es t → M.step t e = some u → P (es ++ [e]) u)
    {es : List ε} {u : σ} (h : M.run s es = some u) : P es u := by
  induction es using List.reverseRecOn generalizing u with
  | nil =>
      rw [run_nil, Option.some.injEq] at h
      exact h ▸ start
  | append_singleton es e ih =>
      obtain ⟨t, ht, hu⟩ := (M.run_concat_eq_some).mp h
      exact more es t e u ht (ih ht) hu

theorem not_occurs_nil {Q : σ → ε → Prop} {s : σ} : ¬M.Occurs Q s [] := by
  intro ⟨as, e, bs, t, heq, _⟩
  cases as <;> cases heq

theorem occurs_concat {Q : σ → ε → Prop} {s : σ} {es : List ε} {e : ε} :
    M.Occurs Q s (es ++ [e]) ↔ M.Occurs Q s es ∨ ∃ t, M.run s es = some t ∧ Q t e := by
  constructor
  · intro ⟨as, x, bs, t, heq, hrun, hQ⟩
    rcases List.eq_nil_or_concat bs with rfl | ⟨bs, y, rfl⟩
    · obtain ⟨rfl, hx⟩ := List.append_inj' heq rfl
      obtain rfl := List.singleton_inj.mp hx
      exact Or.inr ⟨t, hrun, hQ⟩
    · rw [List.concat_eq_append, ← List.cons_append, ← List.append_assoc] at heq
      obtain ⟨rfl, -⟩ := List.append_inj' heq rfl
      exact Or.inl ⟨as, x, bs, t, rfl, hrun, hQ⟩
  · intro h
    rcases h with ⟨as, x, bs, t, rfl, hrun, hQ⟩ | ⟨t, hrun, hQ⟩
    · exact ⟨as, x, bs ++ [e], t, by simp, hrun, hQ⟩
    · exact ⟨es, e, [], t, rfl, hrun, hQ⟩

theorem Reachable.init : M.Reachable M.init := ⟨[], rfl⟩

theorem Reachable.step {s t : σ} {e : ε} (h : M.Reachable s) (hs : M.step s e = some t) :
    M.Reachable t := by
  obtain ⟨es, hes⟩ := h
  refine ⟨es ++ [e], ?_⟩
  rw [run_append, hes]
  simpa using hs

theorem Always.head {P : σ → Prop} {s : σ} {es : List ε} (h : M.Always P s es) : P s := by
  cases es with
  | nil => exact h
  | cons e es => exact h.1

/-- The recursive reading and the reading by visited states agree. -/
theorem always_iff_visited {P : σ → Prop} {s : σ} {es : List ε} :
    M.Always P s es ↔ ∀ as t, as <+: es → M.run s as = some t → P t := by
  induction es generalizing s with
  | nil =>
      constructor
      · intro h as t has hrun
        rw [List.prefix_nil.mp has, run_nil, Option.some.injEq] at hrun
        exact hrun ▸ h
      · exact fun h => h [] s List.prefix_rfl rfl
  | cons e es ih =>
      constructor
      · rintro ⟨hs, hrest⟩ as u has hrun
        cases as with
        | nil =>
            rw [run_nil, Option.some.injEq] at hrun
            exact hrun ▸ hs
        | cons a as =>
            obtain ⟨rfl, htail⟩ := List.cons_prefix_cons.mp has
            obtain ⟨t, ht, hu⟩ := (M.run_cons_eq_some).mp hrun
            exact ih.mp (hrest t ht) as u htail hu
      · intro h
        refine ⟨h [] s (List.nil_prefix) rfl, fun t ht => ih.mpr ?_⟩
        intro as u has hrun
        exact h (e :: as) u (List.cons_prefix_cons.mpr ⟨rfl, has⟩)
          ((M.run_cons_eq_some).mpr ⟨t, ht, hrun⟩)

theorem Always.last {P : σ → Prop} {s t : σ} {es : List ε} (h : M.Always P s es)
    (hrun : M.run s es = some t) : P t :=
  always_iff_visited.mp h es t List.prefix_rfl hrun

theorem Always.mono {P Q : σ → Prop} (hPQ : ∀ s, P s → Q s) {s : σ} {es : List ε}
    (h : M.Always P s es) : M.Always Q s es :=
  always_iff_visited.mpr fun as t has hrun => hPQ t (always_iff_visited.mp h as t has hrun)

theorem Throughout.mono {Q R : σ → ε → σ → Prop}
    (hQR : ∀ s e t, M.step s e = some t → Q s e t → R s e t) {s : σ} {es : List ε}
    (h : M.Throughout Q s es) : M.Throughout R s es := by
  induction es generalizing s with
  | nil => trivial
  | cons e es ih => exact fun t ht => ⟨hQR s e t ht (h t ht).1, ih (h t ht).2⟩

theorem Throughout.of_append {Q : σ → ε → σ → Prop} {s t : σ} {as bs : List ε}
    (h : M.Throughout Q s (as ++ bs)) (hrun : M.run s as = some t) : M.Throughout Q t bs := by
  induction as generalizing s with
  | nil =>
      rw [run_nil, Option.some.injEq] at hrun
      exact hrun ▸ h
  | cons e as ih =>
      obtain ⟨u, hu, hrest⟩ := (M.run_cons_eq_some).mp hrun
      exact ih (h u hu).2 hrest

theorem Throughout.append_left {Q : σ → ε → σ → Prop} {s : σ} {as bs : List ε}
    (h : M.Throughout Q s (as ++ bs)) : M.Throughout Q s as := by
  induction as generalizing s with
  | nil => trivial
  | cons e as ih => exact fun t ht => ⟨(h t ht).1, ih (h t ht).2⟩

theorem Meets.and {C D : σ → ε → Prop} {s : σ} {es : List ε} (hC : M.Meets C s es)
    (hD : M.Meets D s es) : M.Meets (fun s e => C s e ∧ D s e) s es := by
  induction es generalizing s with
  | nil => trivial
  | cons e es ih => exact fun t ht => ⟨⟨(hC t ht).1, (hD t ht).1⟩, ih (hC t ht).2 (hD t ht).2⟩

theorem meets_true {s : σ} {es : List ε} : M.Meets (fun _ _ => True) s es := by
  induction es generalizing s with
  | nil => trivial
  | cons e es ih => exact fun t _ => ⟨trivial, ih⟩

/-- The induction behind every invariant here: a step that meets `C` keeps `I`. -/
theorem always_of_meets {I : σ → Prop} {C : σ → ε → Prop}
    (keep : ∀ s e t, I s → C s e → M.step s e = some t → I t)
    {s : σ} {es : List ε} (hs : I s) (h : M.Meets C s es) : M.Always I s es := by
  induction es generalizing s with
  | nil => exact hs
  | cons e es ih => exact ⟨hs, fun t ht => ih (keep s e t hs (h t ht).1 ht) (h t ht).2⟩

/-- A decidable condition can be tested on a given list of events. -/
instance decidableMeets (M : Machine σ ε) (C : σ → ε → Prop) [∀ s e, Decidable (C s e)] :
    ∀ s es, Decidable (M.Meets C s es)
  | _, [] => isTrue trivial
  | s, e :: es =>
      match h : M.step s e with
      | none => isTrue fun t ht => by rw [h] at ht; cases ht
      | some t =>
          have := decidableMeets M C t es
          decidable_of_iff (C s e ∧ M.Meets C t es)
            ⟨fun hC u hu => by rw [h] at hu; exact Option.some.inj hu ▸ hC, fun hC => hC t h⟩

theorem always_of_step {I : σ → Prop} (keep : ∀ s e t, I s → M.step s e = some t → I t)
    {s : σ} (es : List ε) (hs : I s) : M.Always I s es :=
  always_of_meets (C := fun _ _ => True) (fun s e t hI _ => keep s e t hI) hs meets_true

theorem Reachable.invariant {I : σ → Prop}
    (keep : ∀ s e t, I s → M.step s e = some t → I t) (h₀ : I M.init) {t : σ}
    (h : M.Reachable t) : I t := by
  obtain ⟨es, hes⟩ := h
  exact (always_of_step keep es h₀).last hes

/-- A step property that follows from an invariant kept by steps meeting `C`. -/
theorem throughout_of_meets {I : σ → Prop} {C : σ → ε → Prop} {Q : σ → ε → σ → Prop}
    (keep : ∀ s e t, I s → C s e → M.step s e = some t → I t)
    (use : ∀ s e t, I s → C s e → M.step s e = some t → Q s e t)
    {s : σ} {es : List ε} (hs : I s) (h : M.Meets C s es) : M.Throughout Q s es := by
  induction es generalizing s with
  | nil => trivial
  | cons e es ih =>
      intro t ht
      have hC := (h t ht).1
      exact ⟨use s e t hs hC ht, ih (keep s e t hs hC ht) (h t ht).2⟩

/-- A property of steps that each step has exactly if it meets a condition. -/
theorem throughout_iff_meets {I : σ → Prop} {Q : σ → ε → σ → Prop} {C : σ → ε → Prop}
    (keep : ∀ s e t, I s → M.step s e = some t → I t)
    (exact_step : ∀ s e t, I s → M.step s e = some t → (Q s e t ↔ C s e))
    {s : σ} (es : List ε) (hs : I s) : M.Throughout Q s es ↔ M.Meets C s es := by
  induction es generalizing s with
  | nil => exact Iff.rfl
  | cons e es ih =>
      constructor
      · exact fun h t ht =>
          ⟨(exact_step s e t hs ht).mp (h t ht).1, (ih (keep s e t hs ht)).mp (h t ht).2⟩
      · exact fun h t ht =>
          ⟨(exact_step s e t hs ht).mpr (h t ht).1, (ih (keep s e t hs ht)).mpr (h t ht).2⟩

/-- The rule of exact conditions. Steps that meet `C` keep the invariant `I`,
which implies `P`; a step that misses `C` ends outside `P`. Then `P` holds at every
visited state precisely if every step meets `C`. `F` is an assumption on all steps. -/
theorem always_iff_meets_of_invariant {I P : σ → Prop} {F C : σ → ε → Prop}
    (use : ∀ s, I s → P s)
    (keep : ∀ s e t, I s → F s e → C s e → M.step s e = some t → I t)
    (need : ∀ s e t, I s → F s e → M.step s e = some t → P t → C s e)
    {s : σ} {es : List ε} (hs : I s) (hF : M.Meets F s es) :
    M.Always P s es ↔ M.Meets C s es := by
  induction es generalizing s with
  | nil => exact ⟨fun _ => trivial, fun _ => use s hs⟩
  | cons e es ih =>
      constructor
      · rintro ⟨-, h⟩ t ht
        have hC := need s e t hs (hF t ht).1 ht (h t ht).head
        exact ⟨hC, (ih (keep s e t hs (hF t ht).1 hC ht) (hF t ht).2).mp (h t ht)⟩
      · intro h
        refine ⟨use s hs, fun t ht => ?_⟩
        exact (ih (keep s e t hs (hF t ht).1 (h t ht).1 ht) (hF t ht).2).mpr (h t ht).2

/-- The rule for a background invariant `B` of every run: from a state with `B`
and `P`, a step ends in `P` precisely if it meets `C`. -/
theorem always_iff_meets_under {B P : σ → Prop} {F C : σ → ε → Prop}
    (keep : ∀ s e t, B s → F s e → M.step s e = some t → B t)
    (exact_step : ∀ s e t, B s → P s → F s e → M.step s e = some t → (P t ↔ C s e))
    {s : σ} {es : List ε} (hB : B s) (hP : P s) (hF : M.Meets F s es) :
    M.Always P s es ↔ M.Meets C s es := by
  apply always_iff_meets_of_invariant (I := fun s => B s ∧ P s) (F := F) (fun s h => h.2)
  · intro s e t hs he hC ht
    exact ⟨keep s e t hs.1 he ht, (exact_step s e t hs.1 hs.2 he ht).mpr hC⟩
  · intro s e t hs he ht hP
    exact (exact_step s e t hs.1 hs.2 he ht).mp hP
  · exact ⟨hB, hP⟩
  · exact hF

theorem always_iff_meets {B P : σ → Prop} {C : σ → ε → Prop}
    (keep : ∀ s e t, B s → M.step s e = some t → B t)
    (exact_step : ∀ s e t, B s → P s → M.step s e = some t → (P t ↔ C s e))
    {s : σ} (es : List ε) (hB : B s) (hP : P s) : M.Always P s es ↔ M.Meets C s es :=
  always_iff_meets_under (F := fun _ _ => True)
    (fun s e t hB _ => keep s e t hB) (fun s e t hB hP _ => exact_step s e t hB hP)
    hB hP meets_true

theorem meets_cons {C : σ → ε → Prop} {s t : σ} {e : ε} {es : List ε}
    (h : M.step s e = some t) : M.Meets C s (e :: es) ↔ C s e ∧ M.Meets C t es := by
  constructor
  · exact fun hmeets => hmeets t h
  · intro hmeets u hu
    rw [h, Option.some.injEq] at hu
    exact hu ▸ hmeets

/-- The rule of lasting damage. A step that meets `C` keeps `G`, a step that misses
`C` leads from `G` to `B`, and no step leaves `B`. Then a run from `G` ends in `G`
if all its steps meet `C`, and in `B` if one of them does not. -/
theorem final_of_meets {G B : σ → Prop} {C : σ → ε → Prop}
    (keep : ∀ s e t, G s → C s e → M.step s e = some t → G t)
    (damage : ∀ s e t, G s → ¬C s e → M.step s e = some t → B t)
    (stay : ∀ s e t, B s → M.step s e = some t → B t)
    {s t : σ} {es : List ε} (hs : G s) (h : M.run s es = some t) :
    (G t ∧ M.Meets C s es) ∨ (B t ∧ ¬M.Meets C s es) := by
  induction es generalizing s with
  | nil =>
      rw [run_nil, Option.some.injEq] at h
      exact Or.inl ⟨h ▸ hs, trivial⟩
  | cons e es ih =>
      obtain ⟨u, hu, hrest⟩ := (M.run_cons_eq_some).mp h
      rw [meets_cons hu]
      by_cases hC : C s e
      · rcases ih (keep s e u hs hC hu) hrest with ⟨hG, hmeets⟩ | ⟨hB, hmeets⟩
        · exact Or.inl ⟨hG, hC, hmeets⟩
        · exact Or.inr ⟨hB, fun hboth => hmeets hboth.2⟩
      · have hB := (always_of_step stay es (damage s e u hs hC hu)).last hrest
        exact Or.inr ⟨hB, fun hboth => hC hboth.1⟩

/-- Some run leads from the state to one with `P`. -/
def CanReach (M : Machine σ ε) (P : σ → Prop) (s : σ) : Prop :=
  ∃ es t, M.run s es = some t ∧ P t

section CanReach
variable {P Q : σ → Prop} {s t : σ}

theorem CanReach.here (h : P s) : M.CanReach P s := ⟨[], s, rfl, h⟩

theorem CanReach.step {e : ε} (h : M.step s e = some t) (ht : M.CanReach P t) : M.CanReach P s := by
  obtain ⟨es, u, hrun, hu⟩ := ht
  exact ⟨e :: es, u, (M.run_cons_eq_some).mpr ⟨t, h, hrun⟩, hu⟩

/-- One goal after the other; an invariant of the machine is there at the first one. -/
theorem CanReach.trans {I : σ → Prop} (keep : ∀ s e t, I s → M.step s e = some t → I t)
    (hs : I s) (h : M.CanReach P s) (next : ∀ t, I t → P t → M.CanReach Q t) :
    M.CanReach Q s := by
  obtain ⟨es, t, hrun, ht⟩ := h
  obtain ⟨fs, u, hrun', hu⟩ := next t ((always_of_step keep es hs).last hrun) ht
  exact ⟨es ++ fs, u, by rw [run_append, hrun, Option.bind_some, hrun'], hu⟩

/-- What the next goal needs is part of the first one. -/
theorem CanReach.bind (h : M.CanReach P s) (next : ∀ t, P t → M.CanReach Q t) :
    M.CanReach Q s :=
  h.trans (I := fun _ => True) (fun _ _ _ _ _ => trivial) trivial fun t _ => next t

/-- What no step gives is not reached. -/
theorem not_canReach {I : σ → Prop} (keep : ∀ s e t, I s → M.step s e = some t → I t)
    (hs : I s) (apart : ∀ t, I t → ¬P t) : ¬M.CanReach P s := by
  intro ⟨es, t, hrun, ht⟩
  exact apart t ((always_of_step keep es hs).last hrun) ht

end CanReach

/-- What the steps of a run add up to. -/
def tally (M : Machine σ ε) (weight : σ → ε → ℕ) : σ → List ε → ℕ
  | _, [] => 0
  | s, e :: es => weight s e + ((M.step s e).map fun t => tally M weight t es).getD 0

theorem tally_cons {weight : σ → ε → ℕ} {s t : σ} {e : ε} {es : List ε}
    (h : M.step s e = some t) :
    M.tally weight s (e :: es) = weight s e + M.tally weight t es := by
  simp only [tally, h, Option.map_some, Option.getD_some]

/-- The rule of accounts. If every step from an invariant balances a potential, its
gains and its losses, then so does every run. -/
theorem run_balances {I : σ → Prop} {potential : σ → ℕ} {gain loss : σ → ε → ℕ}
    (keep : ∀ s e t, I s → M.step s e = some t → I t)
    (balance : ∀ s e t, I s → M.step s e = some t →
      potential t + loss s e = potential s + gain s e)
    {s t : σ} {es : List ε} (hs : I s) (h : M.run s es = some t) :
    potential t + M.tally loss s es = potential s + M.tally gain s es := by
  induction es generalizing s with
  | nil =>
      rw [run_nil, Option.some.injEq] at h
      rw [h, tally, tally]
  | cons e es ih =>
      obtain ⟨u, hu, hrest⟩ := (M.run_cons_eq_some).mp h
      have hstep := balance s e u hs hu
      have hlater := ih (keep s e u hs hu) hrest
      rw [tally_cons hu, tally_cons hu]
      omega

theorem tally_zero (s : σ) (es : List ε) : M.tally (fun _ _ => 0) s es = 0 := by
  induction es generalizing s with
  | nil => rfl
  | cons e es ih =>
      rw [tally]
      cases M.step s e with
      | none => rfl
      | some t => exact (Nat.zero_add _).trans (ih t)

/-- A potential that every step raises by its gain. -/
theorem run_gains {I : σ → Prop} {potential : σ → ℕ} {gain : σ → ε → ℕ}
    (keep : ∀ s e t, I s → M.step s e = some t → I t)
    (gains : ∀ s e t, I s → M.step s e = some t → potential t = potential s + gain s e)
    {s t : σ} {es : List ε} (hs : I s) (h : M.run s es = some t) :
    potential t = potential s + M.tally gain s es := by
  have hbalance : potential t + M.tally (fun _ _ => 0) s es =
      potential s + M.tally gain s es := run_balances keep gains hs h
  rwa [tally_zero, Nat.add_zero] at hbalance

/-- A weight that depends on the event alone counts the events. -/
theorem tally_eq_countP (p : ε → Bool) {s t : σ} {es : List ε} (h : M.run s es = some t) :
    M.tally (fun _ e => if p e then 1 else 0) s es = es.countP p := by
  induction es generalizing s with
  | nil => rfl
  | cons e es ih =>
      obtain ⟨u, hu, hrest⟩ := (M.run_cons_eq_some).mp h
      rw [tally_cons hu, ih hrest, List.countP_cons, Nat.add_comm]

/-- The machine that takes only those steps that meet `C`. -/
def under (M : Machine σ ε) (C : σ → ε → Prop) [∀ s e, Decidable (C s e)] : Machine σ ε where
  init := M.init
  step s e := if C s e then M.step s e else none

section Under
variable {C : σ → ε → Prop} [∀ s e, Decidable (C s e)]

@[simp] theorem under_init : (M.under C).init = M.init := rfl

theorem under_step {s t : σ} {e : ε} :
    (M.under C).step s e = some t ↔ C s e ∧ M.step s e = some t :=
  Option.ite_none_right_eq_some

/-- A run whose steps all meet `C` is a run of the restricted machine. -/
theorem run_under {s : σ} {es : List ε} (h : M.Meets C s es) :
    (M.under C).run s es = M.run s es := by
  induction es generalizing s with
  | nil => rfl
  | cons e es ih =>
      cases hstep : M.step s e with
      | none =>
          have hunder : (M.under C).step s e = none :=
            Option.eq_none_iff_forall_ne_some.mpr fun t ht => by
              rw [(under_step.mp ht).2] at hstep
              cases hstep
          simp only [run_cons, hstep, hunder, Option.bind_none]
      | some t =>
          have hunder : (M.under C).step s e = some t :=
            under_step.mpr ⟨((meets_cons hstep).mp h).1, hstep⟩
          simp only [run_cons, hstep, hunder, Option.bind_some]
          exact ih ((meets_cons hstep).mp h).2

end Under

/-- Repeating one event until it is no longer enabled leads to one state. -/
theorem run_replicate_final {s t u : σ} {e : ε} {m n : ℕ}
    (hm : M.run s (List.replicate m e) = some t) (ht : M.step t e = none)
    (hn : M.run s (List.replicate n e) = some u) (hu : M.step u e = none) : t = u := by
  induction m generalizing s n with
  | zero =>
      obtain rfl := Option.some.inj hm
      cases n with
      | zero => exact Option.some.inj hn
      | succ n =>
          obtain ⟨v, hv, -⟩ := (M.run_cons_eq_some).mp hn
          rw [ht] at hv
          cases hv
  | succ m ih =>
      obtain ⟨v, hv, hrest⟩ := (M.run_cons_eq_some).mp hm
      cases n with
      | zero =>
          obtain rfl := Option.some.inj hn
          rw [hu] at hv
          cases hv
      | succ n =>
          obtain ⟨w, hw, hrest'⟩ := (M.run_cons_eq_some).mp hn
          rw [hv, Option.some.injEq] at hw
          exact ih hrest (hw ▸ hrest')

/-- A relation that every step of one machine keeps by a step of another on the
same event relates the two machines after every run. -/
theorem run_simulates {N : Machine τ ε} {S : σ → τ → Prop}
    (hstep : ∀ s t e s', S s t → M.step s e = some s' → ∃ t', N.step t e = some t' ∧ S s' t')
    {s s' : σ} {t : τ} {es : List ε} (hS : S s t) (h : M.run s es = some s') :
    ∃ t', N.run t es = some t' ∧ S s' t' := by
  induction es generalizing s t with
  | nil =>
      rw [run_nil, Option.some.injEq] at h
      exact ⟨t, rfl, h ▸ hS⟩
  | cons e es ih =>
      obtain ⟨u, hu, hrest⟩ := (M.run_cons_eq_some).mp h
      obtain ⟨v, hv, hS⟩ := hstep s t e u hS hu
      obtain ⟨t', ht', hS'⟩ := ih hS hrest
      exact ⟨t', (N.run_cons_eq_some).mpr ⟨v, hv, ht'⟩, hS'⟩

end Machine

/-- A concrete machine refines an abstract one when each concrete step is the
abstract run of the events it maps to. `I` is an invariant of the concrete
machine that the correspondence may use. -/
structure Refinement (M : Machine σ ε) (N : Machine τ δ) where
  state : σ → τ
  events : σ → ε → List δ
  I : σ → Prop
  init_inv : I M.init
  step_inv : ∀ s e t, I s → M.step s e = some t → I t
  init_eq : state M.init = N.init
  step_run : ∀ s e t, I s → M.step s e = some t → N.run (state s) (events s e) = some (state t)

namespace Refinement
variable {M : Machine σ ε} {N : Machine τ δ} (R : Refinement M N)

theorem run_exists {s t : σ} {es : List ε} (hs : R.I s) (h : M.run s es = some t) :
    ∃ ds, N.run (R.state s) ds = some (R.state t) := by
  induction es generalizing s with
  | nil =>
      rw [Machine.run_nil, Option.some.injEq] at h
      exact ⟨[], by rw [h, Machine.run_nil]⟩
  | cons e es ih =>
      obtain ⟨u, hu, hrest⟩ := (M.run_cons_eq_some).mp h
      obtain ⟨ds, hds⟩ := ih (R.step_inv s e u hs hu) hrest
      refine ⟨R.events s e ++ ds, ?_⟩
      rw [Machine.run_append, R.step_run s e u hs hu]
      exact hds

/-- What holds of every reachable abstract state holds of the abstraction of
every reachable concrete state. -/
theorem reachable {t : σ} (h : M.Reachable t) : N.Reachable (R.state t) := by
  obtain ⟨es, hes⟩ := h
  obtain ⟨ds, hds⟩ := R.run_exists R.init_inv hes
  exact ⟨ds, by rw [← R.init_eq]; exact hds⟩

end Refinement

end ReliableSignalR.EventRuns
