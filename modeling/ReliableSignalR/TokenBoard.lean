import Mathlib.Logic.Relation
import Mathlib.Logic.Function.Basic
import Mathlib.Data.List.Nodup
import Mathlib.Data.List.Perm.Basic
import ReliableSignalR.EventRuns

/-!
# Tokens on a board of places

A board says of every token at which place it is, if it is on the board at all.
A token is minted at one place and from then on moves along the edges of a
relation, so that it is never lost, never at two places, and can only come to
where the edges lead.

`Represents` compares a board with lists of tokens, one for each place. It is
the invariant by which a system of queues refines a board: every token is in the
list of its place once and in no other list. `Transfer` is what a step does to the
lists that takes one token from a place to another; it keeps their total content.
-/
namespace ReliableSignalR.TokenBoard
open EventRuns

variable {κ π : Type*}

abbrev Board (κ π : Type*) := κ → Option π

inductive BoardEvent (κ π : Type*)
  | minted (k : κ)
  | moved (k : κ) (q : π)

section Boards
variable [DecidableEq κ] (start : π) (edge : π → π → Prop) [DecidableRel edge]

def step (b : Board κ π) : BoardEvent κ π → Option (Board κ π)
  | .minted k => if (b k).isNone then some (Function.update b k (some start)) else none
  | .moved k q =>
      match b k with
      | none => none
      | some p => if edge p q then some (Function.update b k (some q)) else none

def board : Machine (Board κ π) (BoardEvent κ π) where
  init := fun _ => none
  step := step start edge

variable {start} {edge} {b b' : Board κ π} {k : κ}

theorem step_minted (h : b k = none) :
    (board start edge).step b (.minted k) = some (Function.update b k (some start)) := by
  simp [board, step, h]

theorem step_moved {p q : π} (h : b k = some p) (hedge : edge p q) :
    (board start edge).step b (.moved k q) = some (Function.update b k (some q)) := by
  simp [board, step, h, hedge]

/-- A step brings one token along: it was minted just now, or it took an edge. -/
theorem step_place {e : BoardEvent κ π} (hstep : step start edge b e = some b') {p : π}
    (hp : b k = some p) : b' k = some p ∨ ∃ q, edge p q ∧ b' k = some q := by
  cases e with
  | minted j =>
      obtain ⟨hnone, rfl⟩ := guarded hstep
      have hne : k ≠ j := by
        rintro rfl
        rw [hp] at hnone
        cases hnone
      left
      rw [Function.update_of_ne hne]
      exact hp
  | moved j q =>
      simp only [step] at hstep
      split at hstep
      · cases hstep
      · next r hr =>
        obtain ⟨hedge, rfl⟩ := guarded hstep
        by_cases hk : k = j
        · subst hk
          obtain rfl := Option.some.inj (hr.symm.trans hp)
          exact Or.inr ⟨q, hedge, Function.update_self ..⟩
        · left
          rw [Function.update_of_ne hk]
          exact hp

/-- A token on the board stays on the board, at a place to which the edges lead. -/
theorem run_place {es : List (BoardEvent κ π)} (hrun : (board start edge).run b es = some b')
    {p : π} (hp : b k = some p) : ∃ q, b' k = some q ∧ Relation.ReflTransGen edge p q := by
  induction es generalizing b p with
  | nil =>
      obtain rfl := Option.some.inj hrun
      exact ⟨p, hp, .refl⟩
  | cons e es ih =>
      obtain ⟨c, hc, hrest⟩ := (Machine.run_cons_eq_some _).mp hrun
      rcases step_place hc hp with hstay | ⟨q, hedge, hq⟩
      · exact ih hrest hstay
      · obtain ⟨r, hr, hpath⟩ := ih hrest hq
        exact ⟨r, hr, .head hedge hpath⟩

end Boards

/-- Along edges that raise a rank, a token does not come back to a place that it left. -/
theorem rank_lt_of_path {edge : π → π → Prop} {rank : π → ℕ}
    (hrank : ∀ p q, edge p q → rank p < rank q) {p q : π}
    (hpath : Relation.ReflTransGen edge p q) : p = q ∨ rank p < rank q := by
  induction hpath with
  | refl => exact Or.inl rfl
  | tail _ hedge ih =>
      right
      rcases ih with rfl | hlt
      · exact hrank _ _ hedge
      · exact Nat.lt_trans hlt (hrank _ _ hedge)

theorem perm_take {α : Type*} {xs : List α} {position : ℕ} {x : α} (f : α → κ)
    (hx : xs[position]? = some x) :
    (xs.map f).Perm (f x :: (xs.eraseIdx position).map f) := by
  obtain ⟨hlt, rfl⟩ := List.getElem?_eq_some_iff.mp hx
  exact (List.getElem_cons_eraseIdx_perm hlt).symm.map f

theorem perm_put {α : Type*} (xs : List α) (x : α) (f : α → κ) :
    ((xs ++ [x]).map f).Perm (f x :: xs.map f) :=
  (List.perm_append_singleton x xs).map f

/-- One token is taken from the list of a place and put into that of another. -/
structure Transfer (lists lists' : π → List κ) (k : κ) (p q : π) : Prop where
  taken : (lists p).Perm (k :: lists' p)
  put : (lists' q).Perm (k :: lists q)
  rest : ∀ r, r ≠ p → r ≠ q → (lists' r).Perm (lists r)

namespace Transfer
variable {lists lists' : π → List κ} {k : κ} {p q : π}

theorem filter_of_pos (h : Transfer lists lists' k p q) {keep : κ → Bool} (hk : keep k = true) :
    Transfer (fun r => (lists r).filter keep) (fun r => (lists' r).filter keep) k p q where
  taken := by
    rw [← List.filter_cons_of_pos hk]
    exact h.taken.filter keep
  put := by
    rw [← List.filter_cons_of_pos hk]
    exact h.put.filter keep
  rest r hp hq := (h.rest r hp hq).filter keep

/-- A token that does not count moves without a trace. -/
theorem filter_of_neg (h : Transfer lists lists' k p q) {keep : κ → Bool} (hk : ¬keep k = true)
    (r : π) : ((lists' r).filter keep).Perm ((lists r).filter keep) := by
  by_cases hp : r = p
  · subst hp
    rw [← List.filter_cons_of_neg hk]
    exact (h.taken.filter keep).symm
  · by_cases hq : r = q
    · subst hq
      rw [← List.filter_cons_of_neg (l := lists r) hk]
      exact h.put.filter keep
    · exact (h.rest r hp hq).filter keep

theorem total [DecidableEq π] (h : Transfer lists lists' k p q) (hne : p ≠ q) {places : List π}
    (hnodup : places.Nodup) (hp : p ∈ places) (hq : q ∈ places) :
    (places.flatMap lists').Perm (places.flatMap lists) := by
  have hqp : q ∈ places.erase p := (List.mem_erase_of_ne hne.symm).mpr hq
  have hplaces : places.Perm (p :: q :: (places.erase p).erase q) :=
    (List.perm_cons_erase hp).trans ((List.perm_cons_erase hqp).cons p)
  have hothers : ∀ r ∈ (places.erase p).erase q, (lists' r).Perm (lists r) := by
    intro r hr
    have hrest := (hnodup.erase p).mem_erase_iff.mp hr
    exact h.rest r (hnodup.mem_erase_iff.mp hrest.2).1 hrest.1
  have hrest : (((places.erase p).erase q).flatMap lists').Perm
      (((places.erase p).erase q).flatMap lists) := List.Perm.flatMap_left _ hothers
  refine (hplaces.flatMap_right lists').trans
    (List.Perm.trans ?_ (hplaces.flatMap_right lists).symm)
  simp only [List.flatMap_cons]
  calc
    List.Perm (lists' p ++ (lists' q ++ ((places.erase p).erase q).flatMap lists'))
        (lists' p ++ (k :: lists q ++ ((places.erase p).erase q).flatMap lists)) :=
      (h.put.append hrest).append_left (lists' p)
    List.Perm _ (k :: lists' p ++ (lists q ++ ((places.erase p).erase q).flatMap lists)) :=
      List.perm_middle
    List.Perm _ (lists p ++ (lists q ++ ((places.erase p).erase q).flatMap lists)) :=
      h.taken.symm.append_right _

end Transfer

/-- Each token is in the list of its place, once, and in no other. -/
structure Represents (lists : π → List κ) (b : Board κ π) : Prop where
  mem : ∀ p k, k ∈ lists p ↔ b k = some p
  nodup : ∀ p, (lists p).Nodup

namespace Represents
variable {lists lists' : π → List κ} {b : Board κ π} {k : κ}

theorem empty (h : ∀ p, lists p = []) : Represents lists fun _ => none := by
  constructor
  · intro p k
    simp [h p]
  · intro p
    rw [h p]
    exact List.nodup_nil

theorem perm (h : Represents lists b) (hperm : ∀ p, (lists' p).Perm (lists p)) :
    Represents lists' b where
  mem p k := (hperm p).mem_iff.trans (h.mem p k)
  nodup p := (hperm p).nodup_iff.mpr (h.nodup p)

variable [DecidableEq κ]

theorem mint (h : Represents lists b) {start : π} (hnew : b k = none)
    (hstart : (lists' start).Perm (k :: lists start))
    (hrest : ∀ p, p ≠ start → (lists' p).Perm (lists p)) :
    Represents lists' (Function.update b k (some start)) := by
  have habsent : ∀ p, k ∉ lists p := by
    intro p hmem
    have hsome := (h.mem p k).mp hmem
    rw [hnew] at hsome
    cases hsome
  constructor
  · intro p j
    by_cases hj : j = k
    · subst hj
      rw [Function.update_self, Option.some.injEq]
      by_cases hp : p = start
      · subst hp
        exact iff_of_true (hstart.mem_iff.mpr List.mem_cons_self) rfl
      · exact iff_of_false (fun hmem => habsent p ((hrest p hp).mem_iff.mp hmem)) (Ne.symm hp)
    · rw [Function.update_of_ne hj, ← h.mem p j]
      by_cases hp : p = start
      · subst hp
        rw [hstart.mem_iff, List.mem_cons]
        exact or_iff_right hj
      · exact (hrest p hp).mem_iff
  · intro p
    by_cases hp : p = start
    · subst hp
      exact hstart.nodup_iff.mpr (List.nodup_cons.mpr ⟨habsent p, h.nodup p⟩)
    · exact (hrest p hp).nodup_iff.mpr (h.nodup p)

/-- A transfer of a token moves it on the board. -/
theorem move (h : Represents lists b) {p q : π} (hne : p ≠ q)
    (htransfer : Transfer lists lists' k p q) :
    b k = some p ∧ Represents lists' (Function.update b k (some q)) := by
  obtain ⟨hfrom, hto, hrest⟩ := htransfer
  have hplace : b k = some p := (h.mem p k).mp (hfrom.mem_iff.mpr List.mem_cons_self)
  have htaken : k ∉ lists' p ∧ (lists' p).Nodup :=
    List.nodup_cons.mp (hfrom.nodup_iff.mp (h.nodup p))
  have habsent : ∀ r, r ≠ p → k ∉ lists r := by
    intro r hr hmem
    exact hr (Option.some.inj (((h.mem r k).mp hmem).symm.trans hplace))
  refine ⟨hplace, ?_, ?_⟩
  · intro r j
    by_cases hj : j = k
    · subst hj
      rw [Function.update_self, Option.some.injEq]
      by_cases hr : r = q
      · subst hr
        exact iff_of_true (hto.mem_iff.mpr List.mem_cons_self) rfl
      · refine iff_of_false (fun hmem => ?_) (Ne.symm hr)
        by_cases hp : r = p
        · exact htaken.1 (hp ▸ hmem)
        · exact habsent r hp ((hrest r hp hr).mem_iff.mp hmem)
    · rw [Function.update_of_ne hj, ← h.mem r j]
      by_cases hp : r = p
      · subst hp
        rw [hfrom.mem_iff, List.mem_cons]
        exact (or_iff_right hj).symm
      · by_cases hr : r = q
        · subst hr
          rw [hto.mem_iff, List.mem_cons]
          exact or_iff_right hj
        · exact (hrest r hp hr).mem_iff
  · intro r
    by_cases hp : r = p
    · exact hp ▸ htaken.2
    · by_cases hr : r = q
      · subst hr
        exact hto.nodup_iff.mpr (List.nodup_cons.mpr ⟨habsent r hp, h.nodup r⟩)
      · exact (hrest r hp hr).nodup_iff.mpr (h.nodup r)

/-- The board that the lists describe, by the first list that holds the token. -/
def locate (places : List π) (lists : π → List κ) : Board κ π :=
  fun k => places.find? fun p => decide (k ∈ lists p)

theorem locate_eq (h : Represents lists b) {places : List π} (hplaces : ∀ p, p ∈ places) :
    locate places lists = b := by
  funext k
  unfold locate
  cases hb : b k with
  | none =>
      apply List.find?_eq_none.mpr
      intro p _ hmem
      have hsome := (h.mem p k).mp (of_decide_eq_true hmem)
      rw [hb] at hsome
      cases hsome
  | some p =>
      have hmem : k ∈ lists p := (h.mem p k).mpr hb
      cases hfind : places.find? fun p => decide (k ∈ lists p) with
      | none =>
          exact absurd (decide_eq_true hmem) (List.find?_eq_none.mp hfind p (hplaces p))
      | some q =>
          have hfound := List.find?_some hfind
          have hq : k ∈ lists q := of_decide_eq_true hfound
          exact ((h.mem q k).mp hq).symm.trans hb

end Represents

end ReliableSignalR.TokenBoard
