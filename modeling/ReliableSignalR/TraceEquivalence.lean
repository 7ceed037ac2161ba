import Mathlib.Logic.Relation
import Mathlib.Data.List.Basic
import Mathlib.Tactic.Common

/-!
# Words up to the order of independent letters

Each letter concerns one or more keys, and two letters are independent if no key
is concerned by both. Two words with the same projection onto every key differ
only by exchanges of adjacent independent letters. A step function that respects
an equivalence of states, and whose independent letters commute up to it, takes
such words from equivalent states to equivalent states.
-/
namespace ReliableSignalR.TraceEquivalence

variable {α κ σ : Type*}

section Words
variable (concerns : κ → α → Bool)

def Independent (a b : α) : Prop := ∀ k, ¬(concerns k a = true ∧ concerns k b = true)

def SameProjections (u v : List α) : Prop := ∀ k, u.filter (concerns k) = v.filter (concerns k)

inductive Exchange : List α → List α → Prop
  | swap (u v : List α) (a b : α) (h : Independent concerns a b) :
      Exchange (u ++ a :: b :: v) (u ++ b :: a :: v)

def Equivalent : List α → List α → Prop := Relation.ReflTransGen (Exchange concerns)

variable {concerns}

theorem Independent.symm {a b : α} (h : Independent concerns a b) : Independent concerns b a :=
  fun k hk => h k ⟨hk.2, hk.1⟩

theorem Exchange.cons {u v : List α} (h : Exchange concerns u v) (a : α) :
    Exchange concerns (a :: u) (a :: v) := by
  cases h with
  | swap u v b c h => exact Exchange.swap (a :: u) v b c h

theorem Equivalent.cons {u v : List α} (h : Equivalent concerns u v) (a : α) :
    Equivalent concerns (a :: u) (a :: v) :=
  Relation.ReflTransGen.lift (fun w => a :: w) (fun _ _ hw => Exchange.cons hw a) u v h

/-- A letter moves to the front past letters that are independent of it. -/
theorem equivalent_to_front {a : α} {p q : List α} (h : ∀ b ∈ p, Independent concerns a b) :
    Equivalent concerns (a :: (p ++ q)) (p ++ a :: q) := by
  induction p with
  | nil => exact Relation.ReflTransGen.refl
  | cons b p ih =>
      have hexchange : Exchange concerns (a :: b :: (p ++ q)) (b :: a :: (p ++ q)) :=
        Exchange.swap [] (p ++ q) a b (h b List.mem_cons_self)
      have hrest := ih fun c hc => h c (List.mem_cons_of_mem b hc)
      exact Relation.ReflTransGen.head hexchange (hrest.cons b)

/-- Before its first occurrence in one word, the first letter of the other one
meets independent letters only. -/
theorem independent_before {a : α} {u p q : List α} (hnotin : a ∉ p)
    (h : SameProjections concerns (a :: u) (p ++ a :: q)) :
    ∀ b ∈ p, Independent concerns a b := by
  intro b hb k hk
  have hproj := h k
  rw [List.filter_append, List.filter_cons_of_pos hk.1] at hproj
  have hbin : b ∈ p.filter (concerns k) := List.mem_filter.mpr ⟨hb, hk.2⟩
  cases hp : p.filter (concerns k) with
  | nil =>
      rw [hp] at hbin
      cases hbin
  | cons c cs =>
      rw [hp, List.cons_append, List.cons.injEq] at hproj
      have hc : c ∈ p.filter (concerns k) := by
        rw [hp]
        exact List.mem_cons_self
      exact hnotin (hproj.1 ▸ (List.mem_filter.mp hc).1)

theorem sameProjections_rest {a : α} {u p q : List α}
    (hp : ∀ b ∈ p, Independent concerns a b)
    (h : SameProjections concerns (a :: u) (p ++ a :: q)) :
    SameProjections concerns u (p ++ q) := by
  intro k
  have hproj := h k
  rw [List.filter_append] at hproj ⊢
  by_cases hk : concerns k a = true
  · have hnil : p.filter (concerns k) = [] :=
      List.filter_eq_nil_iff.mpr fun b hb hkb => hp b hb k ⟨hk, hkb⟩
    rw [hnil, List.filter_cons_of_pos hk, List.nil_append, List.filter_cons_of_pos hk,
      List.cons.injEq] at hproj
    rw [hnil, List.nil_append]
    exact hproj.2
  · rw [List.filter_cons_of_neg hk, List.filter_cons_of_neg hk] at hproj
    exact hproj

/-- Words over letters that each concern some key are equivalent if their
projections agree. -/
theorem equivalent_of_sameProjections (covers : ∀ a, ∃ k, concerns k a = true) {u v : List α}
    (h : SameProjections concerns u v) : Equivalent concerns u v := by
  induction u generalizing v with
  | nil =>
      cases v with
      | nil => exact Relation.ReflTransGen.refl
      | cons b v =>
          obtain ⟨k, hk⟩ := covers b
          have hproj := h k
          rw [List.filter_cons_of_pos hk] at hproj
          cases hproj
  | cons a u ih =>
      obtain ⟨k, hk⟩ := covers a
      have hmem : a ∈ v.filter (concerns k) := by
        rw [← h k, List.filter_cons_of_pos hk]
        exact List.mem_cons_self
      obtain ⟨p, q, rfl, hnotin⟩ := List.eq_append_cons_of_mem (List.mem_filter.mp hmem).1
      have hp := independent_before hnotin h
      have hrest := ih (sameProjections_rest hp h)
      exact (hrest.cons a).trans (equivalent_to_front hp)

end Words

/-- What a step function has to satisfy for the order of independent letters not
to matter: it respects an equivalence of states, up to which they commute. -/
structure Commutes (concerns : κ → α → Bool) (step : σ → α → σ) (R : σ → σ → Prop) : Prop where
  equivalence : Equivalence R
  respects : ∀ s t a, R s t → R (step s a) (step t a)
  commute : ∀ s a b, Independent concerns a b → R (step (step s a) b) (step (step s b) a)

namespace Commutes
variable {concerns : κ → α → Bool} {step : σ → α → σ} {R : σ → σ → Prop}

theorem respects_word (h : Commutes concerns step R) (w : List α) {s t : σ} (hst : R s t) :
    R (w.foldl step s) (w.foldl step t) := by
  induction w generalizing s t with
  | nil => exact hst
  | cons a w ih => exact ih (h.respects s t a hst)

theorem exchange (h : Commutes concerns step R) {u v : List α} (huv : Exchange concerns u v)
    (s : σ) : R (u.foldl step s) (v.foldl step s) := by
  cases huv with
  | swap u v a b hab =>
      rw [List.foldl_append, List.foldl_append]
      exact h.respects_word v (h.commute (u.foldl step s) a b hab)

theorem equivalent (h : Commutes concerns step R) {u v : List α} (huv : Equivalent concerns u v)
    (s : σ) : R (u.foldl step s) (v.foldl step s) := by
  induction huv with
  | refl => exact h.equivalence.refl _
  | tail _ hlast ih => exact h.equivalence.trans ih (h.exchange hlast s)

theorem sameProjections (h : Commutes concerns step R)
    (covers : ∀ a, ∃ k, concerns k a = true) {u v : List α}
    (huv : SameProjections concerns u v) (s : σ) : R (u.foldl step s) (v.foldl step s) :=
  h.equivalent (equivalent_of_sameProjections covers huv) s

end Commutes

end ReliableSignalR.TraceEquivalence
