import Mathlib.Data.List.Nodup
import Mathlib.Tactic.Common

/-!
# Tables with an identity column

A table is a list of rows in the order of insertion. Its key is an identity
column: the table draws it, later rows get larger keys, and an update leaves it
alone. Deletion is not part of the interface. The order and the freshness of the
keys are fields, so that every operation returns a table again.
-/
namespace ReliableSignalR.KeyedTable

structure Table (ρ : Type) (key : ρ → ℕ) where
  rows : List ρ
  next : ℕ
  sorted : rows.Pairwise fun q r => key q < key r
  below : ∀ r ∈ rows, key r < next

namespace Table
variable {ρ : Type} {key : ρ → ℕ}

def empty : Table ρ key := ⟨[], 1, List.Pairwise.nil, fun _ h => by cases h⟩

/-- Append the row built from the key that the table draws. -/
def insert (t : Table ρ key) (make : ℕ → ρ) (hkey : ∀ k, key (make k) = k) : Table ρ key where
  rows := t.rows ++ [make t.next]
  next := t.next + 1
  sorted := by
    refine List.pairwise_append.mpr ⟨t.sorted, List.pairwise_singleton _ _, ?_⟩
    intro q hq r hr
    rw [List.mem_singleton.mp hr, hkey]
    exact t.below q hq
  below := by
    intro r hr
    rcases List.mem_append.mp hr with hr | hr
    · exact Nat.lt_succ_of_lt (t.below r hr)
    · rw [List.mem_singleton.mp hr, hkey]
      exact Nat.lt_succ_self _

/-- Rewrite every row in place. -/
def update (t : Table ρ key) (f : ρ → ρ) (hkey : ∀ r, key (f r) = key r) : Table ρ key where
  rows := t.rows.map f
  next := t.next
  sorted := List.pairwise_map.mpr (t.sorted.imp fun {q r} h => by rwa [hkey, hkey])
  below := by
    intro r hr
    obtain ⟨q, hq, rfl⟩ := List.mem_map.mp hr
    rw [hkey]
    exact t.below q hq

/-- The first row, in the order of the key, that satisfies a predicate. -/
def first? (t : Table ρ key) (p : ρ → Bool) : Option ρ := t.rows.find? p

variable {t : Table ρ key} {make : ℕ → ρ} {f : ρ → ρ}

@[simp] theorem rows_insert (h : ∀ k, key (make k) = k) :
    (t.insert make h).rows = t.rows ++ [make t.next] := rfl

@[simp] theorem rows_update (h : ∀ r, key (f r) = key r) :
    (t.update f h).rows = t.rows.map f := rfl

theorem ext_rows {t u : Table ρ key} (hrows : t.rows = u.rows) (hnext : t.next = u.next) :
    t = u := by
  cases t
  cases u
  simp only at hrows hnext
  subst hrows hnext
  rfl

theorem keys_nodup (t : Table ρ key) : (t.rows.map key).Nodup :=
  List.pairwise_map.mpr (t.sorted.imp fun h => Nat.ne_of_lt h)

theorem eq_of_key_eq {q r : ρ} (hq : q ∈ t.rows) (hr : r ∈ t.rows) (h : key q = key r) :
    q = r :=
  List.inj_on_of_nodup_map t.keys_nodup hq hr h

theorem mem_of_first? {p : ρ → Bool} {r : ρ} (h : t.first? p = some r) :
    r ∈ t.rows ∧ p r = true :=
  ⟨List.mem_of_find?_eq_some h, List.find?_some h⟩

theorem exists_first? {p : ρ → Bool} {r : ρ} (hr : r ∈ t.rows) (hp : p r = true) :
    ∃ q, t.first? p = some q := by
  have hsome : (t.first? p).isSome = true := List.find?_isSome.mpr ⟨r, hr, hp⟩
  exact Option.isSome_iff_exists.mp hsome

theorem first?_update {p : ρ → Bool} (hp : ∀ r, p (f r) = p r)
    (h : ∀ r, key (f r) = key r) : (t.update f h).first? p = (t.first? p).map f := by
  rw [first?, rows_update, List.find?_map]
  congr 2
  funext r
  exact hp r

end Table

end ReliableSignalR.KeyedTable
