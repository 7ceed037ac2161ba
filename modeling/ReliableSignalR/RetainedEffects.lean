import Mathlib.Data.List.Basic
import Mathlib.Tactic.Common

/-!
# Bodies whose effects survive their exceptions

A callback or message handler that throws keeps whatever it has already done to
the shared state. Such a body is a state transformer under an exception: the
final state is returned with a result and with an exception alike.

`Frame` is a reflexive and transitive relation between the states before and
after; a body keeps a frame when the relation holds of every outcome. Frames
compose through sequencing and through loops over arbitrary lists. The same rules
hold for two executions of one body that start from related states.
-/
namespace ReliableSignalR.RetainedEffects

variable {ε σ α β : Type}

abbrev Body (ε σ : Type) := ExceptT ε (StateM σ)

/-- The outcome of a body together with the state it leaves behind. -/
def exec (b : Body ε σ α) (s : σ) : Except ε α × σ := b.run.run s

@[simp] theorem exec_pure (a : α) (s : σ) :
    exec (pure a : Body ε σ α) s = (.ok a, s) := rfl

@[simp] theorem exec_throw (e : ε) (s : σ) :
    exec (throw e : Body ε σ α) s = (.error e, s) := rfl

@[simp] theorem exec_get (s : σ) : exec (get : Body ε σ σ) s = (.ok s, s) := rfl

@[simp] theorem exec_modify (f : σ → σ) (s : σ) :
    exec (modify f : Body ε σ PUnit) s = (.ok ⟨⟩, f s) := rfl

theorem exec_bind (x : Body ε σ α) (f : α → Body ε σ β) (s : σ) :
    exec (x >>= f) s =
      match exec x s with
      | (.ok a, t) => exec (f a) t
      | (.error e, t) => (.error e, t) := by
  simp only [exec, ExceptT.run_bind, StateT.run_bind]
  rcases x.run.run s with ⟨a | a, t⟩ <;> rfl

/-- A sequence returns exactly when both of its parts do. -/
theorem exec_bind_eq_ok {x : Body ε σ α} {f : α → Body ε σ β} {s u : σ} {b : β} :
    exec (x >>= f) s = (.ok b, u) ↔
      ∃ a t, exec x s = (.ok a, t) ∧ exec (f a) t = (.ok b, u) := by
  rw [exec_bind]
  rcases h : exec x s with ⟨e | a, t⟩
  · simp
  · constructor
    · exact fun hf => ⟨a, t, rfl, hf⟩
    · rintro ⟨a', t', hx, hf⟩
      obtain ⟨rfl, rfl⟩ : a = a' ∧ t = t' := by simpa using hx
      exact hf

/-- A property of the state that a sequence leaves behind: its first part throws,
or the second part starts where the first one returned. -/
theorem exec_bind_state {P : σ → Prop} {x : Body ε σ α} {f : α → Body ε σ β} {s : σ}
    (hthrow : ∀ e t, exec x s = (.error e, t) → P t)
    (hreturn : ∀ a t, exec x s = (.ok a, t) → P (exec (f a) t).2) :
    P (exec (x >>= f) s).2 := by
  rw [exec_bind]
  rcases h : exec x s with ⟨e | a, t⟩
  · exact hthrow e t h
  · exact hreturn a t h

/-- An external call: it returns the given value or raises the given exception. -/
def call (result : Except ε α) : Body ε σ α := ExceptT.mk (pure result)

@[simp] theorem exec_call (result : Except ε α) (s : σ) :
    exec (call result : Body ε σ α) s = (result, s) := rfl

/-- The loop `foreach`: it stops at the first exception. The counter only
names the iteration, so that an environment can fail in a chosen one. -/
def forEach (body : ℕ → α → Body ε σ Unit) : ℕ → List α → Body ε σ Unit
  | _, [] => pure ()
  | i, a :: as => do
      body i a
      forEach body (i + 1) as

/-- A loop that returns has applied the effect of each of its iterations. -/
theorem forEach_ok {body : ℕ → α → Body ε σ Unit} {f : σ → α → σ}
    (h : ∀ i a s t, exec (body i a) s = (.ok (), t) → t = f s a)
    {i : ℕ} {as : List α} {s t : σ} (hexec : exec (forEach body i as) s = (.ok (), t)) :
    t = as.foldl f s := by
  induction as generalizing i s with
  | nil =>
      rw [forEach, exec_pure, Prod.mk.injEq] at hexec
      exact hexec.2.symm
  | cons a as ih =>
      rw [forEach, exec_bind_eq_ok] at hexec
      obtain ⟨_, u, hbody, hrest⟩ := hexec
      rw [List.foldl_cons, ← h i a s u hbody]
      exact ih hrest

/-- From this state the body returns. -/
def Returns (b : Body ε σ α) (s : σ) : Prop := ∃ a t, exec b s = (.ok a, t)

section Returns
variable {s : σ}

theorem not_returns {b : Body ε σ α} : ¬Returns b s ↔ ∃ e t, exec b s = (.error e, t) := by
  unfold Returns
  rcases exec b s with ⟨e | a, t⟩
  · simp
  · simp

theorem returns_bind {x : Body ε σ α} {f : α → Body ε σ β} :
    Returns (x >>= f) s ↔ ∃ a t, exec x s = (.ok a, t) ∧ Returns (f a) t := by
  constructor
  · intro ⟨b, u, h⟩
    obtain ⟨a, t, hx, hf⟩ := exec_bind_eq_ok.mp h
    exact ⟨a, t, hx, b, u, hf⟩
  · intro ⟨a, t, hx, b, u, hf⟩
    exact ⟨b, u, exec_bind_eq_ok.mpr ⟨a, t, hx, hf⟩⟩

/-- A loop returns exactly if each of its iterations does. From a state with the
invariant `I`, which iterations keep, `C` says whether an iteration returns. -/
theorem returns_forEach {I : σ → Prop} {C : ℕ → α → Prop} {body : ℕ → α → Body ε σ Unit}
    (hreturns : ∀ i a s, I s → (Returns (body i a) s ↔ C i a))
    (hkeep : ∀ i a s t, I s → exec (body i a) s = (.ok (), t) → I t)
    {i : ℕ} (as : List α) (hs : I s) :
    Returns (forEach body i as) s ↔ ∀ j a, as[j]? = some a → C (i + j) a := by
  induction as generalizing i s with
  | nil => exact ⟨fun _ j a hj => by simp at hj, fun _ => ⟨(), s, rfl⟩⟩
  | cons a as ih =>
      rw [forEach, returns_bind]
      constructor
      · intro ⟨_, t, hbody, hrest⟩ j b hj
        cases j with
        | zero =>
            obtain rfl : a = b := by simpa using hj
            exact (hreturns i a s hs).mp ⟨(), t, hbody⟩
        | succ j =>
            have hC := (ih (hkeep i a s t hs hbody)).mp hrest j b (by simpa using hj)
            rwa [Nat.add_right_comm] at hC
      · intro h
        obtain ⟨_, t, hbody⟩ := (hreturns i a s hs).mpr (h 0 a rfl)
        refine ⟨(), t, hbody, (ih (hkeep i a s t hs hbody)).mpr fun j b hj => ?_⟩
        rw [Nat.add_right_comm]
        exact h (j + 1) b (by simpa using hj)

end Returns

/-- A relation between the states before and after that survives composition. -/
structure Frame (σ : Type) where
  rel : σ → σ → Prop
  refl : ∀ s, rel s s
  trans : ∀ s t u, rel s t → rel t u → rel s u

/-- The part of the state that a projection shows is left as it was. -/
def Frame.unchanged {τ : Type} (f : σ → τ) : Frame σ where
  rel s t := f t = f s
  refl _ := rfl
  trans _ _ _ h k := k.trans h

/-- The frame relates the state `s` to the one that the body leaves behind. -/
def KeepsAt (F : Frame σ) (b : Body ε σ α) (s : σ) : Prop := F.rel s (exec b s).2

def Keeps (F : Frame σ) (b : Body ε σ α) : Prop := ∀ s, KeepsAt F b s

section Keeps
variable {F : Frame σ}

theorem keeps_pure (a : α) : Keeps F (pure a : Body ε σ α) := fun s => F.refl s

theorem keeps_call (result : Except ε α) : Keeps F (call result : Body ε σ α) :=
  fun s => F.refl s

theorem keeps_modify {f : σ → σ} (h : ∀ s, F.rel s (f s)) :
    Keeps F (modify f : Body ε σ PUnit) := h

/-- The second part starts from a value and a state that the first returned. -/
theorem keepsAt_bind {x : Body ε σ α} {f : α → Body ε σ β} {s : σ} (hx : KeepsAt F x s)
    (hf : ∀ a t, exec x s = (.ok a, t) → KeepsAt F (f a) t) : KeepsAt F (x >>= f) s := by
  unfold KeepsAt at hx ⊢
  apply exec_bind_state
  · intro e t h
    simpa only [h] using hx
  · intro a t h
    rw [h] at hx
    exact F.trans _ _ _ hx (hf a t h)

theorem keeps_bind {x : Body ε σ α} {f : α → Body ε σ β} (hx : Keeps F x)
    (hf : ∀ a, Keeps F (f a)) : Keeps F (x >>= f) :=
  fun s => keepsAt_bind (hx s) fun a t _ => hf a t

theorem keeps_forEach {body : ℕ → α → Body ε σ Unit} {as : List α}
    (h : ∀ i, ∀ a ∈ as, Keeps F (body i a)) (i : ℕ) : Keeps F (forEach body i as) := by
  induction as generalizing i with
  | nil => exact keeps_pure ()
  | cons a as ih =>
      exact keeps_bind (h i a List.mem_cons_self) fun _ =>
        ih (fun j b hb => h j b (List.mem_cons_of_mem a hb)) (i + 1)

end Keeps

/-- From the states `s` and `t` the body has one outcome, and the states that it
leaves behind are related. -/
def RespectsAt (R : σ → σ → Prop) (b : Body ε σ α) (s t : σ) : Prop :=
  (exec b s).1 = (exec b t).1 ∧ R (exec b s).2 (exec b t).2

def Respects (R : σ → σ → Prop) (b : Body ε σ α) : Prop := ∀ s t, R s t → RespectsAt R b s t

section Respects
variable {R : σ → σ → Prop}

theorem respects_pure (a : α) : Respects R (pure a : Body ε σ α) := fun _ _ h => ⟨rfl, h⟩

theorem respects_call (result : Except ε α) : Respects R (call result : Body ε σ α) :=
  fun _ _ h => ⟨rfl, h⟩

theorem respects_modify {f : σ → σ} (h : ∀ s t, R s t → R (f s) (f t)) :
    Respects R (modify f : Body ε σ PUnit) :=
  fun s t hst => ⟨rfl, h s t hst⟩

/-- What is read of the state is the same in related states. -/
theorem respects_read {τ : Type} {g : σ → τ} {f : τ → Body ε σ β}
    (hg : ∀ s t, R s t → g s = g t) (hf : ∀ a, Respects R (f a)) :
    Respects R (get >>= fun s => f (g s)) := by
  intro s t hst
  unfold RespectsAt
  rw [exec_bind, exec_bind, exec_get, exec_get]
  simp only
  rw [hg s t hst]
  exact hf (g t) s t hst

/-- The second parts start from the same value and from related states. -/
theorem respectsAt_bind {x : Body ε σ α} {f : α → Body ε σ β} {s t : σ}
    (hx : RespectsAt R x s t)
    (hf : ∀ a u v, exec x s = (.ok a, u) → exec x t = (.ok a, v) → R u v →
      RespectsAt R (f a) u v) : RespectsAt R (x >>= f) s t := by
  unfold RespectsAt at hx ⊢
  rw [exec_bind, exec_bind]
  rcases hs : exec x s with ⟨o, u⟩
  rcases ht : exec x t with ⟨p, v⟩
  rw [hs, ht] at hx
  obtain ⟨rfl, huv⟩ := hx
  cases o with
  | error e => exact ⟨rfl, huv⟩
  | ok a => exact hf a u v hs ht huv

theorem respects_bind {x : Body ε σ α} {f : α → Body ε σ β} (hx : Respects R x)
    (hf : ∀ a, Respects R (f a)) : Respects R (x >>= f) :=
  fun s t hst => respectsAt_bind (hx s t hst) fun a u v _ _ huv => hf a u v huv

theorem respects_forEach {body : ℕ → α → Body ε σ Unit} {as : List α}
    (h : ∀ i, ∀ a ∈ as, Respects R (body i a)) (i : ℕ) : Respects R (forEach body i as) := by
  induction as generalizing i with
  | nil => exact respects_pure ()
  | cons a as ih =>
      exact respects_bind (h i a List.mem_cons_self) fun _ =>
        ih (fun j b hb => h j b (List.mem_cons_of_mem a hb)) (i + 1)

end Respects

end ReliableSignalR.RetainedEffects
