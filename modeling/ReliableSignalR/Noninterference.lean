import ReliableSignalR.EventRuns

/-!
# Noninterference by unwinding

Some events are acts of a party that an observer must not notice. `alike` relates
states that the observer cannot tell apart. The party's acts are unseen if they
stay within that relation, and every other event, taken in two alike states,
leads to alike states again. Then the acts can be purged from a run, and two runs
that differ in nothing but the acts look the same to the observer.

The acts may be subject to a condition `C` on their event and the state before.
-/
namespace ReliableSignalR.Noninterference
open EventRuns

variable {σ ε υ : Type*}

structure Unwinding (M : Machine σ ε) (acts : ε → Bool) (C : σ → ε → Prop) where
  I : σ → Prop
  alike : σ → σ → Prop
  keep : ∀ s e t, I s → M.step s e = some t → I t
  unseen : ∀ s e t u, I s → acts e = true → C s e → M.step s e = some t →
    alike s u → alike t u
  matched : ∀ s e t u, I s → I u → acts e = false → M.step s e = some t → alike s u →
    ∃ v, M.step u e = some v ∧ alike t v

/-- The events that are not acts of the party. -/
def purge (acts : ε → Bool) (es : List ε) : List ε := es.filter fun e => !acts e

namespace Unwinding
variable {M : Machine σ ε} {acts : ε → Bool} {C : σ → ε → Prop} (W : Unwinding M acts C)
include W

/-- The purged run is possible from every alike state and ends in an alike one. -/
theorem purge_run {s t u : σ} {es : List ε} (hs : W.I s) (hu : W.I u) (halike : W.alike s u)
    (hC : M.Meets C s es) (hrun : M.run s es = some t) :
    ∃ v, M.run u (purge acts es) = some v ∧ W.alike t v := by
  induction es generalizing s u with
  | nil =>
      obtain rfl := Option.some.inj hrun
      exact ⟨u, rfl, halike⟩
  | cons e es ih =>
      obtain ⟨r, hr, hrest⟩ := (M.run_cons_eq_some).mp hrun
      have hkept := W.keep s e r hs hr
      obtain ⟨hact, hmeets⟩ := hC r hr
      cases hacts : acts e with
      | true =>
          have hunseen := W.unseen s e r u hs hacts hact hr halike
          obtain ⟨v, hv, htv⟩ := ih hkept hu hunseen hmeets hrest
          exact ⟨v, by simpa [purge, hacts] using hv, htv⟩
      | false =>
          obtain ⟨w, hw, hrw⟩ := W.matched s e r u hs hu hacts hr halike
          obtain ⟨v, hv, htv⟩ := ih hkept (W.keep u e w hu hw) hrw hmeets hrest
          refine ⟨v, ?_, htv⟩
          have hcons : purge acts (e :: es) = e :: purge acts es := by simp [purge, hacts]
          rw [hcons, M.run_cons_eq_some]
          exact ⟨w, hw, hv⟩

/-- Two runs that differ only in the acts look the same. -/
theorem runs_agree {view : σ → υ} (hview : ∀ s u, W.alike s u → view s = view u) {s t u : σ}
    {es fs : List ε} (hs : W.I s) (halike : W.alike s s) (hsame : purge acts es = purge acts fs)
    (hes : M.Meets C s es) (hfs : M.Meets C s fs) (ht : M.run s es = some t)
    (hu : M.run s fs = some u) : view t = view u := by
  obtain ⟨v, hv, htv⟩ := W.purge_run hs hs halike hes ht
  obtain ⟨w, hw, huw⟩ := W.purge_run hs hs halike hfs hu
  have hvw : v = w := by
    rw [hsame, hw] at hv
    exact (Option.some.inj hv).symm
  rw [hview t v htv, hview u w huw, hvw]

end Unwinding

end ReliableSignalR.Noninterference
