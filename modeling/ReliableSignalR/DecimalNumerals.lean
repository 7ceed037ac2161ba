import Mathlib.Data.Int.Notation
import Mathlib.Data.List.Induction
import Mathlib.Tactic.Common

/-!
# Decimal numerals

The text that an integer prints is a numeral without superfluous zeros, with a
minus sign in front if the integer is negative. These are the only texts of this
form: writing the value of such a numeral gives the numeral back.
-/
namespace ReliableSignalR.DecimalNumerals

/-- A digit string without superfluous zeros. -/
structure IsNumeral (ds : List Char) : Prop where
  nonempty : ds ≠ []
  digits : ∀ c ∈ ds, c.isDigit = true
  leading : ds.head? = some '0' → ds = ['0']

/-- The canonical text of an integer: a numeral, or the numeral of a positive
number with a minus sign. -/
def IsIntegerText : List Char → Prop
  | '-' :: ds => IsNumeral ds ∧ ds ≠ ['0']
  | ds => IsNumeral ds

section Digits

theorem eq_zero_of_leading {n : ℕ} (h : (Nat.toDigits 10 n).head? = some '0') : n = 0 := by
  induction n using Nat.strongRecOn with
  | ind n ih =>
      by_cases hn : n < 10
      · rw [Nat.toDigits_of_lt_base hn, List.head?_cons, Option.some.injEq] at h
        exact Nat.digitChar_eq_zero.mp h
      · obtain ⟨d, hd⟩ := Option.isSome_iff_exists.mp
          (List.isSome_head?.mpr (Nat.toDigits_ne_nil (n := n / 10) (b := 10)))
        rw [Nat.toDigits_of_base_le (by omega) (by omega), List.head?_append, hd,
          Option.some_or] at h
        have hzero := ih (n / 10) (by omega) (hd.trans h)
        omega

theorem isNumeral_toDigits (n : ℕ) : IsNumeral (Nat.toDigits 10 n) where
  nonempty := Nat.toDigits_ne_nil
  digits _ := Nat.isDigit_of_mem_toDigits (by omega) (by omega)
  leading h := by rw [eq_zero_of_leading h, Nat.toDigits_zero]

theorem digitChar_of_isDigit {c : Char} (h : c.isDigit = true) :
    c.toNat - '0'.toNat < 10 ∧ (c.toNat - '0'.toNat).digitChar = c := by
  rw [Char.isDigit_iff_toNat] at h
  have hzero : '0'.toNat = 48 := rfl
  have hnine : '9'.toNat = 57 := rfl
  have hlt : c.toNat - '0'.toNat < 10 := by omega
  refine ⟨hlt, Char.toNat_inj.mp ?_⟩
  have hcode := Nat.toNat_digitChar_of_lt_ten hlt
  omega

/-- Writing the value of a numeral gives the numeral back. -/
theorem toDigits_ofDigitChars {ds : List Char} (h : IsNumeral ds) :
    Nat.toDigits 10 (Nat.ofDigitChars 10 ds 0) = ds := by
  induction ds using List.reverseRecOn with
  | nil => exact absurd rfl h.nonempty
  | append_singleton ds c ih =>
      obtain ⟨hlt, hc⟩ := digitChar_of_isDigit (h.digits c (by simp))
      rw [Nat.ofDigitChars_append, Nat.ofDigitChars_cons, Nat.ofDigitChars_nil]
      cases ds with
      | nil =>
          rw [Nat.ofDigitChars_nil, Nat.mul_zero, Nat.zero_add, Nat.toDigits_of_lt_base hlt, hc]
          rfl
      | cons d ds =>
          have hd : d ≠ '0' := by
            intro heq
            have hsingle := h.leading (by simp [heq])
            simp at hsingle
          have hnumeral : IsNumeral (d :: ds) :=
            ⟨by simp, fun x hx => h.digits x (List.mem_append_left _ hx), by simp [hd]⟩
          have hpos : 0 < Nat.ofDigitChars 10 (d :: ds) 0 := by
            by_contra hzero
            have heq := ih hnumeral
            rw [Nat.eq_zero_of_not_pos hzero, Nat.toDigits_zero] at heq
            exact hd (List.cons.inj heq).1.symm
          rw [← Nat.toDigits_append_toDigits (by omega) hpos hlt, ih hnumeral,
            Nat.toDigits_of_lt_base hlt, hc]

end Digits

section Integers

theorem toList_toString_natCast (n : ℕ) : (toString (n : ℤ)).toList = Nat.toDigits 10 n := by
  rw [Int.toString_eq_repr, Int.repr_eq_if, if_pos (by omega), Int.toNat_natCast, Nat.toList_repr]

theorem toList_toString_neg {n : ℕ} (h : 0 < n) :
    (toString (-(n : ℤ))).toList = '-' :: Nat.toDigits 10 n := by
  rw [Int.toString_eq_repr, Int.repr_eq_if, if_neg (by omega), Int.neg_neg, Int.toNat_natCast,
    String.toList_append, Nat.toList_repr]
  rfl

theorem IsNumeral.isIntegerText {ds : List Char} (h : IsNumeral ds) : IsIntegerText ds := by
  unfold IsIntegerText
  split
  · have hminus := h.digits '-' List.mem_cons_self
    simp at hminus
  · exact h

theorem isIntegerText_toString (b : ℤ) : IsIntegerText (toString b).toList := by
  by_cases hb : 0 ≤ b
  · lift b to ℕ using hb
    rw [toList_toString_natCast]
    exact (isNumeral_toDigits b).isIntegerText
  · obtain ⟨n, rfl⟩ : ∃ n : ℕ, b = -(n : ℤ) := ⟨b.natAbs, by omega⟩
    rw [toList_toString_neg (by omega)]
    refine ⟨isNumeral_toDigits n, fun hzero => ?_⟩
    have hn := eq_zero_of_leading (n := n) (by rw [hzero]; rfl)
    omega

theorem exists_toString_of_isIntegerText {cs : List Char} (h : IsIntegerText cs) :
    ∃ b : ℤ, (toString b).toList = cs := by
  unfold IsIntegerText at h
  split at h
  · next ds =>
    obtain ⟨hnumeral, hne⟩ := h
    have hdigits := toDigits_ofDigitChars hnumeral
    have hpos : 0 < Nat.ofDigitChars 10 ds 0 := by
      by_contra hzero
      rw [Nat.eq_zero_of_not_pos hzero, Nat.toDigits_zero] at hdigits
      exact hne hdigits.symm
    exact ⟨_, by rw [toList_toString_neg hpos, hdigits]⟩
  · exact ⟨_, by rw [toList_toString_natCast, toDigits_ofDigitChars h]⟩

end Integers

end ReliableSignalR.DecimalNumerals
