import ReliableSignalR.DecimalNumerals
import Mathlib.Data.Int.Notation
import Mathlib.Data.List.Basic
import Mathlib.Tactic.Common

/-!
# The part of the .NET base library that the services use

Exceptions are distinguished by the class that the code raises or lets escape.
An instant is its number of ticks. Integer parsing follows the documented
grammar of `NumberStyles.Integer`: optional white space, an optional sign and at
least one decimal digit, with an overflow test on the value.
-/
namespace ReliableSignalR.DotNet
open DecimalNumerals

inductive Exception
  | applicationException (message : String)
  | invalidOperationException
  | argumentNullException
  | nullReferenceException
  | formatException
  | overflowException
  | argumentOutOfRangeException
  /-- Raised by a call whose code is not part of the repository. -/
  | external
deriving DecidableEq, Repr

/-- An instant in ticks of 100 nanoseconds. -/
abbrev DateTime := ℕ

abbrev Guid := BitVec 128

namespace DateTime

def ticksPerSecond : ℕ := 10000000
def ticksPerMinute : ℕ := 60 * ticksPerSecond
def ticksPerDay : ℕ := 24 * 60 * ticksPerMinute

def addMinutes (d : DateTime) (minutes : ℕ) : DateTime := d + minutes * ticksPerMinute
def addDays (d : DateTime) (days : ℕ) : DateTime := d + days * ticksPerDay

/-- `DateTime.Today` at the instant `now`. -/
def today (now : DateTime) : DateTime := now - now % ticksPerDay

/-- Ticks of `DateTime.MaxValue`. -/
def maxTicks : ℕ := 3155378975999999999

/-- The constructor `new DateTime(long ticks)`. -/
def ofTicks (ticks : ℤ) : Except Exception DateTime :=
  if 0 ≤ ticks ∧ ticks ≤ maxTicks then .ok ticks.toNat
  else .error .argumentOutOfRangeException

def addSeconds (d : DateTime) (seconds : ℤ) : Except Exception DateTime :=
  ofTicks (d + seconds * ticksPerSecond)

/-- Every instant lies before the midnight that ends its day. -/
theorem lt_tomorrow (now : DateTime) : now < addDays (today now) 1 := by
  have hpos : 0 < ticksPerDay := by decide
  have hmod := Nat.mod_lt now hpos
  have hle := Nat.mod_le now ticksPerDay
  change @LT.lt ℕ _ now (now - now % ticksPerDay + 1 * ticksPerDay)
  omega

end DateTime

def isWhiteSpace (c : Char) : Bool := c == ' ' || (9 ≤ c.toNat && c.toNat ≤ 13)

def trim (cs : List Char) : List Char :=
  ((cs.dropWhile isWhiteSpace).reverse.dropWhile isWhiteSpace).reverse

/-- The value of a nonempty string of decimal digits. -/
def digits (cs : List Char) : Option ℕ :=
  if cs ≠ [] ∧ cs.all Char.isDigit then
    some (cs.foldl (fun n c => 10 * n + (c.toNat - '0'.toNat)) 0)
  else none

def signed : List Char → Option ℤ
  | '-' :: cs => (digits cs).map fun n => -(n : ℤ)
  | '+' :: cs => (digits cs).map fun n => (n : ℤ)
  | cs => (digits cs).map fun n => (n : ℤ)

/-- Parsing into an integer type with the given least and greatest values. -/
def parseInteger (minValue maxValue : ℤ) (s : String) : Except Exception ℤ :=
  match signed (trim s.toList) with
  | none => .error .formatException
  | some n => if minValue ≤ n ∧ n ≤ maxValue then .ok n else .error .overflowException

/-- `int.Parse` -/
def intParse : String → Except Exception ℤ := parseInteger (-2147483648) 2147483647

/-- `long.Parse` -/
def longParse : String → Except Exception ℤ :=
  parseInteger (-9223372036854775808) 9223372036854775807

example : intParse " +0123 " = .ok 123 := by rfl

theorem isWhiteSpace_of_isDigit {c : Char} (h : c.isDigit = true) : isWhiteSpace c = false := by
  rw [Char.isDigit_iff_toNat] at h
  have hzero : '0'.toNat = 48 := rfl
  have hblank : ' '.toNat = 32 := rfl
  have hne : c ≠ ' ' := by
    intro heq
    rw [heq] at h
    omega
  simp only [isWhiteSpace, beq_eq_false_iff_ne.mpr hne, Bool.false_or, Bool.and_eq_false_iff,
    decide_eq_false_iff_not]
  right
  omega

theorem dropWhile_eq_self {p : Char → Bool} {cs : List Char} (h : ∀ c ∈ cs, p c = false) :
    cs.dropWhile p = cs := by
  cases cs with
  | nil => rfl
  | cons c cs => rw [List.dropWhile_cons_of_neg (by simp [h c List.mem_cons_self])]

/-- Trimming leaves a text alone that has nothing to trim. -/
theorem dropWhile_both_ends {p : Char → Bool} {cs : List Char} (h : ∀ c ∈ cs, p c = false) :
    ((cs.dropWhile p).reverse.dropWhile p).reverse = cs := by
  have hreverse : ∀ c ∈ cs.reverse, p c = false := fun c hc => h c (List.mem_reverse.mp hc)
  rw [dropWhile_eq_self h, dropWhile_eq_self hreverse, List.reverse_reverse]

theorem trim_eq_self {cs : List Char} (h : ∀ c ∈ cs, isWhiteSpace c = false) : trim cs = cs :=
  dropWhile_both_ends h

theorem digits_toDigits (n : ℕ) : digits (Nat.toDigits 10 n) = some n := by
  have hnumeral := isNumeral_toDigits n
  unfold digits
  rw [if_pos ⟨hnumeral.nonempty, List.all_eq_true.mpr hnumeral.digits⟩,
    ← Nat.ofDigitChars_eq_foldl, Nat.ofDigitChars_ten_toDigits]

/-- A text without a sign is read as its digits. -/
theorem signed_of_digits {cs : List Char} (h : ∀ c ∈ cs, c.isDigit = true) :
    signed cs = (digits cs).map fun n => (n : ℤ) := by
  unfold signed
  split
  · have hminus := h '-' List.mem_cons_self
    simp at hminus
  · have hplus := h '+' List.mem_cons_self
    simp at hplus
  · rfl

theorem signed_trim_toString (b : ℤ) : signed (trim (toString b).toList) = some b := by
  by_cases hb : 0 ≤ b
  · lift b to ℕ using hb
    have hdigits := (isNumeral_toDigits b).digits
    rw [toList_toString_natCast, trim_eq_self fun c hc => isWhiteSpace_of_isDigit (hdigits c hc),
      signed_of_digits hdigits, digits_toDigits]
    rfl
  · obtain ⟨n, rfl⟩ : ∃ n : ℕ, b = -(n : ℤ) := ⟨b.natAbs, by omega⟩
    have hdigits := (isNumeral_toDigits n).digits
    have hblank : ∀ c ∈ '-' :: Nat.toDigits 10 n, isWhiteSpace c = false := by
      intro c hc
      rcases List.mem_cons.mp hc with rfl | hc
      · rfl
      · exact isWhiteSpace_of_isDigit (hdigits c hc)
    rw [toList_toString_neg (by omega), trim_eq_self hblank, signed, digits_toDigits]
    rfl

theorem parseInteger_toString (minValue maxValue b : ℤ) :
    parseInteger minValue maxValue (toString b) =
      if minValue ≤ b ∧ b ≤ maxValue then .ok b else .error .overflowException := by
  rw [parseInteger, signed_trim_toString]

/-- An accepted text is the one that its value prints exactly if it is canonical. -/
theorem toString_eq_iff {minValue maxValue b : ℤ} {s : String}
    (h : parseInteger minValue maxValue s = .ok b) : toString b = s ↔ IsIntegerText s.toList := by
  constructor
  · rintro rfl
    exact isIntegerText_toString b
  · intro htext
    obtain ⟨a, ha⟩ := exists_toString_of_isIntegerText htext
    have hs : toString a = s := String.toList_inj.mp ha
    rw [← hs, parseInteger_toString] at h
    split at h
    · rw [← Except.ok.inj h, hs]
    · cases h

/-- The text of an instant's ticks is read back as that instant. -/
theorem eq_of_longParse_ticks {n : ℕ} {d : DateTime}
    (h : (longParse (toString n)).bind DateTime.ofTicks = .ok d) : d = n := by
  have htext : toString n = toString (n : ℤ) := rfl
  rw [htext, longParse, parseInteger_toString] at h
  split at h
  · simp only [Except.bind, DateTime.ofTicks] at h
    split at h
    · exact (Except.ok.inj h).symm
    · cases h
  · cases h

/-- `Char.IsWhiteSpace`: the Unicode separators and six control characters. -/
def charIsWhiteSpace (c : Char) : Bool :=
  [0x20, 0x85, 0xA0, 0x1680, 0x2028, 0x2029, 0x202F, 0x205F, 0x3000].contains c.toNat ||
    (9 ≤ c.toNat && c.toNat ≤ 13) || (0x2000 ≤ c.toNat && c.toNat ≤ 0x200A)

/-- `String.IsNullOrWhiteSpace` -/
def isNullOrWhiteSpace : Option (List Char) → Bool
  | none => true
  | some cs => cs.all charIsWhiteSpace

/-- `String.Trim` -/
def stringTrim (cs : List Char) : List Char :=
  ((cs.dropWhile charIsWhiteSpace).reverse.dropWhile charIsWhiteSpace).reverse

theorem stringTrim_eq_self {cs : List Char} (h : ∀ c ∈ cs, charIsWhiteSpace c = false) :
    stringTrim cs = cs := dropWhile_both_ends h

/-- A leading blank is trimmed. -/
theorem stringTrim_cons {c : Char} (hc : charIsWhiteSpace c = true) (cs : List Char) :
    stringTrim (c :: cs) = stringTrim cs := by
  rw [stringTrim, List.dropWhile_cons_of_pos hc]
  rfl

end ReliableSignalR.DotNet
