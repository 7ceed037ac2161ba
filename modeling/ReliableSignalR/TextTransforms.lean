import Mathlib.Data.List.Infix
import Mathlib.Data.List.TakeDrop
import Mathlib.Tactic.Common

/-!
# Form encoding and the removal of a word

Form encoding writes a text in characters that are safe in a query string, and
decoding reads it back. Removing a word from a text takes out its occurrences
from left to right, as a literal pattern replaced by nothing does; it changes a
text precisely if the word occurs in it.
-/
namespace ReliableSignalR.TextTransforms

section FormEncoding

/-- The characters that form encoding leaves alone. -/
def isUrlSafe (c : Char) : Bool :=
  c.isAlphanum || ['-', '_', '.', '!', '*', '(', ')'].contains c

def escape (b : UInt8) : List Char :=
  ['%', Nat.digitChar (b.toNat / 16), Nat.digitChar (b.toNat % 16)]

def encodeChar (c : Char) : List Char :=
  if isUrlSafe c then [c]
  else if c = ' ' then ['+']
  else (String.utf8EncodeChar c).flatMap escape

def urlEncode (cs : List Char) : List Char := cs.flatMap encodeChar

def hexValue (c : Char) : Option ℕ :=
  if '0' ≤ c ∧ c ≤ '9' then some (c.toNat - '0'.toNat)
  else if 'a' ≤ c ∧ c ≤ 'f' then some (c.toNat - 'a'.toNat + 10)
  else if 'A' ≤ c ∧ c ≤ 'F' then some (c.toNat - 'A'.toNat + 10)
  else none

/-- A percent sign without two hexadecimal digits behind it stands for itself. -/
def urlDecodeBytes : List Char → List UInt8
  | [] => []
  | '%' :: h :: l :: cs =>
      match hexValue h, hexValue l with
      | some m, some n => UInt8.ofNat (16 * m + n) :: urlDecodeBytes cs
      | _, _ => UInt8.ofNat 37 :: urlDecodeBytes (h :: l :: cs)
  | '+' :: cs => UInt8.ofNat 32 :: urlDecodeBytes cs
  | c :: cs => String.utf8EncodeChar c ++ urlDecodeBytes cs

/-- The text, if the bytes are one. -/
def urlDecode (cs : List Char) : Option (List Char) :=
  (urlDecodeBytes cs).toByteArray.utf8Decode?.map Array.toList

theorem hexValue_digitChar {n : ℕ} (h : n < 16) : hexValue (Nat.digitChar n) = some n := by
  have hall : ∀ n : Fin 16, hexValue (Nat.digitChar n) = some n.val := by decide
  exact hall ⟨n, h⟩

theorem urlDecodeBytes_escape (b : UInt8) (cs : List Char) :
    urlDecodeBytes (escape b ++ cs) = b :: urlDecodeBytes cs := by
  have hlt := b.toNat_lt
  have hhigh : b.toNat / 16 < 16 := by omega
  have hlow : b.toNat % 16 < 16 := by omega
  have hbyte : 16 * (b.toNat / 16) + b.toNat % 16 = b.toNat := by omega
  simp only [escape, List.cons_append, List.nil_append, urlDecodeBytes,
    hexValue_digitChar hhigh, hexValue_digitChar hlow, hbyte, UInt8.ofNat_toNat]

theorem urlDecodeBytes_escapes (bs : List UInt8) (cs : List Char) :
    urlDecodeBytes (bs.flatMap escape ++ cs) = bs ++ urlDecodeBytes cs := by
  induction bs with
  | nil => rfl
  | cons b bs ih =>
      rw [List.flatMap_cons, List.append_assoc, urlDecodeBytes_escape, ih, List.cons_append]

theorem urlDecodeBytes_plain {c : Char} (hpercent : c ≠ '%') (hplus : c ≠ '+') (cs : List Char) :
    urlDecodeBytes (c :: cs) = String.utf8EncodeChar c ++ urlDecodeBytes cs := by
  rw [urlDecodeBytes.eq_def]
  split
  · next heq => cases heq
  · next heq => exact absurd (List.cons.inj heq).1 hpercent
  · next heq => exact absurd (List.cons.inj heq).1 hplus
  · next heq =>
    obtain ⟨rfl, rfl⟩ := List.cons.inj heq
    rfl

theorem urlDecodeBytes_encodeChar (c : Char) (cs : List Char) :
    urlDecodeBytes (encodeChar c ++ cs) = String.utf8EncodeChar c ++ urlDecodeBytes cs := by
  unfold encodeChar
  split
  · next hsafe =>
    have hpercent : c ≠ '%' := by
      rintro rfl
      exact absurd hsafe (by decide)
    have hplus : c ≠ '+' := by
      rintro rfl
      exact absurd hsafe (by decide)
    exact urlDecodeBytes_plain hpercent hplus cs
  · split
    · next hspace =>
      subst hspace
      rfl
    · exact urlDecodeBytes_escapes _ cs

theorem urlDecodeBytes_urlEncode (cs : List Char) :
    urlDecodeBytes (urlEncode cs) = cs.flatMap String.utf8EncodeChar := by
  induction cs with
  | nil => rfl
  | cons c cs ih =>
      rw [urlEncode, List.flatMap_cons, urlDecodeBytes_encodeChar, List.flatMap_cons]
      exact congrArg (String.utf8EncodeChar c ++ ·) ih

/-- Decoding reads every text back. -/
theorem urlDecode_urlEncode (cs : List Char) : urlDecode (urlEncode cs) = some cs := by
  have hbytes : (cs.flatMap String.utf8EncodeChar).toByteArray = cs.utf8Encode := rfl
  rw [urlDecode, urlDecodeBytes_urlEncode, hbytes, List.utf8Decode?_utf8Encode]
  rfl

end FormEncoding

section Removal
variable {α : Type} [DecidableEq α] {word xs : List α}

/-- The occurrences of the word are taken out from left to right, without overlaps;
the next `n` letters belong to an occurrence. -/
def removeFrom (word : List α) : ℕ → List α → List α
  | _, [] => []
  | n + 1, _ :: xs => removeFrom word n xs
  | 0, x :: xs =>
      if word <+: x :: xs then removeFrom word (word.length - 1) xs else x :: removeFrom word 0 xs

/-- Replace the word by nothing. -/
def remove (word xs : List α) : List α := removeFrom word 0 xs

theorem length_removeFrom_le (n : ℕ) : (removeFrom word n xs).length ≤ xs.length - n := by
  induction xs generalizing n with
  | nil => exact Nat.zero_le _
  | cons x xs ih =>
      cases n with
      | succ n =>
          have hle := ih n
          simp only [removeFrom, List.length_cons]
          omega
      | zero =>
          unfold removeFrom
          split
          · have hle := ih (word.length - 1)
            simp only [List.length_cons]
            omega
          · have hle := ih 0
            simp only [List.length_cons]
            omega

theorem removeFrom_append {ys : List α} :
    removeFrom word ys.length (ys ++ xs) = remove word xs := by
  induction ys with
  | nil => rfl
  | cons y ys ih => exact ih

/-- A text that begins with the word loses it. -/
theorem remove_append (hword : word ≠ []) : remove word (word ++ xs) = remove word xs := by
  cases hcases : word with
  | nil => exact absurd hcases hword
  | cons x ys =>
      rw [remove, List.cons_append, removeFrom, ← List.cons_append,
        if_pos (List.prefix_append (x :: ys) xs)]
      exact removeFrom_append

/-- A letter with which the word does not begin stays. -/
theorem remove_cons_of_head_ne {x y : α} {ys : List α} (hne : y ≠ x) :
    remove (y :: ys) (x :: xs) = x :: remove (y :: ys) xs := by
  have hnot : ¬(y :: ys) <+: x :: xs := fun h => hne (List.cons_prefix_cons.mp h).1
  rw [remove, removeFrom, if_neg hnot]
  rfl

theorem mem_of_mem_removeFrom {n : ℕ} {x : α} (h : x ∈ removeFrom word n xs) : x ∈ xs := by
  induction xs generalizing n with
  | nil => exact h
  | cons y ys ih =>
      cases n with
      | succ n => exact List.mem_cons_of_mem y (ih h)
      | zero =>
          unfold removeFrom at h
          split at h
          · exact List.mem_cons_of_mem y (ih h)
          · rcases List.mem_cons.mp h with rfl | h
            · exact List.mem_cons_self
            · exact List.mem_cons_of_mem y (ih h)

theorem mem_of_mem_remove {x : α} (h : x ∈ remove word xs) : x ∈ xs := mem_of_mem_removeFrom h

/-- The removal changes a text precisely if the word occurs in it. -/
theorem remove_eq_self (hword : word ≠ []) : remove word xs = xs ↔ ¬word <:+: xs := by
  induction xs with
  | nil => simpa [remove, removeFrom] using hword
  | cons x xs ih =>
      rw [List.infix_cons_iff, not_or, ← ih, remove, removeFrom]
      by_cases hbegins : word <+: x :: xs
      · have hpos : 0 < word.length := List.length_pos_iff.mpr hword
        have hlength : (removeFrom word (word.length - 1) xs).length ≤
            xs.length - (word.length - 1) := length_removeFrom_le _
        rw [if_pos hbegins]
        constructor
        · intro heq
          rw [heq, List.length_cons] at hlength
          omega
        · exact fun h => absurd hbegins h.1
      · rw [if_neg hbegins, List.cons.injEq]
        exact ⟨fun h => ⟨hbegins, h.2⟩, fun h => ⟨rfl, h.2⟩⟩

end Removal

end ReliableSignalR.TextTransforms
