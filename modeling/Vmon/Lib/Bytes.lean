import Mathlib.Data.Nat.Digits.Lemmas
import Mathlib.Data.List.Basic
import Mathlib.Tactic.IntervalCases

/-!
# Byte strings

Text as C has it: the bytes of a string before its terminating NUL, string
literals, the decimal form of a number and the reading of it back.

## Main definitions

* `Bytes` — a byte string.
* `lit` — an ASCII literal.
* `isDigit`, `digitVal` — the decimal digits.
* `decimal` — the shortest decimal form of a number, as the conversion `%u` prints it.
* `decimalInt` — the same for a signed number, as `%i` prints it.
* `readDecimal` — the value of a digit string.
* `findSub` — the offset of the first occurrence of one string in another.
-/

namespace Vmon

/-- The bytes of a string, its terminator left out. -/
abbrev Bytes := List UInt8

/-- The bytes of an ASCII literal. -/
def lit (s : String) : Bytes := s.toList.map fun c => c.toNat.toUInt8

/-- What holds of all bytes of a string is decided along the string, and not over all `256` values
that a byte may have. -/
instance (priority := 10000) decidableForallBytes {P : UInt8 → Prop} [DecidablePred P] (s : Bytes) :
    Decidable (∀ b ∈ s, P b) := List.decidableBAll P s

def isDigit (b : UInt8) : Bool := 0x30 ≤ b && b ≤ 0x39

/-- The byte of a digit below ten. -/
def digitByte (d : ℕ) : UInt8 := (0x30 + d).toUInt8

def digitVal (b : UInt8) : ℕ := b.toNat - 0x30

/-- The shortest decimal form of `n`. -/
def decimal (n : ℕ) : Bytes :=
  if n = 0 then [0x30] else (Nat.digits 10 n).reverse.map digitByte

/-- The decimal form of a signed number. -/
def decimalInt (n : ℤ) : Bytes :=
  if n < 0 then 0x2D :: decimal n.natAbs else decimal n.natAbs

/-- The value of a digit string, most significant digit first. -/
def readDecimal (s : Bytes) : ℕ := s.foldl (fun acc b => 10 * acc + digitVal b) 0

/-- Where `needle` first occurs in a string. -/
def findSub (needle : Bytes) : Bytes → Option ℕ
  | [] => if needle.isPrefixOf [] then some 0 else none
  | b :: s =>
    if needle.isPrefixOf (b :: s) then some 0 else (findSub needle s).map (· + 1)

/-- A string starts with another one exactly when the first occurrence is its start. -/
theorem findSub_eq_zero {needle s : Bytes} : findSub needle s = some 0 ↔ needle <+: s := by
  cases s with
  | nil => simp [findSub]
  | cons b s => simp [findSub, List.isPrefixOf_iff_prefix]

theorem isDigit_digitByte {d : ℕ} (hd : d < 10) : isDigit (digitByte d) = true := by
  interval_cases d <;> rfl

theorem digitVal_digitByte {d : ℕ} (hd : d < 10) : digitVal (digitByte d) = d := by
  interval_cases d <;> rfl

/-- A decimal form is a nonempty string of digits. -/
theorem decimal_ne_nil (n : ℕ) : decimal n ≠ [] := by
  unfold decimal
  split
  · exact List.cons_ne_nil _ _
  · next h => simpa [Nat.digits_eq_nil_iff_eq_zero] using h

theorem isDigit_of_mem_decimal {n : ℕ} {b : UInt8} (hb : b ∈ decimal n) : isDigit b = true := by
  unfold decimal at hb
  split at hb
  · rw [List.mem_singleton] at hb
    subst hb
    rfl
  · simp only [List.mem_map, List.mem_reverse] at hb
    obtain ⟨d, hd, rfl⟩ := hb
    exact isDigit_digitByte (Nat.digits_lt_base (by norm_num) hd)

/-- A number below `10 ^ k` has at most `k` digits. -/
theorem length_decimal_le {n k : ℕ} (hk : 0 < k) (hn : n < 10 ^ k) : (decimal n).length ≤ k := by
  unfold decimal
  split
  · exact hk
  · rw [List.length_map, List.length_reverse, Nat.digits_length_le_iff (by norm_num)]
    exact hn

theorem length_decimalInt_le {z : ℤ} {k : ℕ} (hk : 0 < k) (hz : z.natAbs < 10 ^ k) :
    (decimalInt z).length ≤ k + 1 := by
  have hdigits := length_decimal_le hk hz
  unfold decimalInt
  split
  · rw [List.length_cons]
    omega
  · omega

/-- The decimal form of a positive number does not start with zero. -/
theorem head_decimal {n : ℕ} (hn : n ≠ 0) : (decimal n).head? ≠ some 0x30 := by
  have hne : Nat.digits 10 n ≠ [] := Nat.digits_ne_nil_iff_ne_zero.mpr hn
  have hlast := Nat.getLast_digit_ne_zero 10 hn
  have hlt := Nat.digits_lt_base (b := 10) (by norm_num) (List.getLast_mem hne)
  rw [decimal, if_neg hn, List.head?_map, List.head?_reverse, List.getLast?_eq_some_getLast hne,
    Option.map_some, ne_eq, Option.some.injEq]
  intro h
  have hval := digitVal_digitByte hlt
  rw [h] at hval
  exact hlast hval.symm

private theorem foldl_digits (ds : List ℕ) (h : ∀ d ∈ ds, d < 10) :
    readDecimal (ds.reverse.map digitByte) = Nat.ofDigits 10 ds := by
  induction ds with
  | nil => rfl
  | cons d ds ih =>
    have hd : digitVal (digitByte d) = d := digitVal_digitByte (h d (by simp))
    have hds := ih fun x hx => h x (List.mem_cons_of_mem _ hx)
    unfold readDecimal at hds ⊢
    simp only [List.reverse_cons, List.map_append, List.map_cons, List.map_nil, List.foldl_append,
      List.foldl_cons, List.foldl_nil, hds, hd, Nat.ofDigits_cons]
    omega

/-- **Reading a decimal form back gives the number.** -/
theorem readDecimal_decimal (n : ℕ) : readDecimal (decimal n) = n := by
  unfold decimal
  split
  · next h => rw [h]; rfl
  · rw [foldl_digits _ fun d hd => Nat.digits_lt_base (by norm_num) hd, Nat.ofDigits_digits]

theorem decimal_injective : Function.Injective decimal :=
  Function.LeftInverse.injective readDecimal_decimal

/-- The number at the end of a text, after a byte that is no digit. -/
theorem append_decimal_inj {x y : Bytes} {m n : ℕ}
    (h : x ++ [0x20] ++ decimal m = y ++ [0x20] ++ decimal n) : x = y ∧ m = n := by
  have hrun : ∀ (z : Bytes) (k : ℕ),
      (z ++ [0x20] ++ decimal k).reverse.takeWhile isDigit = (decimal k).reverse := by
    intro z k
    have hdigits : ∀ b ∈ (decimal k).reverse, isDigit b = true := by
      intro b hb
      exact isDigit_of_mem_decimal (List.mem_reverse.mp hb)
    rw [List.reverse_append, List.takeWhile_append_of_pos hdigits]
    simp [isDigit]
  have hnum : decimal m = decimal n := by
    rw [← List.reverse_inj, ← hrun x m, ← hrun y n, h]
  rw [hnum, List.append_cancel_right_eq, List.append_cancel_right_eq] at h
  exact ⟨h, decimal_injective hnum⟩

end Vmon
