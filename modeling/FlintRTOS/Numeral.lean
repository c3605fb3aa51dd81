import Mathlib.Data.List.Basic
import Mathlib.Tactic.IntervalCases

/-!
# Decimal numerals as bytes

The numerals of the standard library, one byte for each character.  `Canonical` says what
a numeral without leading zeros looks like and `read` what number a numeral stands for, so
that neither depends on how the standard library makes one.
-/

namespace Numeral

def digits (n : Nat) : List UInt8 :=
  (Nat.toDigits 10 n).map Char.toUInt8

def numeral (z : Int) : List UInt8 :=
  z.repr.toList.map Char.toUInt8

/-- The value of digits; `none` for anything else. -/
def value (ds : List UInt8) : Option Nat :=
  if ds ≠ [] ∧ ds.all fun c => decide ('0'.toUInt8 ≤ c ∧ c ≤ '9'.toUInt8) then
    some (ds.foldl (fun n c => 10 * n + (c.toNat - '0'.toNat)) 0)
  else none

/-- The number a numeral stands for. -/
def read (t : List UInt8) : Option Int :=
  if t.head? = some '-'.toUInt8 then (value t.tail).map fun n : Nat => -(n : Int)
  else (value t).map fun n : Nat => (n : Int)

/-- Digits without a leading zero; a minus sign may precede them unless they are the zero. -/
def Canonical (t : List UInt8) : Prop :=
  ∃ sign ds, t = sign ++ ds ∧ ds ≠ [] ∧ (∀ c ∈ ds, '0'.toUInt8 ≤ c ∧ c ≤ '9'.toUInt8) ∧
    (ds.head? = some '0'.toUInt8 → ds = ['0'.toUInt8] ∧ sign = []) ∧
    (sign = [] ∨ sign = ['-'.toUInt8])

/-! ### Digits -/

variable {n : Nat}

theorem toUInt8_digitChar (h : n < 10) : n.digitChar.toUInt8 = '0'.toUInt8 + UInt8.ofNat n := by
  interval_cases n <;> rfl

theorem digits_of_lt (h : n < 10) : digits n = ['0'.toUInt8 + UInt8.ofNat n] := by
  rw [digits, Nat.toDigits_of_lt_base h, ← toUInt8_digitChar h]
  rfl

theorem digits_of_le (h : 10 ≤ n) :
    digits n = digits (n / 10) ++ ['0'.toUInt8 + UInt8.ofNat (n % 10)] := by
  rw [digits, Nat.toDigits_of_base_le (by decide) h, List.map_append, List.map_singleton,
    toUInt8_digitChar (Nat.mod_lt n (by decide)), digits]

theorem length_digits_le_iff {k : Nat} (hk : 0 < k) : (digits n).length ≤ k ↔ n < 10 ^ k := by
  rw [digits, List.length_map]
  exact Nat.length_toDigits_le_iff (by decide) hk

theorem digits_ne_nil (n : Nat) : digits n ≠ [] := by
  simp [digits, Nat.toDigits_ne_nil]

theorem digit_bounds (h : n < 10) :
    '0'.toUInt8 ≤ '0'.toUInt8 + UInt8.ofNat n ∧ '0'.toUInt8 + UInt8.ofNat n ≤ '9'.toUInt8 := by
  interval_cases n <;> decide

theorem mem_digits {c : UInt8} (hc : c ∈ digits n) : '0'.toUInt8 ≤ c ∧ c ≤ '9'.toUInt8 := by
  induction n using Nat.strong_induction_on with
  | _ n ih =>
    rcases Nat.lt_or_ge n 10 with hn | hn
    · rw [digits_of_lt hn, List.mem_singleton] at hc
      rw [hc]
      exact digit_bounds hn
    · rw [digits_of_le hn, List.mem_append, List.mem_singleton] at hc
      rcases hc with hc | rfl
      · exact ih (n / 10) (by omega) hc
      · exact digit_bounds (Nat.mod_lt n (by decide))

theorem head_digits (hn : n ≠ 0) : (digits n).head? ≠ some '0'.toUInt8 := by
  induction n using Nat.strong_induction_on with
  | _ n ih =>
    rcases Nat.lt_or_ge n 10 with hlt | hge
    · rw [digits_of_lt hlt]
      interval_cases n <;> first | exact absurd rfl hn | decide
    · rw [digits_of_le hge, List.head?_append_of_ne_nil _ (digits_ne_nil _)]
      exact ih (n / 10) (by omega) (by omega)

theorem toNat_digit (h : n < 10) : ('0'.toUInt8 + UInt8.ofNat n).toNat - '0'.toNat = n := by
  interval_cases n <;> rfl

theorem foldl_digits (n : Nat) :
    (digits n).foldl (fun n c => 10 * n + (c.toNat - '0'.toNat)) 0 = n := by
  induction n using Nat.strong_induction_on with
  | _ n ih =>
    rcases Nat.lt_or_ge n 10 with hn | hn
    · rw [digits_of_lt hn, List.foldl_cons, List.foldl_nil, toNat_digit hn]
      omega
    · rw [digits_of_le hn, List.foldl_append, ih (n / 10) (by omega), List.foldl_cons,
        List.foldl_nil, toNat_digit (Nat.mod_lt n (by decide))]
      omega

theorem value_digits (n : Nat) : value (digits n) = some n := by
  have hall : (digits n).all (fun c => decide ('0'.toUInt8 ≤ c ∧ c ≤ '9'.toUInt8)) = true :=
    List.all_eq_true.mpr fun c hc => decide_eq_true (mem_digits hc)
  rw [value, if_pos ⟨digits_ne_nil n, hall⟩, foldl_digits]

/-! ### Numerals -/

theorem numeral_natCast (n : Nat) : numeral n = digits n := by
  rw [numeral, Int.repr_eq_if, if_pos (Int.natCast_nonneg n), Int.toNat_natCast,
    Nat.repr_eq_ofList_toDigits, String.toList_ofList, digits]

theorem numeral_of_neg {z : Int} (hz : z < 0) :
    numeral z = '-'.toUInt8 :: digits (-z).toNat := by
  rw [numeral, Int.repr_eq_if, if_neg (Int.not_le.mpr hz), Nat.repr_eq_ofList_toDigits,
    String.toList_append, List.map_append, String.toList_ofList, String.toList_ofList, digits]
  rfl

theorem canonical_numeral (z : Int) : Canonical (numeral z) := by
  rcases lt_or_ge z 0 with hz | hz
  · refine ⟨['-'.toUInt8], digits (-z).toNat, numeral_of_neg hz, digits_ne_nil _,
      fun c hc => mem_digits hc, fun hhead => ?_, Or.inr rfl⟩
    exact absurd hhead (head_digits (by omega))
  · obtain ⟨n, rfl⟩ := Int.eq_ofNat_of_zero_le hz
    refine ⟨[], digits n, numeral_natCast n, digits_ne_nil _, fun c hc => mem_digits hc,
      fun hhead => ⟨?_, rfl⟩, Or.inl rfl⟩
    have hn : n = 0 := by
      by_contra hne
      exact head_digits hne hhead
    rw [hn]
    rfl

/-- Reading a numeral gives the number. -/
theorem read_numeral (z : Int) : read (numeral z) = some z := by
  rcases lt_or_ge z 0 with hz | hz
  · rw [numeral_of_neg hz, read, List.head?_cons, if_pos rfl, List.tail_cons, value_digits, Option.map_some]
    congr 1
    omega
  · obtain ⟨n, rfl⟩ := Int.eq_ofNat_of_zero_le hz
    have hsign : (digits n).head? ≠ some '-'.toUInt8 := fun hhead =>
      absurd (mem_digits (List.mem_of_head? hhead)).1 (by decide)
    rw [numeral_natCast, read, if_neg hsign, value_digits, Option.map_some]

end Numeral
