import Mathlib.Algebra.Order.Ring.Nat
import Mathlib.Data.Nat.Sqrt
import Mathlib.Tactic.Linarith
import Mathlib.Tactic.Ring

/-!
# Square roots digit by digit

The binary digits of the integer square root, from the highest on.  With `n` digits to go
the method has subtracted the square of the digits found so far from the radicand; what is
left is `x`, and the digits found are kept in `r`, shifted so that the next test is a
single comparison with a power of four.

`Root N n x r` is the state of the method: `q` is the number made of the digits found.
-/

namespace DigitRoot

/-- The next digit, of weight `2 ^ n`: `bit` is `4 ^ n`. -/
def digit (bit x r : Nat) : Nat × Nat :=
  if r + bit ≤ x then (x - (r + bit), r / 2 + bit) else (x, r / 2)

/-- All digits of the root of `N` but the last `n` are found: they are `q`, the rest of the
    radicand is `x`, and it is less than a further one in the last place of `q` takes. -/
def Root (N n x r : Nat) : Prop :=
  ∃ q, r = q * 4 ^ n ∧ N = x + q * q * 4 ^ n ∧ x < (2 * q + 1) * 4 ^ n

namespace Root

variable {N n x r : Nat}

/-- A radicand of `n` digits, none of which is found yet. -/
theorem start (h : N < 4 ^ n) : Root N n N 0 :=
  ⟨0, by simpa using h⟩

/-- One digit fewer to go, whether it is a one or a zero. -/
theorem step (h : Root N (n + 1) x r) :
    Root N n (digit (4 ^ n) x r).1 (digit (4 ^ n) x r).2 := by
  obtain ⟨q, rfl, hN, hx⟩ := h
  rw [pow_succ] at hN hx
  have hhalf : q * 4 ^ (n + 1) / 2 = 2 * q * 4 ^ n := by
    rw [show q * 4 ^ (n + 1) = 2 * q * 4 ^ n * 2 by ring, Nat.mul_div_cancel _ two_pos]
  have htest : q * 4 ^ (n + 1) + 4 ^ n = (4 * q + 1) * 4 ^ n := by ring
  rw [digit, hhalf, htest]
  split
  · next hle =>
    obtain ⟨y, rfl⟩ := Nat.exists_eq_add_of_le hle
    rw [Nat.add_sub_cancel_left]
    refine ⟨2 * q + 1, by ring, ?_, ?_⟩
    · rw [hN]
      ring
    · linarith
  · next hlt =>
    refine ⟨2 * q, rfl, ?_, ?_⟩
    · rw [hN]
      ring
    · linarith

theorem eq_sqrt (h : Root N 0 x r) : r = Nat.sqrt N := by
  obtain ⟨q, rfl, hN, hx⟩ := h
  rw [pow_zero, mul_one] at *
  refine Nat.eq_sqrt.mpr ⟨?_, ?_⟩
  · linarith
  · linarith

/-- What is kept of the digits leaves room for the next test. -/
theorem add_le (h : Root N n x r) {m : Nat} (hN : N < 4 ^ m) (hn : n ≤ m) :
    r + 4 ^ n ≤ 4 ^ m := by
  obtain ⟨q, rfl, hq, -⟩ := h
  obtain ⟨k, rfl⟩ := Nat.exists_eq_add_of_le hn
  rw [pow_add, mul_comm (4 ^ n)] at hN ⊢
  -- Both sides are multiples of `4 ^ n`, so it is enough to compare the factors.
  have hlt : q < 4 ^ k := by
    by_contra hge
    have hle : 4 ^ k * 4 ^ n ≤ q * q * 4 ^ n :=
      Nat.mul_le_mul_right _ ((Nat.le_of_not_lt hge).trans (Nat.le_mul_self q))
    omega
  calc q * 4 ^ n + 4 ^ n = (q + 1) * 4 ^ n := by ring
    _ ≤ 4 ^ k * 4 ^ n := Nat.mul_le_mul_right _ hlt

end Root

end DigitRoot
