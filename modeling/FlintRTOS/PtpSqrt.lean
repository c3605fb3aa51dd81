import FlintRTOS.DigitRoot
import FlintRTOS.PtpCore

/-!
# The root mean square of the report

`isqrt64` of `ptp_core.c` finds the binary digits of a square root from the highest on, in
words of 64 bits.  A loop is given a number of rounds and returns `none` if it needs more.
Unsigned sums are modular in C; here `carry` says what becomes of a sum that does not fit,
so a result that does not depend on it was computed without overflow.

The method itself is `DigitRoot`; the words hold its numbers (`exists_isqrtLoop`).
-/

namespace FlintRTOS

open DigitRoot (Root digit)

section code

variable (carry : UInt64 → UInt64 → Option UInt64)

/-- `a + b`. -/
def addU64 (a b : UInt64) : Option UInt64 :=
  if a.toNat + b.toNat < 2 ^ 64 then some (a + b) else carry a b

/-- `while (bit > x) bit >>= 2`, in at most as many tests as given. -/
def isqrtStart : Nat → UInt64 → UInt64 → Option UInt64
  | 0, _, _ => none
  | fuel + 1, x, bit => if bit > x then isqrtStart fuel x (bit >>> 2) else some bit

/-- `while (bit != 0)`, in at most as many tests as given. -/
def isqrtLoop : Nat → UInt64 → UInt64 → UInt64 → Option UInt64
  | 0, _, _, _ => none
  | fuel + 1, x, r, bit =>
    if bit ≠ 0 then do
      let sum ← addU64 carry r bit
      if x ≥ sum then do
        let r ← addU64 carry (r >>> 1) bit
        isqrtLoop fuel (x - sum) r (bit >>> 2)
      else isqrtLoop fuel x (r >>> 1) (bit >>> 2)
    else some r

def isqrt64 (x : UInt64) : Option UInt64 := do
  let bit ← isqrtStart 33 x ((1 : UInt64) <<< 62)
  isqrtLoop carry 33 x 0 bit

/-- `rms` of `report`. -/
def rms (g : PtpCore) : Option UInt64 :=
  isqrt64 carry (g.stSq / g.stN.toUInt64)

end code

/-! ### The words hold the numbers of the method -/

theorem toNat_shiftRight_two (a : UInt64) : (a >>> 2).toNat = a.toNat / 4 :=
  Nat.shiftRight_eq_div_pow a.toNat 2

theorem toNat_shiftRight_one (a : UInt64) : (a >>> 1).toNat = a.toNat / 2 :=
  Nat.shiftRight_eq_div_pow a.toNat 1

theorem exists_addU64 (carry : UInt64 → UInt64 → Option UInt64) {a b : UInt64}
    (h : a.toNat + b.toNat < 2 ^ 64) :
    ∃ s, addU64 carry a b = some s ∧ s.toNat = a.toNat + b.toNat :=
  ⟨a + b, if_pos h, by rw [UInt64.toNat_add, Nat.mod_eq_of_lt h]⟩

/-- `bit` with `n` digits to go: the square of the weight of the next one, and 0 at the end. -/
def bitOf (n : Nat) : Nat := 4 ^ n / 4

theorem bitOf_succ (n : Nat) : bitOf (n + 1) = 4 ^ n := by
  rw [bitOf, Nat.pow_succ, Nat.mul_div_cancel _ (by decide)]

theorem toNat_shiftRight_bit {n : Nat} {bit : UInt64} (h : bit.toNat = bitOf (n + 1)) :
    (bit >>> 2).toNat = bitOf n := by
  rw [toNat_shiftRight_two, h, bitOf_succ, bitOf]

/-- The first loop leaves the digits that the root can have. -/
theorem exists_isqrtStart {n fuel : Nat} {x bit : UInt64} (hfuel : n < fuel)
    (hbit : bit.toNat = bitOf n) (hx : x.toNat < 4 ^ n) :
    ∃ bit' n', isqrtStart fuel x bit = some bit' ∧ n' ≤ n ∧ bit'.toNat = bitOf n' ∧
      x.toNat < 4 ^ n' := by
  induction n generalizing fuel bit with
  | zero =>
    obtain ⟨fuel, rfl⟩ := Nat.exists_eq_add_of_lt hfuel
    have hnot : ¬ bit > x := by
      rw [gt_iff_lt, UInt64.lt_iff_toNat_lt, hbit]
      exact Nat.not_lt_zero _
    exact ⟨bit, 0, by rw [isqrtStart, if_neg hnot], le_rfl, hbit, hx⟩
  | succ n ih =>
    obtain ⟨fuel, rfl⟩ : ∃ k, fuel = k + 1 := ⟨fuel - 1, by omega⟩
    rw [isqrtStart]
    split
    · next hgt =>
      rw [gt_iff_lt, UInt64.lt_iff_toNat_lt, hbit, bitOf_succ] at hgt
      obtain ⟨bit', n', hrun, hle, hrest⟩ :=
        ih (Nat.lt_of_succ_lt_succ hfuel) (toNat_shiftRight_bit hbit) hgt
      exact ⟨bit', n', hrun, Nat.le_succ_of_le hle, hrest⟩
    · exact ⟨bit, n + 1, rfl, le_rfl, hbit, hx⟩

theorem exists_isqrtLoop (carry : UInt64 → UInt64 → Option UInt64) {N n fuel : Nat}
    {x r bit : UInt64} (hfuel : n < fuel) (hn : n ≤ 32) (hN : N < 4 ^ 32)
    (hbit : bit.toNat = bitOf n) (h : Root N n x.toNat r.toNat) :
    ∃ root, isqrtLoop carry fuel x r bit = some root ∧ root.toNat = Nat.sqrt N := by
  induction n generalizing fuel x r bit with
  | zero =>
    obtain ⟨fuel, rfl⟩ : ∃ k, fuel = k + 1 := ⟨fuel - 1, by omega⟩
    have hzero : bit = 0 := UInt64.toNat_inj.mp hbit
    exact ⟨r, by rw [isqrtLoop, if_neg (not_not.mpr hzero)], h.eq_sqrt⟩
  | succ n ih =>
    obtain ⟨fuel, rfl⟩ : ∃ k, fuel = k + 1 := ⟨fuel - 1, by omega⟩
    have hpow : bit.toNat = 4 ^ n := by rw [hbit, bitOf_succ]
    have hne : bit ≠ 0 := by
      rintro rfl
      exact absurd hpow.symm (Nat.pow_pos (by decide)).ne'
    -- Neither sum is out of range: both fit below the next power of four.
    have hroom : r.toNat + 4 * 4 ^ n ≤ 2 ^ 64 := by
      rw [← Nat.pow_succ']
      exact h.add_le hN hn
    have hpos : 0 < 4 ^ n := Nat.pow_pos (by decide)
    obtain ⟨sum, hsum, hsumv⟩ := exists_addU64 carry (a := r) (b := bit) (by omega)
    have hhalf := toNat_shiftRight_one r
    obtain ⟨r', hr', hrv⟩ := exists_addU64 carry (a := r >>> 1) (b := bit) (by omega)
    have hnext := h.step
    have hshift := toNat_shiftRight_bit hbit
    rw [isqrtLoop, if_pos hne, hsum, Option.bind_eq_bind, Option.bind_some]
    split
    · next hge =>
      have hle : sum.toNat ≤ x.toNat := UInt64.le_iff_toNat_le.mp hge
      rw [digit, if_pos (by omega)] at hnext
      rw [hr', Option.bind_some]
      refine ih (by omega) (by omega) hshift ?_
      rwa [UInt64.toNat_sub_of_le _ _ hge, hsumv, hrv, hhalf, hpow]
    · next hlt =>
      have hlt : ¬ sum.toNat ≤ x.toNat := fun hle => hlt (UInt64.le_iff_toNat_le.mpr hle)
      rw [digit, if_neg (by omega)] at hnext
      refine ih (by omega) (by omega) hshift ?_
      rwa [hhalf]

theorem exists_isqrt64 (carry : UInt64 → UInt64 → Option UInt64) (x : UInt64) :
    ∃ r, isqrt64 carry x = some r ∧ r.toNat = Nat.sqrt x.toNat := by
  have hx : x.toNat < 4 ^ 32 := x.toNat_lt
  have hfirst : ((1 : UInt64) <<< 62).toNat = bitOf 32 := rfl
  obtain ⟨bit, n, hstart, hn, hbit, hlt⟩ := exists_isqrtStart (Nat.lt_succ_self 32) hfirst hx
  rw [isqrt64, hstart, Option.bind_eq_bind, Option.bind_some]
  exact exists_isqrtLoop carry (by omega) hn hx hbit (Root.start hlt)

/-- `isqrt64` returns the integer square root of every word, within 33 tests of each of its
    loops; it is the same whatever becomes of an overflow, so there is none. -/
theorem isqrt64_root (x : UInt64) :
    ∃ r, (∀ carry, isqrt64 carry x = some r) ∧
      r.toNat * r.toNat ≤ x.toNat ∧ x.toNat < (r.toNat + 1) * (r.toNat + 1) := by
  obtain ⟨r, -, hr⟩ := exists_isqrt64 (fun _ _ => none) x
  refine ⟨r, fun carry => ?_, Nat.eq_sqrt.mp hr⟩
  obtain ⟨r', hrun, hr'⟩ := exists_isqrt64 carry x
  rw [hrun, UInt64.toNat_inj.mp (hr'.trans hr.symm)]

/-- The `rms` that a full window reports is the largest number whose square is at most the
    mean of the squares. -/
theorem rms_root (carry : UInt64 → UInt64 → Option UInt64) {g : PtpCore}
    (hfull : g.stN ≥ ptpStatsWin) :
    ∃ r, rms carry g = some r ∧ r.toNat * r.toNat * g.stN.toNat ≤ g.stSq.toNat ∧
      g.stSq.toNat < (r.toNat + 1) * (r.toNat + 1) * g.stN.toNat := by
  have hn : 0 < g.stN.toNat := Nat.lt_of_lt_of_le (by decide) (UInt32.le_iff_toNat_le.mp hfull)
  obtain ⟨r, hrun, hr⟩ := exists_isqrt64 carry (g.stSq / g.stN.toUInt64)
  obtain ⟨hle, hlt⟩ := Nat.eq_sqrt.mp hr
  rw [UInt64.toNat_div, UInt32.toNat_toUInt64] at hle hlt
  exact ⟨r, hrun, Nat.mul_le_of_le_div _ _ _ hle, (Nat.div_lt_iff_lt_mul hn).mp hlt⟩

end FlintRTOS
