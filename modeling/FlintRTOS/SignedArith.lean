import Mathlib.Algebra.Order.Group.Abs
import Mathlib.Algebra.Order.Ring.Int
import Mathlib.Tactic.Ring

/-!
# Signed machine arithmetic

Signed arithmetic in C is exact as long as the result fits its type and undefined
otherwise.  An `Overflow` says what becomes of a result that does not fit: any
value, or a trap.  Code is modelled for every `Overflow`, so what is proved of it
assumes nothing of the compiler; with `trap` a computation that returns has not
overflowed anywhere.

Division truncates towards zero.
-/

/-- What becomes of a result that does not fit; `none` is a trap. -/
structure Overflow where
  int64 : Int → Option Int64
  int32 : Int → Option Int32

def Fits64 (z : Int) : Prop := -2 ^ 63 ≤ z ∧ z < 2 ^ 63

def Fits32 (z : Int) : Prop := -2 ^ 31 ≤ z ∧ z < 2 ^ 31

instance (z : Int) : Decidable (Fits64 z) := inferInstanceAs (Decidable (_ ∧ _))

instance (z : Int) : Decidable (Fits32 z) := inferInstanceAs (Decidable (_ ∧ _))

namespace Overflow

/-- No computation survives an overflow. -/
def trap : Overflow := ⟨fun _ => none, fun _ => none⟩

/-- Two's complement. -/
def wrap : Overflow := ⟨fun z => some (Int64.ofInt z), fun z => some (Int32.ofInt z)⟩

variable (o : Overflow)

def to64 (z : Int) : Option Int64 := if Fits64 z then some (Int64.ofInt z) else o.int64 z

def to32 (z : Int) : Option Int32 := if Fits32 z then some (Int32.ofInt z) else o.int32 z

def add (a b : Int64) : Option Int64 := o.to64 (a.toInt + b.toInt)

def sub (a b : Int64) : Option Int64 := o.to64 (a.toInt - b.toInt)

def mul (a b : Int64) : Option Int64 := o.to64 (a.toInt * b.toInt)

def neg (a : Int64) : Option Int64 := o.to64 (-a.toInt)

def div (a b : Int64) : Option Int64 := if b = 0 then none else o.to64 (a.toInt.tdiv b.toInt)

def mod (a b : Int64) : Option Int64 := if b = 0 then none else o.to64 (a.toInt.tmod b.toInt)

theorem fits64_toInt (a : Int64) : Fits64 a.toInt :=
  ⟨a.le_toInt, a.toInt_lt⟩

theorem toInt_ofInt_of_fits {z : Int} (h : Fits64 z) : (Int64.ofInt z).toInt = z := by
  obtain ⟨hlow, hhigh⟩ := h
  exact Int64.toInt_ofInt_of_le hlow hhigh

/-- A value of the type is returned as it is, whatever overflow does. -/
@[simp] theorem to64_toInt (a : Int64) : o.to64 a.toInt = some a := by
  rw [to64, if_pos (fits64_toInt a), Int64.ofInt_toInt]

/-- A result that fits is exact, whatever overflow does. -/
theorem exists_to64 {z : Int} (h : Fits64 z) : ∃ r, o.to64 z = some r ∧ r.toInt = z :=
  ⟨_, if_pos h, toInt_ofInt_of_fits h⟩

theorem exists_to32 {z : Int} (h : Fits32 z) : ∃ r, o.to32 z = some r ∧ r.toInt = z := by
  obtain ⟨hlow, hhigh⟩ := h
  exact ⟨_, if_pos ⟨hlow, hhigh⟩, Int32.toInt_ofInt_of_le hlow hhigh⟩

@[simp] theorem to32_toInt (a : Int32) : o.to32 a.toInt = some a := by
  rw [to32, if_pos ⟨a.le_toInt, a.toInt_lt⟩, Int32.ofInt_toInt]

theorem wrap_to64 (z : Int) : wrap.to64 z = some (Int64.ofInt z) := by
  rw [to64]
  split <;> rfl

/-- In two's complement the operations are those of `Int64`. -/
theorem wrap_add (a b : Int64) : wrap.add a b = some (a + b) := by
  rw [add, wrap_to64, Int64.ofInt_add, Int64.ofInt_toInt, Int64.ofInt_toInt]

theorem wrap_neg (a : Int64) : wrap.neg a = some (-a) := by
  rw [neg, wrap_to64, Int64.ofInt_neg, Int64.ofInt_toInt]

theorem exists_neg {a : Int64} (h : |a.toInt| < 2 ^ 63) :
    ∃ r, o.neg a = some r ∧ r.toInt = -a.toInt := by
  rw [abs_lt] at h
  exact o.exists_to64 (by constructor <;> omega)

theorem exists_div {a b : Int64} (hb : b ≠ 0) (h : Fits64 (a.toInt.tdiv b.toInt)) :
    ∃ r, o.div a b = some r ∧ r.toInt = a.toInt.tdiv b.toInt := by
  rw [div, if_neg hb]
  exact o.exists_to64 h

theorem exists_mod {a b : Int64} (hb : b ≠ 0) (h : Fits64 (a.toInt.tmod b.toInt)) :
    ∃ r, o.mod a b = some r ∧ r.toInt = a.toInt.tmod b.toInt := by
  rw [mod, if_neg hb]
  exact o.exists_to64 h

/-- A computation whose first part returns a value with `P` returns what the rest makes of
    such a value. -/
theorem exists_bind {α β : Type} {x : Option α} {f : α → Option β} {P : α → Prop} {Q : β → Prop}
    (hx : ∃ a, x = some a ∧ P a) (hf : ∀ a, P a → ∃ b, f a = some b ∧ Q b) :
    ∃ b, (x >>= f) = some b ∧ Q b := by
  obtain ⟨a, rfl, ha⟩ := hx
  exact hf a ha

section operands

variable {a b : Int64} {x y : Int}

theorem exists_add (ha : a.toInt = x) (hb : b.toInt = y) (h : Fits64 (x + y)) :
    ∃ r, o.add a b = some r ∧ r.toInt = x + y := by
  rw [add, ha, hb]
  exact o.exists_to64 h

theorem exists_sub (ha : a.toInt = x) (hb : b.toInt = y) (h : Fits64 (x - y)) :
    ∃ r, o.sub a b = some r ∧ r.toInt = x - y := by
  rw [sub, ha, hb]
  exact o.exists_to64 h

theorem exists_mul (ha : a.toInt = x) (hb : b.toInt = y) (h : Fits64 (x * y)) :
    ∃ r, o.mul a b = some r ∧ r.toInt = x * y := by
  rw [mul, ha, hb]
  exact o.exists_to64 h

theorem exists_tdiv (ha : a.toInt = x) (hb : b.toInt = y) (hy : y ≠ 0) (h : Fits64 (x.tdiv y)) :
    ∃ r, o.div a b = some r ∧ r.toInt = x.tdiv y := by
  subst ha hb
  exact o.exists_div (fun hzero => hy (hzero ▸ rfl)) h

theorem exists_tmod (ha : a.toInt = x) (hb : b.toInt = y) (hy : y ≠ 0) (h : Fits64 (x.tmod y)) :
    ∃ r, o.mod a b = some r ∧ r.toInt = x.tmod y := by
  subst ha hb
  exact o.exists_mod (fun hzero => hy (hzero ▸ rfl)) h

end operands

section naturals

variable {a b : Int64} {m n : Nat}

theorem exists_add_nat (ha : a.toInt = m) (hb : b.toInt = n) (h : m + n < 2 ^ 63) :
    ∃ r, o.add a b = some r ∧ r.toInt = (m + n : Nat) :=
  o.exists_add ha hb (by constructor <;> omega)

theorem exists_sub_nat (ha : a.toInt = m) (hb : b.toInt = n) (h : n ≤ m) :
    ∃ r, o.sub a b = some r ∧ r.toInt = (m - n : Nat) := by
  have hlt := a.toInt_lt
  rw [Int.natCast_sub h]
  exact o.exists_sub ha hb (by constructor <;> omega)

theorem exists_mul_nat (ha : a.toInt = m) (hb : b.toInt = n) (h : m * n < 2 ^ 63) :
    ∃ r, o.mul a b = some r ∧ r.toInt = (m * n : Nat) := by
  rw [Int.natCast_mul]
  refine o.exists_mul ha hb ?_
  rw [← Int.natCast_mul]
  constructor <;> omega

theorem exists_div_nat (ha : a.toInt = m) (hb : b.toInt = n) (h : 0 < n) :
    ∃ r, o.div a b = some r ∧ r.toInt = (m / n : Nat) := by
  have hle : m / n ≤ m := Nat.div_le_self m n
  have hnonneg : (0 : Int) ≤ (m / n : Nat) := Int.natCast_nonneg _
  have hlt := a.toInt_lt
  rw [Int.ofNat_tdiv]
  refine o.exists_tdiv ha hb (by omega) ?_
  rw [← Int.ofNat_tdiv]
  constructor <;> omega

theorem exists_mod_nat (ha : a.toInt = m) (hb : b.toInt = n) (h : 0 < n) :
    ∃ r, o.mod a b = some r ∧ r.toInt = (m % n : Nat) := by
  have hle : m % n ≤ m := Nat.mod_le m n
  have hlt := a.toInt_lt
  rw [Int.ofNat_tmod]
  refine o.exists_tmod ha hb (by omega) ?_
  rw [← Int.ofNat_tmod]
  constructor <;> omega

end naturals

@[simp] theorem to64_zero : o.to64 0 = some 0 := o.to64_toInt 0

@[simp] theorem add_zero (a : Int64) : o.add a 0 = some a := by
  simp [add]

@[simp] theorem zero_mul (a : Int64) : o.mul 0 a = some 0 := by
  simp [mul]

theorem zero_div {a : Int64} (ha : a ≠ 0) : o.div 0 a = some 0 := by
  simp [div, ha]

theorem zero_mod {a : Int64} (ha : a ≠ 0) : o.mod 0 a = some 0 := by
  simp [mod, ha]

/-- An overflow does not stop a computation. -/
def Continues (o : Overflow) : Prop := ∀ z, (o.int64 z).isSome

theorem Continues.to64 {o : Overflow} (h : o.Continues) (z : Int) : (o.to64 z).isSome := by
  unfold Overflow.to64
  split
  · rfl
  · exact h z

theorem Continues.div {o : Overflow} (h : o.Continues) (a : Int64) {b : Int64} (hb : b ≠ 0) :
    (o.div a b).isSome := by
  rw [Overflow.div, if_neg hb]
  exact h.to64 _

theorem Continues.mod {o : Overflow} (h : o.Continues) (a : Int64) {b : Int64} (hb : b ≠ 0) :
    (o.mod a b).isSome := by
  rw [Overflow.mod, if_neg hb]
  exact h.to64 _

theorem trap_to64 {z : Int} {r : Int64} (h : trap.to64 z = some r) : r.toInt = z := by
  unfold to64 at h
  split at h
  · rename_i hfits
    cases h
    exact toInt_ofInt_of_fits hfits
  · cases h

theorem trap_add {a b r : Int64} (h : trap.add a b = some r) : r.toInt = a.toInt + b.toInt :=
  trap_to64 h

theorem trap_mul {a b r : Int64} (h : trap.mul a b = some r) : r.toInt = a.toInt * b.toInt :=
  trap_to64 h

theorem trap_div {a b r : Int64} (h : trap.div a b = some r) :
    r.toInt = a.toInt.tdiv b.toInt := by
  unfold div at h
  split at h
  · cases h
  · exact trap_to64 h

theorem trap_mod {a b r : Int64} (h : trap.mod a b = some r) :
    r.toInt = a.toInt.tmod b.toInt := by
  unfold mod at h
  split at h
  · cases h
  · exact trap_to64 h

/-- A small unsigned number reads the same as a signed one. -/
theorem toInt_toInt64 {x : UInt64} (h : x.toNat < 2 ^ 63) : x.toInt64.toInt = x.toNat := by
  have hlt : 2 * x.toBitVec.toNat < 2 ^ 64 := by
    have heq : x.toBitVec.toNat = x.toNat := rfl
    omega
  exact BitVec.toInt_eq_toNat_of_lt hlt

theorem toNat_lt_of_nonneg {x : UInt64} (h : 0 ≤ x.toInt64) : x.toNat < 2 ^ 63 := by
  have hint : 0 ≤ x.toBitVec.toInt := Int64.le_iff_toInt_le.mp h
  have heq : x.toBitVec.toNat = x.toNat := rfl
  have hlt := x.toNat_lt
  rw [BitVec.toInt_eq_toNat_cond, heq] at hint
  split at hint <;> omega

theorem toNat_toUInt64 {a : Int64} {n : Nat} (h : a.toInt = n) : a.toUInt64.toNat = n := by
  have hcond : a.toInt = if 2 * a.toUInt64.toNat < 2 ^ 64 then (a.toUInt64.toNat : Int)
      else a.toUInt64.toNat - 2 ^ 64 :=
    BitVec.toInt_eq_toNat_cond a.toBitVec
  have hlt := a.toUInt64.toNat_lt
  split at hcond <;> omega

theorem toNat_toUInt32 (x : Int32) : (x.toUInt32.toNat : Int) = x.toInt % 4294967296 := by
  have hint : x.toInt = (x.toUInt32.toNat : Int).bmod 4294967296 :=
    BitVec.toInt_eq_toNat_bmod x.toBitVec
  have hlt : x.toUInt32.toNat < 2 ^ 32 := x.toUInt32.toNat_lt
  have hmod := Int.bmod_emod (x := (x.toUInt32.toNat : Int)) (m := 4294967296)
  rw [hint]
  omega

/-- The sign of the difference of two readings of a clock of 32 bits says which is the
    later, as long as they are less than half its period apart. -/
theorem sub_toInt32_nonneg_iff {t s : Nat} (hs : s ≤ t + 2 ^ 31) (ht : t < s + 2 ^ 31) :
    (UInt32.ofNat t - UInt32.ofNat s).toInt32 ≥ 0 ↔ s ≤ t := by
  have hint : (UInt32.ofNat t - UInt32.ofNat s).toInt32.toInt =
      if 2 * (UInt32.ofNat t - UInt32.ofNat s).toNat < 2 ^ 32 then
        ((UInt32.ofNat t - UInt32.ofNat s).toNat : Int)
      else (UInt32.ofNat t - UInt32.ofNat s).toNat - 2 ^ 32 :=
    BitVec.toInt_eq_toNat_cond _
  have hdiff : (UInt32.ofNat t - UInt32.ofNat s).toNat =
      (2 ^ 32 - s % 2 ^ 32 + t % 2 ^ 32) % 2 ^ 32 := by
    rw [UInt32.toNat_sub, UInt32.toNat_ofNat', UInt32.toNat_ofNat']
  rw [ge_iff_le, Int32.le_iff_toInt_le, hint, hdiff, Int32.toInt_zero]
  split <;> omega

/-- A quotient by at least `k` is smaller by that factor. -/
theorem abs_tdiv_le {z m k c : Int} (hk : 0 < k) (hm : k ≤ m) (hz : |z| ≤ k * c) :
    |z.tdiv m| ≤ c := by
  have hc : 0 ≤ c := by
    by_contra hneg
    have hprod := Int.mul_neg_of_pos_of_neg hk (not_le.mp hneg)
    have hnonneg := abs_nonneg z
    omega
  have hquot : (z.tdiv m).natAbs = z.natAbs / m.natAbs := Int.natAbs_tdiv z m
  have hle : z.natAbs ≤ m.natAbs * c.natAbs := by
    rw [← Int.natAbs_mul]
    have hmul : k * c ≤ m * c := Int.mul_le_mul_of_nonneg_right hm hc
    rw [abs_le] at hz
    omega
  have hdiv : z.natAbs / m.natAbs ≤ c.natAbs := Nat.div_le_of_le_mul hle
  rw [abs_le]
  omega

theorem abs_tmod_lt (z : Int) {m : Int} (hm : 0 < m) : |z.tmod m| < m := by
  have hnat : (z.tmod m).natAbs = z.natAbs % m.natAbs := Int.natAbs_tmod z m
  have hlt : z.natAbs % m.natAbs < m.natAbs := Nat.mod_lt _ (by omega)
  rw [abs_lt]
  omega

/-- Truncating rounds a negative number down once it is shifted by one less than the
    divisor. -/
theorem sub_tdiv_eq_ediv {x y : Int} (hx : x < 0) (hy : 0 < y) :
    (x - (y - 1)).tdiv y = x / y := by
  have hneg : x - (y - 1) = -(y - 1 - x) := by omega
  rw [hneg, Int.neg_tdiv, Int.tdiv_eq_ediv_of_nonneg (by omega)]
  have hdiv := Int.emod_add_mul_ediv (y - 1 - x) y
  have hnonneg := Int.emod_nonneg (y - 1 - x) hy.ne'
  have hlt := Int.emod_lt_of_pos (y - 1 - x) hy
  have hsplit : x = y - 1 - (y - 1 - x) % y + y * -((y - 1 - x) / y) := by
    rw [Int.mul_neg]
    omega
  have hzero : (y - 1 - (y - 1 - x) % y) / y = 0 := Int.ediv_eq_zero_of_lt (by omega) (by omega)
  conv_rhs => rw [hsplit, Int.add_mul_ediv_left _ _ hy.ne', hzero, Int.zero_add]

theorem tdiv_add_of_nonneg {x y n : Int} (hx : 0 ≤ x) (hy : 0 ≤ y) (hn : 0 < n) :
    x.tdiv n + y.tdiv n ≤ (x + y).tdiv n ∧ (x + y).tdiv n ≤ x.tdiv n + y.tdiv n + 1 := by
  rw [Int.tdiv_eq_ediv_of_nonneg hx, Int.tdiv_eq_ediv_of_nonneg hy,
    Int.tdiv_eq_ediv_of_nonneg (Int.add_nonneg hx hy)]
  have hsplit : x + y = x % n + y % n + n * (x / n + y / n) := by
    have hxdiv := Int.emod_add_mul_ediv x n
    have hydiv := Int.emod_add_mul_ediv y n
    rw [Int.mul_add]
    omega
  have hxmod := Int.emod_lt_of_pos x hn
  have hymod := Int.emod_lt_of_pos y hn
  have hxnonneg := Int.emod_nonneg x hn.ne'
  have hynonneg := Int.emod_nonneg y hn.ne'
  have hlow : 0 ≤ (x % n + y % n) / n := Int.ediv_nonneg (by omega) hn.le
  have hhigh : (x % n + y % n) / n < 2 := Int.ediv_lt_of_lt_mul hn (by omega)
  have hquot : (x + y) / n = (x % n + y % n) / n + (x / n + y / n) := by
    conv_lhs => rw [hsplit]
    exact Int.add_mul_ediv_left _ _ hn.ne'
  omega

theorem tdiv_mul_split_of_nonneg {a b c : Int} (ha : 0 ≤ a) (hb : 0 < b) (hc : 0 ≤ c) :
    a.tdiv b * c + (a.tmod b * c).tdiv b = (a * c).tdiv b := by
  have hrem : 0 ≤ a.tmod b * c := Int.mul_nonneg (Int.tmod_nonneg b ha) hc
  rw [Int.tdiv_eq_ediv_of_nonneg ha, Int.tdiv_eq_ediv_of_nonneg hrem,
    Int.tdiv_eq_ediv_of_nonneg (Int.mul_nonneg ha hc), Int.tmod_eq_emod_of_nonneg ha]
  have hsplit : a * c = a % b * c + a / b * c * b := by
    calc a * c = (a % b + b * (a / b)) * c := by rw [Int.emod_add_mul_ediv]
      _ = a % b * c + a / b * c * b := by ring
  rw [hsplit, Int.add_mul_ediv_right _ _ hb.ne', Int.add_comm]

/-- Multiplying quotient and remainder apart gives the quotient of the product. -/
theorem tdiv_mul_split (a c : Int) {b : Int} (hb : 0 < b) :
    a.tdiv b * c + (a.tmod b * c).tdiv b = (a * c).tdiv b := by
  -- truncation is odd in each factor, so signs are reflected away one after the other
  have hleft : ∀ a c : Int, 0 ≤ c → a.tdiv b * c + (a.tmod b * c).tdiv b = (a * c).tdiv b := by
    intro a c hc
    rcases Int.le_total 0 a with ha | ha
    · exact tdiv_mul_split_of_nonneg ha hb hc
    · have h := tdiv_mul_split_of_nonneg (Int.neg_nonneg_of_nonpos ha) hb hc
      simp only [Int.neg_tdiv, Int.neg_tmod, Int.neg_mul] at h
      omega
  rcases Int.le_total 0 c with hc | hc
  · exact hleft a c hc
  · have h := hleft a (-c) (Int.neg_nonneg_of_nonpos hc)
    simp only [Int.mul_neg, Int.neg_tdiv] at h
    omega

end Overflow
