import Mathlib.Algebra.Order.Ring.Nat
import Mathlib.Data.List.Induction
import Mathlib.Tactic.Ring

/-!
# Big-endian byte strings

`value` is the number that a byte string stands for, most significant byte first, and
`bytes w n` the string of `w` bytes for `n`, whose higher part is lost.

Code that reads such a string shifts the bytes into a word one after the other, or
puts them side by side with shifts and ors; `toNat_shiftIn` and `mul_two_pow_or` say
what both are as arithmetic.
-/

namespace BigEndian

def value (bs : List UInt8) : Nat := bs.foldl (fun v x => v * 256 + x.toNat) 0

def bytes : Nat → Nat → List UInt8
  | 0, _ => []
  | w + 1, n => bytes w (n / 256) ++ [UInt8.ofNat n]

@[simp] theorem value_nil : value [] = 0 := rfl

@[simp] theorem value_concat (bs : List UInt8) (x : UInt8) :
    value (bs ++ [x]) = value bs * 256 + x.toNat := by
  simp [value]

theorem value_append (as bs : List UInt8) :
    value (as ++ bs) = value as * 256 ^ bs.length + value bs := by
  induction bs using List.reverseRecOn with
  | nil => simp
  | append_singleton bs x ih =>
    rw [← List.append_assoc, value_concat, ih, value_concat, List.length_append,
      List.length_singleton, Nat.pow_succ]
    ring

theorem value_cons (x : UInt8) (bs : List UInt8) :
    value (x :: bs) = x.toNat * 256 ^ bs.length + value bs := by
  have h := value_append [x] bs
  simpa [value] using h

theorem value_lt (bs : List UInt8) : value bs < 256 ^ bs.length := by
  induction bs using List.reverseRecOn with
  | nil => simp
  | append_singleton bs x ih =>
    have hx : x.toNat < 256 := x.toNat_lt
    rw [value_concat, List.length_append, List.length_singleton, Nat.pow_succ]
    omega

/-- What was written is read back, up to the part that has no room. -/
theorem value_bytes (w n : Nat) : value (bytes w n) = n % 256 ^ w := by
  induction w generalizing n with
  | zero => simp [bytes, Nat.mod_one]
  | succ w ih =>
    have hlow : (UInt8.ofNat n).toNat = n % 256 := UInt8.toNat_ofNat'
    rw [bytes, value_concat, ih, hlow, Nat.pow_succ', Nat.mod_mul]
    ring

theorem value_bytes_of_lt {w n : Nat} (h : n < 256 ^ w) : value (bytes w n) = n := by
  rw [value_bytes, Nat.mod_eq_of_lt h]

/-! ### Words put together from bytes -/

/-- Nothing overlaps: an or is a sum. -/
theorem mul_two_pow_or {y k : Nat} (h : y < 2 ^ k) (x : Nat) : x * 2 ^ k ||| y = x * 2 ^ k + y := by
  rw [← Nat.shiftLeft_eq, Nat.shiftLeft_add_eq_or_of_lt h]

/-- One more byte is shifted into a word that has room for it. -/
theorem toNat_shiftIn {v : UInt64} (h : v.toNat < 2 ^ 56) (x : UInt8) :
    (v <<< 8 ||| x.toUInt64).toNat = v.toNat * 256 + x.toNat := by
  have hshift : (v <<< 8).toNat = v.toNat * 2 ^ 8 := by
    rw [UInt64.toNat_shiftLeft]
    change v.toNat <<< 8 % 2 ^ 64 = v.toNat * 2 ^ 8
    rw [Nat.shiftLeft_eq]
    omega
  rw [UInt64.toNat_or, hshift, UInt8.toNat_toUInt64]
  exact mul_two_pow_or x.toNat_lt _

theorem toNat_shiftLeft32 (x : UInt8) (k : Nat) (hk : k ≤ 24) :
    (x.toUInt32 <<< UInt32.ofNat k).toNat = x.toNat * 2 ^ k := by
  have hsmall : (UInt32.ofNat k).toNat % 32 = k := by
    rw [UInt32.toNat_ofNat']
    omega
  have hfit : x.toNat * 2 ^ k < 2 ^ 32 := by
    calc x.toNat * 2 ^ k ≤ 255 * 2 ^ 24 :=
          Nat.mul_le_mul (Nat.le_of_lt_succ x.toNat_lt) (Nat.pow_le_pow_right (by decide) hk)
      _ < 2 ^ 32 := by decide
  rw [UInt32.toNat_shiftLeft, hsmall, Nat.shiftLeft_eq, UInt8.toNat_toUInt32, Nat.mod_eq_of_lt hfit]

theorem toNat_join32 (a b c d : UInt8) :
    (a.toUInt32 <<< 24 ||| b.toUInt32 <<< 16 ||| c.toUInt32 <<< 8 ||| d.toUInt32).toNat =
      value [a, b, c, d] := by
  have ha : a.toNat < 256 := a.toNat_lt
  have hb : b.toNat < 256 := b.toNat_lt
  have hc : c.toNat < 256 := c.toNat_lt
  have hd : d.toNat < 256 := d.toNat_lt
  -- from the most significant byte on, each or adds below what is there
  change ((a.toUInt32 <<< UInt32.ofNat 24 ||| b.toUInt32 <<< UInt32.ofNat 16 |||
    c.toUInt32 <<< UInt32.ofNat 8) ||| d.toUInt32).toNat = _
  rw [UInt32.toNat_or, UInt32.toNat_or, UInt32.toNat_or, toNat_shiftLeft32 a 24 (by decide),
    toNat_shiftLeft32 b 16 (by decide), toNat_shiftLeft32 c 8 (by decide), UInt8.toNat_toUInt32]
  have h₁ : a.toNat * 2 ^ 24 ||| b.toNat * 2 ^ 16 = (a.toNat * 256 + b.toNat) * 2 ^ 16 := by
    rw [mul_two_pow_or (by omega)]
    ring
  have h₂ : (a.toNat * 256 + b.toNat) * 2 ^ 16 ||| c.toNat * 2 ^ 8 =
      ((a.toNat * 256 + b.toNat) * 256 + c.toNat) * 2 ^ 8 := by
    rw [mul_two_pow_or (by omega)]
    ring
  rw [h₁, h₂, mul_two_pow_or (by omega)]
  simp [value]

end BigEndian
