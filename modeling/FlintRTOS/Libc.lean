import FlintRTOS.QueueBuffer
import Mathlib.Logic.Function.Basic

/-!
# Copying bytes

`memcpy` and `memmove` of `flint_libc.c`, over a memory of bytes at natural addresses.

Both copy byte by byte, so a byte of the source may have been overwritten before it is
read.  `Copied` says what a loop has done so far: an interval of the destination holds the
source as it was, and nothing else has changed.  A further byte keeps it if the byte that
is read lies outside what was written, which the direction of the loop ensures.

The queues copy with `memcpyIn` and `memcpyOut`; one after the other they are a copy of
all bytes at once, and the loops are equal to it.
-/

namespace FlintRTOS

/-! ### `flint_libc.c` -/

/-- `d[i] = s[i]`. -/
def copyByte (d s i : Nat) (mem : Nat → UInt8) : Nat → UInt8 :=
  Function.update mem (d + i) (mem (s + i))

/-- The first `n` rounds of a loop that counts `i` up from 0. -/
def copyUp (d s : Nat) (mem : Nat → UInt8) : Nat → Nat → UInt8
  | 0 => mem
  | i + 1 => copyByte d s i (copyUp d s mem i)

/-- The loop that counts `i` down from `n` and copies the byte at `i - 1`. -/
def copyDown (d s : Nat) (mem : Nat → UInt8) : Nat → Nat → UInt8
  | 0 => mem
  | i + 1 => copyDown d s (copyByte d s i mem) i

def memcpy (mem : Nat → UInt8) (dest src n : Nat) : Nat × (Nat → UInt8) :=
  (dest, copyUp dest src mem n)

def memmove (mem : Nat → UInt8) (dest src n : Nat) : Nat × (Nat → UInt8) :=
  if dest < src then (dest, copyUp dest src mem n) else (dest, copyDown dest src mem n)

/-! ### What a loop has copied -/

/-- From `mem` to `m` exactly the bytes `lo`, …, `hi - 1` were copied from `s` to `d`. -/
structure Copied (d s lo hi : Nat) (mem m : Nat → UInt8) : Prop where
  copied : ∀ i, lo ≤ i → i < hi → m (d + i) = mem (s + i)
  rest : ∀ a, a < d + lo ∨ d + hi ≤ a → m a = mem a

section loops

variable {d s lo hi n : Nat} {mem m : Nat → UInt8}

theorem Copied.nothing (k : Nat) : Copied d s k k mem mem :=
  ⟨fun _ hlo hhi => absurd hhi (Nat.not_lt.mpr hlo), fun _ _ => rfl⟩

/-- One byte further up; the byte that is read was not written. -/
theorem Copied.up (h : Copied d s 0 hi mem m) (hread : s + hi < d ∨ d ≤ s) :
    Copied d s 0 (hi + 1) mem (copyByte d s hi m) := by
  have hsource : m (s + hi) = mem (s + hi) := h.rest _ (by omega)
  refine ⟨fun i _ hi' => ?_, fun a ha => ?_⟩
  · rcases Nat.lt_succ_iff_lt_or_eq.mp hi' with hlt | rfl
    · rw [copyByte, Function.update_of_ne (by omega)]
      exact h.copied i (Nat.zero_le i) hlt
    · rw [copyByte, Function.update_self, hsource]
  · rw [copyByte, Function.update_of_ne (by omega)]
    exact h.rest a (by omega)

theorem Copied.down (h : Copied d s (lo + 1) hi mem m) (hread : s ≤ d) (hlo : lo < hi) :
    Copied d s lo hi mem (copyByte d s lo m) := by
  have hsource : m (s + lo) = mem (s + lo) := h.rest _ (by omega)
  refine ⟨fun i hi' hhi => ?_, fun a ha => ?_⟩
  · rcases Nat.eq_or_lt_of_le hi' with rfl | hlt
    · rw [copyByte, Function.update_self, hsource]
    · rw [copyByte, Function.update_of_ne (by omega)]
      exact h.copied i hlt hhi
  · rw [copyByte, Function.update_of_ne (by omega)]
    exact h.rest a (by omega)

theorem copied_copyUp (h : d ≤ s ∨ s + n ≤ d) : Copied d s 0 n mem (copyUp d s mem n) := by
  induction n with
  | zero => exact Copied.nothing 0
  | succ i ih => exact (ih (by omega)).up (by omega)

-- The bytes above `i` are copied already; the loop runs on the memory it has changed.
theorem Copied.copyDown {i : Nat} (h : Copied d s i n mem m) (hread : s ≤ d) (hi : i ≤ n) :
    Copied d s 0 n mem (FlintRTOS.copyDown d s m i) := by
  induction i generalizing m with
  | zero => exact h
  | succ i ih => exact ih (h.down hread (by omega)) (by omega)

/-- The copied interval and the rest determine the memory. -/
theorem Copied.eq_memcpyIn (h : Copied d s 0 n mem m) :
    m = memcpyIn mem d (memcpyOut mem s n) := by
  funext a
  rw [memcpyIn, length_memcpyOut]
  split
  · next ha =>
    obtain ⟨i, rfl⟩ := Nat.exists_eq_add_of_le ha.1
    have hi : i < n := by omega
    simp [memcpyOut, hi, h.copied i (Nat.zero_le i) hi]
  · exact h.rest a (by omega)

end loops

/-- `memcpy` copies the bytes as they were if the two do not overlap, and also if the
    destination lies below. -/
theorem memcpy_eq_memcpyIn {mem : Nat → UInt8} {dest src n : Nat}
    (h : dest ≤ src ∨ src + n ≤ dest) :
    memcpy mem dest src n = (dest, memcpyIn mem dest (memcpyOut mem src n)) := by
  rw [memcpy, (copied_copyUp h).eq_memcpyIn]

theorem copied_memmove (mem : Nat → UInt8) (dest src n : Nat) :
    Copied dest src 0 n mem (memmove mem dest src n).2 := by
  unfold memmove
  split
  · next hlt => exact copied_copyUp (Or.inl (Nat.le_of_lt hlt))
  · next hge => exact (Copied.nothing n).copyDown (Nat.le_of_not_lt hge) (Nat.le_refl n)

theorem memmove_dest (mem : Nat → UInt8) (dest src n : Nat) :
    (memmove mem dest src n).1 = dest := by
  unfold memmove
  split <;> rfl

/-- `memmove` is the copy of all bytes at once, however the two overlap. -/
theorem memmove_eq_memcpyIn (mem : Nat → UInt8) (dest src n : Nat) :
    memmove mem dest src n = (dest, memcpyIn mem dest (memcpyOut mem src n)) :=
  Prod.ext (memmove_dest mem dest src n) (copied_memmove mem dest src n).eq_memcpyIn

/-- The destination holds what the source held before the call, every other byte is as it
    was, and the destination is returned. -/
theorem memmove_copies (mem : Nat → UInt8) (dest src n : Nat) :
    (∀ i, i < n → (memmove mem dest src n).2 (dest + i) = mem (src + i)) ∧
      (∀ a, a < dest ∨ dest + n ≤ a → (memmove mem dest src n).2 a = mem a) ∧
        (memmove mem dest src n).1 = dest := by
  have h := copied_memmove mem dest src n
  exact ⟨fun i hi => h.copied i (Nat.zero_le i) hi, h.rest, memmove_dest mem dest src n⟩

-- Upwards a destination above its source would smear the first bytes over the rest.
example : (List.range 6).map (memmove (fun a => UInt8.ofNat a) 2 0 4).2 = [0, 1, 0, 1, 2, 3] := by
  decide

example : (List.range 6).map (memcpy (fun a => UInt8.ofNat a) 2 0 4).2 = [0, 1, 0, 1, 0, 1] := by
  decide

end FlintRTOS
