import Mathlib.Algebra.Order.Ring.Nat
import Mathlib.Logic.Function.Basic

/-!
# Straight-line AArch64 code

The registers `x0`, …, `x30`, the stack pointer, the system registers an exception uses and
a memory of words of 64 bits, with the instructions that move words between them.  An access
at an address that is not a multiple of 8 faults: `none`.  So memory is a function of
addresses of which only the multiples of 8 matter, and two words do not overlap.  The check
that `sp` is a multiple of 16 when memory is addressed by it is not modelled.

Arrays of words are written by `putWords`; a row of `stp` or `ldp` relative to `sp` stores
or loads registers as an array.
-/

namespace A64

/-! ### The machine -/

/-- There are registers to number. -/
instance neZero_registers : NeZero 31 := ⟨by decide⟩

inductive SysReg where
  | spsrEl1
  | elrEl1
  | esrEl1
deriving DecidableEq, Repr

inductive Base where
  | sp
  | x (n : Fin 31)
deriving DecidableEq, Repr

inductive Instr where
  /-- `sub sp, sp, #imm` -/
  | subSp (imm : UInt64)
  /-- `add sp, sp, #imm` -/
  | addSp (imm : UInt64)
  /-- `stp xa, xb, [base, #off]` -/
  | stp (a b : Fin 31) (base : Base) (off : Nat)
  /-- `ldp xa, xb, [base, #off]` -/
  | ldp (a b : Fin 31) (base : Base) (off : Nat)
  /-- `str xa, [base, #off]` -/
  | str (a : Fin 31) (base : Base) (off : Nat)
  /-- `ldr xa, [base, #off]` -/
  | ldr (a : Fin 31) (base : Base) (off : Nat)
  /-- `ldr xa, =value` -/
  | ldrLit (a : Fin 31) (value : UInt64)
  | mrs (a : Fin 31) (r : SysReg)
  | msr (r : SysReg) (a : Fin 31)
  /-- `mov xa, sp` -/
  | movFromSp (a : Fin 31)
  /-- `mov sp, xa` -/
  | movToSp (a : Fin 31)
  /-- `lsr xd, xn, #shift` -/
  | lsr (d n : Fin 31) (shift : UInt64)
  | eret
deriving DecidableEq, Repr

structure Cpu where
  x : Fin 31 → UInt64
  sp : UInt64
  spsr : UInt64
  elr : UInt64
  esr : UInt64
  pc : UInt64
  pstate : UInt64
  mem : UInt64 → UInt64

def Aligned (a : UInt64) : Prop := a.toNat % 8 = 0

instance (a : UInt64) : Decidable (Aligned a) := inferInstanceAs (Decidable (_ = _))

namespace Cpu

def setX (c : Cpu) (r : Fin 31) (v : UInt64) : Cpu :=
  { c with x := Function.update c.x r v }

def base (c : Cpu) : Base → UInt64
  | .sp => c.sp
  | .x n => c.x n

def load (c : Cpu) (a : UInt64) : Option UInt64 :=
  if Aligned a then some (c.mem a) else none

def store (c : Cpu) (a v : UInt64) : Option Cpu :=
  if Aligned a then some { c with mem := Function.update c.mem a v } else none

def getSys (c : Cpu) : SysReg → UInt64
  | .spsrEl1 => c.spsr
  | .elrEl1 => c.elr
  | .esrEl1 => c.esr

def setSys (c : Cpu) (v : UInt64) : SysReg → Cpu
  | .spsrEl1 => { c with spsr := v }
  | .elrEl1 => { c with elr := v }
  | .esrEl1 => { c with esr := v }

end Cpu

def exec (c : Cpu) : Instr → Option Cpu
  | .subSp imm => some { c with sp := c.sp - imm }
  | .addSp imm => some { c with sp := c.sp + imm }
  | .stp a b base off => do
    let addr := c.base base + UInt64.ofNat off
    let c' ← c.store addr (c.x a)
    c'.store (addr + 8) (c.x b)
  | .ldp a b base off => do
    let addr := c.base base + UInt64.ofNat off
    let v ← c.load addr
    let w ← c.load (addr + 8)
    return (c.setX a v).setX b w
  | .str a base off => c.store (c.base base + UInt64.ofNat off) (c.x a)
  | .ldr a base off => do
    let v ← c.load (c.base base + UInt64.ofNat off)
    return c.setX a v
  | .ldrLit a value => some (c.setX a value)
  | .mrs a r => some (c.setX a (c.getSys r))
  | .msr r a => some (c.setSys (c.x a) r)
  | .movFromSp a => some (c.setX a c.sp)
  | .movToSp a => some { c with sp := c.x a }
  | .lsr d n shift => some (c.setX d (c.x n >>> shift))
  | .eret => some { c with pc := c.elr, pstate := c.spsr }

def run : List Instr → Cpu → Option Cpu
  | [], c => some c
  | i :: is, c => (exec c i).bind (run is)

@[simp] theorem run_nil (c : Cpu) : run [] c = some c := rfl

theorem run_cons (i : Instr) (is : List Instr) (c : Cpu) :
    run (i :: is) c = (exec c i).bind (run is) := rfl

theorem run_append (is js : List Instr) (c : Cpu) :
    run (is ++ js) c = (run is c).bind (run js) := by
  induction is generalizing c with
  | nil => rfl
  | cons i is ih =>
    rw [List.cons_append, run_cons, run_cons, Option.bind_assoc]
    exact congrArg _ (funext ih)

variable {c : Cpu}

theorem run_append_of_eq {is js : List Instr} {c' : Cpu} (h : run is c = some c') :
    run (is ++ js) c = run js c' := by
  rw [run_append, h, Option.bind_some]

theorem load_of_aligned {a : UInt64} (h : Aligned a) : c.load a = some (c.mem a) :=
  if_pos h

theorem store_of_aligned {a : UInt64} (h : Aligned a) (v : UInt64) :
    c.store a v = some { c with mem := Function.update c.mem a v } :=
  if_pos h

theorem exec_ldr_reg {n : Fin 31} (h : Aligned (c.x n)) (a : Fin 31) :
    exec c (.ldr a (.x n) 0) = some (c.setX a (c.mem (c.x n))) := by
  change (c.load (c.x n + 0)).bind (fun v => some (c.setX a v)) = _
  rw [UInt64.add_zero, load_of_aligned h]
  rfl

theorem exec_str_reg {n : Fin 31} (h : Aligned (c.x n)) (a : Fin 31) :
    exec c (.str a (.x n) 0) = some { c with mem := Function.update c.mem (c.x n) (c.x a) } := by
  change c.store (c.x n + 0) (c.x a) = _
  rw [UInt64.add_zero, store_of_aligned h]

/-! ### Arrays of words -/

/-- The address of a word of an array. -/
def word (base : UInt64) (k : Nat) : UInt64 := base + UInt64.ofNat (8 * k)

theorem word_add_eight (base : UInt64) (k : Nat) : word base k + 8 = word base (k + 1) := by
  rw [word, word, UInt64.add_assoc, Nat.mul_add, UInt64.ofNat_add]
  rfl

theorem Aligned.word {base : UInt64} (h : Aligned base) (k : Nat) : Aligned (word base k) := by
  unfold Aligned at *
  rw [A64.word, UInt64.toNat_add, UInt64.toNat_ofNat']
  omega

theorem toNat_word {base : UInt64} {k : Nat} (h : base.toNat + 8 * k < 2 ^ 64) :
    (word base k).toNat = base.toNat + 8 * k := by
  rw [word, UInt64.toNat_add, UInt64.toNat_ofNat']
  omega

theorem word_inj {base : UInt64} {i j : Nat} (hi : i < 2 ^ 61) (hj : j < 2 ^ 61)
    (h : word base i = word base j) : i = j := by
  have hnat := congrArg UInt64.toNat h
  rw [word, word, UInt64.toNat_add, UInt64.toNat_add, UInt64.toNat_ofNat',
    UInt64.toNat_ofNat'] at hnat
  omega

theorem update_word (mem : UInt64 → UInt64) (base v : UInt64) {i k : Nat} (hi : i < 2 ^ 61)
    (hk : k < 2 ^ 61) :
    Function.update mem (word base i) v (word base k) = if k = i then v else mem (word base k) := by
  split
  · next h => rw [h, Function.update_self]
  · next h => rw [Function.update_of_ne fun heq => h (word_inj hk hi heq)]

/-- The first `n` words of the array are written, in this order. -/
def putWords (mem : UInt64 → UInt64) (base : UInt64) (f : Nat → UInt64) : Nat → UInt64 → UInt64
  | 0 => mem
  | n + 1 => Function.update (putWords mem base f n) (word base n) (f n)

section putWords

variable {mem : UInt64 → UInt64} {base : UInt64} {f : Nat → UInt64} {n : Nat}

theorem putWords_word {k : Nat} (hk : k < n) (hn : n ≤ 2 ^ 61) :
    putWords mem base f n (word base k) = f k := by
  induction n with
  | zero => exact absurd hk (Nat.not_lt_zero k)
  | succ n ih =>
    rw [putWords, update_word _ _ _ (by omega) (by omega)]
    split
    · next h => rw [h]
    · next h => exact ih (by omega) (by omega)

theorem putWords_of_ne {a : UInt64} (ha : ∀ k, k < n → a ≠ word base k) :
    putWords mem base f n a = mem a := by
  induction n with
  | zero => rfl
  | succ n ih =>
    rw [putWords, Function.update_of_ne (ha n (Nat.lt_succ_self n))]
    exact ih fun k hk => ha k (Nat.lt_succ_of_lt hk)

theorem putWords_congr {g : Nat → UInt64} (h : ∀ k, k < n → f k = g k) :
    putWords mem base f n = putWords mem base g n := by
  induction n with
  | zero => rfl
  | succ n ih =>
    rw [putWords, putWords, ih fun k hk => h k (Nat.lt_succ_of_lt hk), h n (Nat.lt_succ_self n)]

end putWords

/-! ### Rows of registers -/

/-- `stp x0, x1, [sp]`, `stp x2, x3, [sp, #16]`, … -/
def storePairs : Nat → List Instr
  | 0 => []
  | n + 1 => storePairs n ++ [.stp (Fin.ofNat 31 (2 * n)) (Fin.ofNat 31 (2 * n + 1)) .sp (16 * n)]

/-- …, `ldp x2, x3, [sp, #16]`, `ldp x0, x1, [sp]`. -/
def loadPairs : Nat → List Instr
  | 0 => []
  | n + 1 => .ldp (Fin.ofNat 31 (2 * n)) (Fin.ofNat 31 (2 * n + 1)) .sp (16 * n) :: loadPairs n

theorem off_eq_word (base : UInt64) (n : Nat) : base + UInt64.ofNat (16 * n) = word base (2 * n) := by
  rw [word, ← Nat.mul_assoc]

theorem exec_stp_word (h : Aligned c.sp) (a b : Fin 31) (n : Nat) :
    exec c (.stp a b .sp (16 * n)) =
      some { c with
        mem := Function.update (Function.update c.mem (word c.sp (2 * n)) (c.x a))
          (word c.sp (2 * n + 1)) (c.x b) } := by
  change (c.store (c.sp + UInt64.ofNat (16 * n)) (c.x a)).bind
    (fun c' => c'.store (c.sp + UInt64.ofNat (16 * n) + 8) (c.x b)) = _
  rw [off_eq_word, word_add_eight, store_of_aligned (h.word _), Option.bind_some,
    store_of_aligned (h.word _)]

theorem exec_ldp_word (h : Aligned c.sp) (a b : Fin 31) (n : Nat) :
    exec c (.ldp a b .sp (16 * n)) =
      some ((c.setX a (c.mem (word c.sp (2 * n)))).setX b (c.mem (word c.sp (2 * n + 1)))) := by
  change (c.load (c.sp + UInt64.ofNat (16 * n))).bind (fun v =>
    (c.load (c.sp + UInt64.ofNat (16 * n) + 8)).bind fun w => some ((c.setX a v).setX b w)) = _
  rw [off_eq_word, word_add_eight, load_of_aligned (h.word _), load_of_aligned (h.word _)]
  rfl

theorem exec_str_word (h : Aligned c.sp) (a : Fin 31) (n : Nat) :
    exec c (.str a .sp (16 * n)) =
      some { c with mem := Function.update c.mem (word c.sp (2 * n)) (c.x a) } := by
  change c.store (c.sp + UInt64.ofNat (16 * n)) (c.x a) = _
  rw [off_eq_word, store_of_aligned (h.word _)]

theorem exec_ldr_word (h : Aligned c.sp) (a : Fin 31) (n : Nat) :
    exec c (.ldr a .sp (16 * n)) = some (c.setX a (c.mem (word c.sp (2 * n)))) := by
  change (c.load (c.sp + UInt64.ofNat (16 * n))).bind (fun v => some (c.setX a v)) = _
  rw [off_eq_word, load_of_aligned (h.word _)]
  rfl

/-- A row of stores writes the registers as an array. -/
theorem run_storePairs (h : Aligned c.sp) (n : Nat) :
    run (storePairs n) c =
      some { c with mem := putWords c.mem c.sp (fun k => c.x (Fin.ofNat 31 k)) (2 * n) } := by
  induction n with
  | zero => rfl
  | succ n ih =>
    rw [storePairs, run_append_of_eq ih, run_cons, exec_stp_word]
    · rfl
    · exact h

theorem run_loadPairs (h : Aligned c.sp) {n : Nat} (hn : n ≤ 15) :
    run (loadPairs n) c =
      some { c with x := fun r => if r.val < 2 * n then c.mem (word c.sp r.val) else c.x r } := by
  induction n generalizing c with
  | zero => rfl
  | succ n ih =>
    rw [loadPairs, run_cons, exec_ldp_word h, Option.bind_some]
    rw [ih ?_ (by omega)]
    swap
    · exact h
    simp only [Cpu.setX]
    congr 2
    funext r
    have hfirst : (Fin.ofNat 31 (2 * n)).val = 2 * n := Nat.mod_eq_of_lt (by omega)
    have hsecond : (Fin.ofNat 31 (2 * n + 1)).val = 2 * n + 1 := Nat.mod_eq_of_lt (by omega)
    -- The registers below are loaded later, those above are not touched.
    by_cases hlow : r.val < 2 * n
    · rw [if_pos hlow, if_pos (by omega)]
    · rw [if_neg hlow]
      by_cases hr : r = Fin.ofNat 31 (2 * n + 1)
      · rw [hr, Function.update_self, hsecond, if_pos (by omega)]
      · rw [Function.update_of_ne hr]
        by_cases hr' : r = Fin.ofNat 31 (2 * n)
        · rw [hr', Function.update_self, hfirst, if_pos (by omega)]
        · have hne : r.val ≠ 2 * n + 1 := fun h => hr (Fin.ext (h.trans hsecond.symm))
          have hne' : r.val ≠ 2 * n := fun h => hr' (Fin.ext (h.trans hfirst.symm))
          rw [Function.update_of_ne hr', if_neg (by omega)]

end A64
