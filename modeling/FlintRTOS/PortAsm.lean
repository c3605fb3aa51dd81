import FlintRTOS.A64

/-!
# Saving and restoring a task

The macros of `portASM.S`, instruction by instruction, and `pxPortInitialiseStack` of
`port.c`, which builds by hand what they save.

A frame is 34 words on the task's stack: `x0`, …, `x30`, `SPSR_EL1`, `ELR_EL1` and one word
that is not used.  `Saved` says that the first word of a TCB points to such a frame.  Saving
a task and building one establish it; resuming a task reads its registers off it.
-/

namespace FlintRTOS

open A64

/-! ### `portASM.S` -/

def saveCtx : List Instr :=
  [.subSp (34 * 8),
    .stp 0 1 .sp (16 * 0),
    .stp 2 3 .sp (16 * 1),
    .stp 4 5 .sp (16 * 2),
    .stp 6 7 .sp (16 * 3),
    .stp 8 9 .sp (16 * 4),
    .stp 10 11 .sp (16 * 5),
    .stp 12 13 .sp (16 * 6),
    .stp 14 15 .sp (16 * 7),
    .stp 16 17 .sp (16 * 8),
    .stp 18 19 .sp (16 * 9),
    .stp 20 21 .sp (16 * 10),
    .stp 22 23 .sp (16 * 11),
    .stp 24 25 .sp (16 * 12),
    .stp 26 27 .sp (16 * 13),
    .stp 28 29 .sp (16 * 14),
    .mrs 0 .spsrEl1,
    .mrs 1 .elrEl1,
    .stp 30 0 .sp (16 * 15),
    .str 1 .sp (16 * 16)]

def restoreCtx : List Instr :=
  [.ldr 1 .sp (16 * 16),
    .ldp 30 0 .sp (16 * 15),
    .msr .elrEl1 1,
    .msr .spsrEl1 0,
    .ldp 28 29 .sp (16 * 14),
    .ldp 26 27 .sp (16 * 13),
    .ldp 24 25 .sp (16 * 12),
    .ldp 22 23 .sp (16 * 11),
    .ldp 20 21 .sp (16 * 10),
    .ldp 18 19 .sp (16 * 9),
    .ldp 16 17 .sp (16 * 8),
    .ldp 14 15 .sp (16 * 7),
    .ldp 12 13 .sp (16 * 6),
    .ldp 10 11 .sp (16 * 5),
    .ldp 8 9 .sp (16 * 4),
    .ldp 6 7 .sp (16 * 3),
    .ldp 4 5 .sp (16 * 2),
    .ldp 2 3 .sp (16 * 1),
    .ldp 0 1 .sp (16 * 0),
    .addSp (34 * 8)]

section code

variable (pxCurrentTCB : UInt64)

def saveSpToTcb : List Instr :=
  [.ldrLit 9 pxCurrentTCB, .ldr 10 (.x 9) 0, .movFromSp 11, .str 11 (.x 10) 0]

def loadSpFromTcb : List Instr :=
  [.ldrLit 9 pxCurrentTCB, .ldr 10 (.x 9) 0, .ldr 11 (.x 10) 0, .movToSp 11]

/-- `flint_irq_entry` up to the call of `vPortIrqHandlerC`. -/
def flintIrqEntry (c : Cpu) : Option Cpu :=
  run (saveCtx ++ saveSpToTcb pxCurrentTCB) c

/-- `flint_sync_entry` up to the call of `vTaskSwitchContext`; anything but an `svc` is a trap. -/
def flintSyncEntry (c : Cpu) : Option Cpu := do
  let c ← run (saveCtx ++ [.mrs 0 .esrEl1, .lsr 0 0 26]) c
  if c.x 0 ≠ 0x15 then none else run (saveSpToTcb pxCurrentTCB) c

/-- `vPortStartFirstTask`, and the end of both entries. -/
def vPortStartFirstTask (c : Cpu) : Option Cpu :=
  run (loadSpFromTcb pxCurrentTCB ++ (restoreCtx ++ [.eret])) c

end code

/-! ### `port.c` -/

def ctxSlots : Nat := 34

def initialSpsr : UInt64 := 0x345

/-- The new stack pointer and the memory. -/
def pxPortInitialiseStack (vPortTaskExit : UInt64) (mem : UInt64 → UInt64)
    (pxTopOfStack pxCode pvParameters : UInt64) : UInt64 × (UInt64 → UInt64) :=
  let sp := pxTopOfStack - UInt64.ofNat (8 * ctxSlots)
  let mem := putWords mem sp (fun _ => 0) ctxSlots
  let mem := Function.update mem (word sp 0) pvParameters
  let mem := Function.update mem (word sp 30) vPortTaskExit
  let mem := Function.update mem (word sp 31) initialSpsr
  let mem := Function.update mem (word sp 32) pxCode
  (sp, mem)

/-! ### Frames -/

/-- What a task has to get back. -/
structure Context where
  x : Fin 31 → UInt64
  sp : UInt64
  spsr : UInt64
  elr : UInt64

def contextOf (c : Cpu) : Context := ⟨c.x, c.sp, c.spsr, c.elr⟩

namespace Context

/-- The words of the frame. -/
def slot (ctx : Context) (k : Nat) : UInt64 :=
  if h : k < 31 then ctx.x ⟨k, h⟩ else if k = 31 then ctx.spsr else ctx.elr

theorem slot_reg (ctx : Context) (r : Fin 31) : ctx.slot r.val = ctx.x r :=
  dif_pos r.isLt

/-- Where the frame is. -/
def frame (ctx : Context) : UInt64 := ctx.sp - 272

theorem frame_add (ctx : Context) : ctx.frame + 272 = ctx.sp :=
  UInt64.sub_add_cancel ctx.sp 272

end Context

/-- The first word of the TCB points to a frame that holds the context. -/
structure Saved (mem : UInt64 → UInt64) (tcb : UInt64) (ctx : Context) : Prop where
  top : mem tcb = ctx.frame
  slots : ∀ k, k < 33 → mem (word ctx.frame k) = ctx.slot k

/-- What a new task finds in its registers. -/
def initialContext (vPortTaskExit pxTopOfStack pxCode pvParameters : UInt64) : Context where
  x r := if r = 30 then vPortTaskExit else if r = 0 then pvParameters else 0
  sp := pxTopOfStack
  spsr := initialSpsr
  elr := pxCode

/-! ### The macros -/

/-- The listing is a row of stores and what the exception left. -/
theorem saveCtx_eq :
    saveCtx = .subSp 272 :: (storePairs 15 ++
      [.mrs 0 .spsrEl1, .mrs 1 .elrEl1, .stp 30 0 .sp (16 * 15), .str 1 .sp (16 * 16)]) := by
  decide +kernel

theorem restoreCtx_eq :
    restoreCtx =
      [.ldr 1 .sp (16 * 16), .ldp 30 0 .sp (16 * 15), .msr .elrEl1 1, .msr .spsrEl1 0] ++
        (loadPairs 15 ++ [.addSp 272]) := by
  decide +kernel

theorem run_saveTail {c : Cpu} (h : Aligned c.sp) :
    run [.mrs 0 .spsrEl1, .mrs 1 .elrEl1, .stp 30 0 .sp (16 * 15), .str 1 .sp (16 * 16)] c =
      some { c with
        x := Function.update (Function.update c.x 0 c.spsr) 1 c.elr
        mem := Function.update (Function.update (Function.update c.mem (word c.sp 30) (c.x 30))
          (word c.sp 31) c.spsr) (word c.sp 32) c.elr } := by
  rw [run_cons]
  change run _ (c.setX 0 c.spsr) = _
  rw [run_cons]
  change run _ ((c.setX 0 c.spsr).setX 1 c.elr) = _
  rw [run_cons, exec_stp_word, Option.bind_some, run_cons, exec_str_word]
  · rfl
  · exact h
  · exact h

theorem putWords_slots (mem : UInt64 → UInt64) (base : UInt64) (ctx : Context) :
    putWords mem base ctx.slot 33 =
      Function.update (Function.update (Function.update (putWords mem base ctx.slot 30)
        (word base 30) (ctx.x 30)) (word base 31) ctx.spsr) (word base 32) ctx.elr := by
  rw [putWords, putWords, putWords]
  rfl

theorem run_saveRow {c : Cpu} (h : Aligned c.sp) :
    run (storePairs 15) c =
      some { c with mem := putWords c.mem c.sp (contextOf c).slot 30 } := by
  have hslots : putWords c.mem c.sp (fun k => c.x (Fin.ofNat 31 k)) (2 * 15) =
      putWords c.mem c.sp (contextOf c).slot 30 := by
    refine putWords_congr fun k hk => ?_
    have hreg : Fin.ofNat 31 k = ⟨k, by omega⟩ := Fin.ext (Nat.mod_eq_of_lt (by omega))
    rw [hreg]
    exact ((contextOf c).slot_reg ⟨k, by omega⟩).symm
  rw [run_storePairs h, hslots]

theorem slot_setSp (c : Cpu) (v : UInt64) :
    (contextOf { c with sp := v }).slot = (contextOf c).slot := by
  funext k
  simp only [Context.slot, contextOf]

theorem exec_subSp (c : Cpu) :
    exec c (.subSp 272) = some { c with sp := (contextOf c).frame } := by
  simp only [exec, Context.frame, contextOf]

theorem run_saveCtx {c : Cpu} (h : Aligned (contextOf c).frame) :
    run saveCtx c =
      some { c with
        x := Function.update (Function.update c.x 0 c.spsr) 1 c.elr
        sp := (contextOf c).frame
        mem := putWords c.mem (contextOf c).frame (contextOf c).slot 33 } := by
  have hrow := run_saveRow (c := { c with sp := (contextOf c).frame }) h
  rw [slot_setSp] at hrow
  rw [saveCtx_eq, run_cons, exec_subSp, Option.bind_some, run_append_of_eq hrow, run_saveTail h,
    putWords_slots]
  rfl

theorem run_restoreHead {c : Cpu} (h : Aligned c.sp) :
    run [.ldr 1 .sp (16 * 16), .ldp 30 0 .sp (16 * 15), .msr .elrEl1 1, .msr .spsrEl1 0] c =
      some { c with
        x := Function.update (Function.update (Function.update c.x 1 (c.mem (word c.sp 32))) 30
          (c.mem (word c.sp 30))) 0 (c.mem (word c.sp 31))
        spsr := c.mem (word c.sp 31)
        elr := c.mem (word c.sp 32) } := by
  rw [run_cons, exec_ldr_word h, Option.bind_some, run_cons, exec_ldp_word, Option.bind_some]
  · rfl
  · exact h

theorem run_restoreCtx {c : Cpu} (h : Aligned c.sp) :
    run restoreCtx c =
      some { c with
        x := fun r => c.mem (word c.sp r.val)
        sp := c.sp + 272
        spsr := c.mem (word c.sp 31)
        elr := c.mem (word c.sp 32) } := by
  rw [restoreCtx_eq, run_append_of_eq (run_restoreHead h), run_append, run_loadPairs ?_ le_rfl,
    Option.bind_some, run_cons, exec, Option.bind_some, run_nil]
  swap
  · exact h
  congr 2
  funext r
  simp only
  -- The row does not reach `x30`, which was loaded before.
  split
  · rfl
  · next hr =>
    have hlast : r = 30 := Fin.ext (by have := r.isLt; change r.val = 30; omega)
    rw [hlast]
    rfl

theorem exists_saveSpToTcb {pxCurrentTCB tcb : UInt64} {c : Cpu} (hcur : Aligned pxCurrentTCB)
    (htcb : Aligned tcb) (h : c.mem pxCurrentTCB = tcb) :
    ∃ c', run (saveSpToTcb pxCurrentTCB) c = some c' ∧
      c'.mem = Function.update c.mem tcb c.sp := by
  subst h
  rw [saveSpToTcb, run_cons, exec, Option.bind_some, run_cons, exec_ldr_reg, Option.bind_some,
    run_cons, exec, Option.bind_some, run_cons, exec_str_reg]
  · exact ⟨_, rfl, rfl⟩
  · exact htcb
  · exact hcur

theorem exists_cause (c : Cpu) :
    ∃ x, run [.mrs 0 .esrEl1, .lsr 0 0 26] c = some { c with x := x } ∧ x 0 = c.esr >>> 26 := by
  refine ⟨_, rfl, ?_⟩
  rw [Function.update_self]
  rfl

theorem run_loadSpFromTcb {pxCurrentTCB : UInt64} {c : Cpu} (hcur : Aligned pxCurrentTCB)
    (htcb : Aligned (c.mem pxCurrentTCB)) :
    run (loadSpFromTcb pxCurrentTCB) c =
      some { c with
        x := Function.update (Function.update (Function.update c.x 9 pxCurrentTCB) 10
          (c.mem pxCurrentTCB)) 11 (c.mem (c.mem pxCurrentTCB))
        sp := c.mem (c.mem pxCurrentTCB) } := by
  rw [loadSpFromTcb, run_cons, exec, Option.bind_some, run_cons, exec_ldr_reg, Option.bind_some,
    run_cons, exec_ldr_reg, Option.bind_some]
  · rfl
  · exact htcb
  · exact hcur

/-! ### Leaving a task and coming back -/

/-- How a task is left. -/
inductive Entry where
  | irq
  | sync
deriving DecidableEq, Repr

namespace Entry

def code (pxCurrentTCB : UInt64) (c : Cpu) : Entry → Option Cpu
  | irq => flintIrqEntry pxCurrentTCB c
  | sync => flintSyncEntry pxCurrentTCB c

/-- A synchronous exception is not a trap if it is an `svc`. -/
def Taken (c : Cpu) : Entry → Prop
  | irq => True
  | sync => c.esr >>> 26 = 0x15

end Entry

section tasks

variable {pxCurrentTCB tcb : UInt64} {c : Cpu}

/-- Neither the frame nor the TCB is where `pxCurrentTCB` is. -/
theorem exists_entry (hcur : Aligned pxCurrentTCB) (htcb : Aligned tcb)
    (hframe : Aligned (contextOf c).frame) (h : c.mem pxCurrentTCB = tcb)
    (hne : ∀ k, k < 33 → pxCurrentTCB ≠ word (contextOf c).frame k) {e : Entry} (he : e.Taken c) :
    ∃ c', e.code pxCurrentTCB c = some c' ∧
      c'.mem = Function.update (putWords c.mem (contextOf c).frame (contextOf c).slot 33) tcb
        (contextOf c).frame := by
  have hsame : putWords c.mem (contextOf c).frame (contextOf c).slot 33 pxCurrentTCB = tcb :=
    (putWords_of_ne hne).trans h
  cases e with
  | irq =>
    change ∃ c', run (saveCtx ++ saveSpToTcb pxCurrentTCB) c = some c' ∧ _
    rw [run_append_of_eq (run_saveCtx hframe)]
    exact exists_saveSpToTcb hcur htcb hsame
  | sync =>
    obtain ⟨x, hrun, hx⟩ := exists_cause { c with
      x := Function.update (Function.update c.x 0 c.spsr) 1 c.elr
      sp := (contextOf c).frame
      mem := putWords c.mem (contextOf c).frame (contextOf c).slot 33 }
    have hsvc : ¬ x 0 ≠ 0x15 := not_not.mpr (hx.trans he)
    change ∃ c', (run (saveCtx ++ _) c).bind _ = some c' ∧ _
    rw [run_append_of_eq (run_saveCtx hframe), hrun, Option.bind_some, if_neg hsvc]
    exact exists_saveSpToTcb hcur htcb hsame

/-- Coming back gives the task what was saved, and leaves the memory as it is. -/
theorem exists_vPortStartFirstTask (hcur : Aligned pxCurrentTCB) (htcb : Aligned tcb)
    {ctx : Context} (hframe : Aligned ctx.frame) (h : c.mem pxCurrentTCB = tcb)
    (hsaved : Saved c.mem tcb ctx) :
    ∃ c', vPortStartFirstTask pxCurrentTCB c = some c' ∧ c'.mem = c.mem ∧ contextOf c' = ctx ∧
      c'.pc = ctx.elr ∧ c'.pstate = ctx.spsr := by
  subst h
  have hload := run_loadSpFromTcb (c := c) hcur htcb
  rw [hsaved.top] at hload
  rw [vPortStartFirstTask, run_append_of_eq hload, run_append_of_eq (run_restoreCtx hframe)]
  refine ⟨_, rfl, rfl, ?_, hsaved.slots 32 (by decide), hsaved.slots 31 (by decide)⟩
  have hregs : (fun r : Fin 31 => c.mem (word ctx.frame r.val)) = ctx.x := by
    funext r
    rw [hsaved.slots r.val (by omega), ctx.slot_reg]
  calc (⟨fun r => c.mem (word ctx.frame r.val), ctx.frame + 272, c.mem (word ctx.frame 31),
        c.mem (word ctx.frame 32)⟩ : Context)
      = ⟨ctx.x, ctx.sp, ctx.spsr, ctx.elr⟩ := by
        rw [hregs, ctx.frame_add, hsaved.slots 31 (by decide), hsaved.slots 32 (by decide)]
        rfl
    _ = ctx := rfl

theorem saved_putWords {mem : UInt64 → UInt64} {ctx : Context}
    (hne : ∀ k, k < 33 → word ctx.frame k ≠ tcb) :
    Saved (Function.update (putWords mem ctx.frame ctx.slot 33) tcb ctx.frame) tcb ctx := by
  refine ⟨Function.update_self .., fun k hk => ?_⟩
  rw [Function.update_of_ne (hne k hk), putWords_word hk (by decide)]

end tasks

section creation

variable (vPortTaskExit : UInt64) (mem : UInt64 → UInt64) (pxTopOfStack pxCode pvParameters : UInt64)

theorem pxPortInitialiseStack_fst :
    (pxPortInitialiseStack vPortTaskExit mem pxTopOfStack pxCode pvParameters).1 =
      (initialContext vPortTaskExit pxTopOfStack pxCode pvParameters).frame := rfl

theorem pxPortInitialiseStack_snd {base : UInt64}
    (hbase : base = (initialContext vPortTaskExit pxTopOfStack pxCode pvParameters).frame) :
    (pxPortInitialiseStack vPortTaskExit mem pxTopOfStack pxCode pvParameters).2 =
      Function.update (Function.update (Function.update (Function.update
        (putWords mem base (fun _ => 0) 34) (word base 0) pvParameters) (word base 30)
        vPortTaskExit) (word base 31) initialSpsr) (word base 32) pxCode := by
  subst hbase
  rfl

/-- The frame that is built by hand has the words of the frame that would be saved. -/
theorem pxPortInitialiseStack_slot {k : Nat} (hk : k < 33) :
    (pxPortInitialiseStack vPortTaskExit mem pxTopOfStack pxCode pvParameters).2
        (word (initialContext vPortTaskExit pxTopOfStack pxCode pvParameters).frame k) =
      (initialContext vPortTaskExit pxTopOfStack pxCode pvParameters).slot k := by
  have hsmall : k < 2 ^ 61 := by omega
  rw [pxPortInitialiseStack_snd _ _ _ _ _ rfl, update_word _ _ _ (by decide) hsmall,
    update_word _ _ _ (by decide) hsmall, update_word _ _ _ (by decide) hsmall,
    update_word _ _ _ (by decide) hsmall, putWords_word (Nat.lt_succ_of_lt hk) (by decide)]
  rcases Nat.lt_or_ge k 31 with hreg | hsys
  · rw [if_neg (by omega), if_neg (by omega), Context.slot, dif_pos hreg]
    simp only [initialContext, Fin.ext_iff]
    rfl
  · obtain rfl | rfl : k = 31 ∨ k = 32 := by omega
    · rfl
    · rfl

theorem pxPortInitialiseStack_of_ne {a : UInt64}
    (ha : ∀ k, k < 34 →
      a ≠ word (initialContext vPortTaskExit pxTopOfStack pxCode pvParameters).frame k) :
    (pxPortInitialiseStack vPortTaskExit mem pxTopOfStack pxCode pvParameters).2 a = mem a := by
  rw [pxPortInitialiseStack_snd _ _ _ _ _ rfl, Function.update_of_ne (ha 32 (by decide)),
    Function.update_of_ne (ha 31 (by decide)), Function.update_of_ne (ha 30 (by decide)),
    Function.update_of_ne (ha 0 (by decide)), putWords_of_ne ha]

theorem saved_pxPortInitialiseStack {tcb : UInt64}
    (hne : ∀ k, k < 33 →
      word (initialContext vPortTaskExit pxTopOfStack pxCode pvParameters).frame k ≠ tcb) :
    Saved (Function.update
        (pxPortInitialiseStack vPortTaskExit mem pxTopOfStack pxCode pvParameters).2 tcb
        (pxPortInitialiseStack vPortTaskExit mem pxTopOfStack pxCode pvParameters).1) tcb
      (initialContext vPortTaskExit pxTopOfStack pxCode pvParameters) := by
  refine ⟨?_, fun k hk => ?_⟩
  · rw [Function.update_self, pxPortInitialiseStack_fst]
  · rw [Function.update_of_ne (hne k hk), pxPortInitialiseStack_slot _ _ _ _ _ hk]

end creation

end FlintRTOS
