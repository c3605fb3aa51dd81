import FlintRTOS.Machine
import FlintRTOS.PortAsm

/-!
# Switching between tasks

Any number of tasks with stacks of their own share one processor.  A task that runs may
compute anything; at an interrupt or an `svc` it is left through one of the entries of
`portASM.S`, the kernel computes and chooses a task, and that task is resumed.  A task is
created by `pxPortInitialiseStack`, by the kernel or by the task that runs.

What the tasks and the kernel compute is any change of the registers and of the memory that
spares the frames of the tasks that are suspended, the words that point to them, and, as
long as a task runs, `pxCurrentTCB`.  Only the code of the port runs instruction by
instruction.
-/

namespace FlintRTOS

open A64

/-! ### The system -/

/-- Where the linker and the allocator have put things. -/
structure Layout (Task : Type) where
  pxCurrentTCB : UInt64
  vPortTaskExit : UInt64
  /-- The address of a TCB, which is that of its `pxTopOfStack`. -/
  tcb : Task → UInt64
  stackLo : Task → Nat
  stackHi : Task → Nat
  aligned_current : Aligned pxCurrentTCB
  aligned_tcb : ∀ t, Aligned (tcb t)
  stack_le : ∀ t, stackHi t ≤ 2 ^ 64
  stacks_disjoint : ∀ t u, t ≠ u → stackHi t ≤ stackLo u ∨ stackHi u ≤ stackLo t
  tcb_inj : ∀ t u, tcb t = tcb u → t = u
  tcb_ne_current : ∀ t, tcb t ≠ pxCurrentTCB
  tcb_outside : ∀ t u, (tcb t).toNat < stackLo u ∨ stackHi u ≤ (tcb t).toNat
  current_outside : ∀ u, pxCurrentTCB.toNat < stackLo u ∨ stackHi u ≤ pxCurrentTCB.toNat

structure PortState (Task : Type) where
  cpu : Cpu
  /-- The task that runs; `none` while the kernel does. -/
  running : Option Task
  /-- The tasks that wait to be resumed. -/
  suspended : Task → Bool

inductive PortAction (Task : Type) where
  | create (t : Task) (pxTopOfStack pxCode pvParameters : UInt64)
  /-- The task that runs, or the kernel, computes. -/
  | work (c : Cpu)
  | leave (e : Entry)
  | resume (t : Task)

namespace Layout

variable {Task : Type} (L : Layout Task)

/-- A frame at `p` lies in the stack of the task. -/
def Fits (t : Task) (p : UInt64) : Prop :=
  Aligned p ∧ L.stackLo t ≤ p.toNat ∧ p.toNat + 272 ≤ L.stackHi t

instance (t : Task) (p : UInt64) : Decidable (L.Fits t p) :=
  inferInstanceAs (Decidable (_ ∧ _ ∧ _))

/-- The words a suspended task needs: its frame and the pointer to it. -/
def Owned (mem : UInt64 → UInt64) (t : Task) (a : UInt64) : Prop :=
  a = L.tcb t ∨ ∃ k, k < 34 ∧ a = word (mem (L.tcb t)) k

/-- The words that neither a task nor the kernel may change. -/
def Spared (s : PortState Task) (a : UInt64) : Prop :=
  (∃ t, s.suspended t = true ∧ L.Owned s.cpu.mem t a) ∨
    s.running.isSome = true ∧ a = L.pxCurrentTCB

variable [DecidableEq Task]

def guard (s : PortState Task) : PortAction Task → Prop
  | .create t pxTopOfStack _ _ =>
    s.suspended t = false ∧ s.running ≠ some t ∧ L.Fits t (pxTopOfStack - 272)
  | .work c => ∀ a, L.Spared s a → c.mem a = s.cpu.mem a
  | .leave e =>
    (∃ t, s.running = some t ∧ L.Fits t (contextOf s.cpu).frame) ∧ e.Taken s.cpu
  | .resume t =>
    s.running = none ∧ s.suspended t = true ∧ s.cpu.mem L.pxCurrentTCB = L.tcb t

def exec (s : PortState Task) : PortAction Task → Option (PortState Task)
  | .create t pxTopOfStack pxCode pvParameters =>
    let (sp, mem) :=
      pxPortInitialiseStack L.vPortTaskExit s.cpu.mem pxTopOfStack pxCode pvParameters
    some { s with
      cpu := { s.cpu with mem := Function.update mem (L.tcb t) sp }
      suspended := Function.update s.suspended t true }
  | .work c => some { s with cpu := c }
  | .leave e => do
    let t ← s.running
    let c ← e.code L.pxCurrentTCB s.cpu
    return ⟨c, none, Function.update s.suspended t true⟩
  | .resume t => do
    let c ← vPortStartFirstTask L.pxCurrentTCB s.cpu
    return ⟨c, some t, Function.update s.suspended t false⟩

/-- The machine from the reset on: the kernel runs and there is no task. -/
def machine (boot : Cpu) : Machine (PortState Task) (PortAction Task) where
  init := ⟨boot, none, fun _ => false⟩
  guard := L.guard
  exec := L.exec

end Layout

/-! ### Who owns what -/

section ownership

variable {Task : Type} {L : Layout Task} {t u : Task} {p a : UInt64} {mem : UInt64 → UInt64}
  {k : Nat}

theorem Layout.Fits.toNat_word (h : L.Fits t p) (hk : k < 34) :
    L.stackLo t ≤ (word p k).toNat ∧ (word p k).toNat < L.stackHi t := by
  obtain ⟨-, hlow, hhigh⟩ := h
  have hle := L.stack_le t
  rw [A64.toNat_word (by omega)]
  constructor <;> omega

theorem Layout.Fits.word_ne_tcb (h : L.Fits t p) (hk : k < 34) : word p k ≠ L.tcb u := by
  intro heq
  have hword := h.toNat_word hk
  rw [heq] at hword
  have houtside := L.tcb_outside u t
  omega

theorem Layout.Fits.current_ne_word (h : L.Fits t p) (hk : k < 34) : L.pxCurrentTCB ≠ word p k := by
  intro heq
  have hword := h.toNat_word hk
  rw [← heq] at hword
  have houtside := L.current_outside t
  omega

/-- What belongs to one task is neither in a frame nor in the TCB of another. -/
theorem Layout.Owned.ne (hne : u ≠ t) (hu : L.Fits u (mem (L.tcb u))) (h : L.Owned mem u a)
    (ht : L.Fits t p) : a ≠ L.tcb t ∧ ∀ k, k < 34 → a ≠ word p k := by
  rcases h with rfl | ⟨i, hi, rfl⟩
  · exact ⟨fun heq => hne (L.tcb_inj u t heq), fun k hk heq => ht.word_ne_tcb hk heq.symm⟩
  · refine ⟨hu.word_ne_tcb hi, fun k hk heq => ?_⟩
    have hword := hu.toNat_word hi
    rw [heq] at hword
    have hword' := ht.toNat_word hk
    have hdisjoint := L.stacks_disjoint u t hne
    omega

/-- `pxTopOfStack` of `xTaskCreate`: the last word of the stack, aligned down to 16 bytes. -/
def topOfStack (pxStack : UInt64) (usStackDepth : UInt32) : UInt64 :=
  word pxStack (usStackDepth - 1).toNat &&& ~~~15

theorem toNat_and_not_fifteen (a : UInt64) : (a &&& ~~~15).toNat = a.toNat / 16 * 16 := by
  have hshift : a.toNat / 16 * 16 = (a.toNat >>> 4) <<< 4 := by
    rw [Nat.shiftRight_eq_div_pow, Nat.shiftLeft_eq]
  have hmask : (~~~(15 : UInt64)).toNat = (2 ^ 60 - 1) <<< 4 := by decide
  rw [hshift, UInt64.toNat_and, hmask]
  apply Nat.eq_of_testBit_eq
  intro i
  rw [Nat.testBit_and, Nat.testBit_shiftLeft, Nat.testBit_shiftLeft, Nat.testBit_shiftRight,
    Nat.testBit_two_pow_sub_one]
  by_cases hi : 4 ≤ i
  · rw [Nat.add_sub_cancel' hi]
    by_cases hlt : i - 4 < 60
    · simp [hi, hlt]
    · have hlarge : a.toNat < 2 ^ i :=
        Nat.lt_of_lt_of_le a.toNat_lt (Nat.pow_le_pow_right (by decide) (by omega))
      simp [Nat.testBit_lt_two_pow hlarge]
  · simp [hi]

/-- On a stack of at least 37 words there is room for the frame of a new task. -/
theorem fits_topOfStack {pxStack : UInt64} {usStackDepth : UInt32}
    (hlo : L.stackLo t = pxStack.toNat)
    (hhi : L.stackHi t = pxStack.toNat + 8 * usStackDepth.toNat)
    (hdepth : 37 ≤ usStackDepth.toNat) : L.Fits t (topOfStack pxStack usStackDepth - 272) := by
  have hle := L.stack_le t
  have hlast : (usStackDepth - 1).toNat = usStackDepth.toNat - 1 :=
    UInt32.toNat_sub_of_le _ _ (UInt32.le_iff_toNat_le.mpr (by change 1 ≤ _; omega))
  have htop : (topOfStack pxStack usStackDepth).toNat =
      (pxStack.toNat + 8 * (usStackDepth.toNat - 1)) / 16 * 16 := by
    rw [topOfStack, toNat_and_not_fifteen, hlast, A64.toNat_word (by omega)]
  have hframe : (topOfStack pxStack usStackDepth - 272).toNat =
      (topOfStack pxStack usStackDepth).toNat - 272 :=
    UInt64.toNat_sub_of_le _ _ (UInt64.le_iff_toNat_le.mpr (by change 272 ≤ _; omega))
  refine ⟨?_, ?_, ?_⟩
  · unfold Aligned
    omega
  · omega
  · omega

end ownership

/-! ### What a step does -/

section steps

variable {Task : Type} [DecidableEq Task] {L : Layout Task} {boot : Cpu} {s s' : PortState Task}

/-- Every suspended task has a frame in its stack, and `pxCurrentTCB` is the task that runs. -/
structure PortInv (L : Layout Task) (s : PortState Task) : Prop where
  frame : ∀ t, s.suspended t = true → L.Fits t (s.cpu.mem (L.tcb t))
  running : ∀ t, s.running = some t →
    s.suspended t = false ∧ s.cpu.mem L.pxCurrentTCB = L.tcb t

/-- `t` becomes a suspended task with this context; nothing else is written. -/
structure Suspends (L : Layout Task) (t : Task) (ctx : Context) (s s' : PortState Task) : Prop where
  fits : L.Fits t ctx.frame
  suspended : s'.suspended = Function.update s.suspended t true
  saved : Saved s'.cpu.mem (L.tcb t) ctx
  rest : ∀ a, a ≠ L.tcb t → (∀ k, k < 34 → a ≠ word ctx.frame k) → s'.cpu.mem a = s.cpu.mem a

theorem suspends_of_create {t : Task} {pxTopOfStack pxCode pvParameters : UInt64}
    (h : (L.machine boot).Step s (.create t pxTopOfStack pxCode pvParameters) s') :
    (s.suspended t = false ∧ s.running ≠ some t) ∧ s'.running = s.running ∧
      Suspends L t (initialContext L.vPortTaskExit pxTopOfStack pxCode pvParameters) s s' := by
  obtain ⟨⟨hnot, hrunning, hfits⟩, hexec⟩ := h
  obtain rfl := Option.some.inj hexec
  refine ⟨⟨hnot, hrunning⟩, rfl, hfits, rfl, ?_, fun a hne hframe => ?_⟩
  · exact saved_pxPortInitialiseStack _ _ _ _ _ fun k hk =>
      hfits.word_ne_tcb (Nat.lt_succ_of_lt hk)
  · exact (Function.update_of_ne hne _ _).trans (pxPortInitialiseStack_of_ne _ _ _ _ _ hframe)

theorem exists_leave {t : Task} {e : Entry} (hinv : PortInv L s) (hrunning : s.running = some t)
    (hfits : L.Fits t (contextOf s.cpu).frame) (he : e.Taken s.cpu) :
    ∃ c, L.exec s (.leave e) = some ⟨c, none, Function.update s.suspended t true⟩ ∧
      c.mem = Function.update (putWords s.cpu.mem (contextOf s.cpu).frame (contextOf s.cpu).slot 33)
        (L.tcb t) (contextOf s.cpu).frame := by
  obtain ⟨c, hcode, hmem⟩ := exists_entry L.aligned_current (L.aligned_tcb t) hfits.1
    (hinv.running t hrunning).2 (fun k hk => hfits.current_ne_word (Nat.lt_succ_of_lt hk)) he
  refine ⟨c, ?_, hmem⟩
  rw [Layout.exec, hrunning, Option.bind_eq_bind, Option.bind_some, hcode]
  rfl

theorem suspends_of_leave {t : Task} {e : Entry} (hinv : PortInv L s)
    (hrunning : s.running = some t) (h : (L.machine boot).Step s (.leave e) s') :
    s'.running = none ∧ Suspends L t (contextOf s.cpu) s s' := by
  obtain ⟨⟨⟨u, hu, hfits⟩, he⟩, hexec⟩ := h
  obtain rfl : t = u := Option.some.inj (hrunning.symm.trans hu)
  obtain ⟨c, hcode, hmem⟩ := exists_leave hinv hrunning hfits he
  obtain rfl := Option.some.inj (hcode.symm.trans hexec)
  refine ⟨rfl, hfits, rfl, ?_, fun a hne hframe => ?_⟩
  · rw [hmem]
    exact saved_putWords fun k hk => hfits.word_ne_tcb (Nat.lt_succ_of_lt hk)
  · rw [hmem, Function.update_of_ne hne, putWords_of_ne fun k hk => hframe k (Nat.lt_succ_of_lt hk)]

/-- The context that a frame in memory holds. -/
def contextAt (mem : UInt64 → UInt64) (p : UInt64) : Context where
  x r := mem (word p r.val)
  sp := p + 272
  spsr := mem (word p 31)
  elr := mem (word p 32)

theorem frame_contextAt (mem : UInt64 → UInt64) (p : UInt64) : (contextAt mem p).frame = p :=
  UInt64.add_sub_cancel p 272

theorem saved_contextAt (mem : UInt64 → UInt64) (tcb : UInt64) :
    Saved mem tcb (contextAt mem (mem tcb)) := by
  refine ⟨(frame_contextAt mem _).symm, fun k hk => ?_⟩
  rw [frame_contextAt, Context.slot]
  split
  · rfl
  · split
    · next h => rw [h]; rfl
    · rw [show k = 32 by omega]
      rfl

variable {ctx : Context}

theorem exists_resume {t : Task} (hinv : PortInv L s) (hsuspended : s.suspended t = true)
    (hcurrent : s.cpu.mem L.pxCurrentTCB = L.tcb t) (hsaved : Saved s.cpu.mem (L.tcb t) ctx) :
    ∃ c, L.exec s (.resume t) = some ⟨c, some t, Function.update s.suspended t false⟩ ∧
      c.mem = s.cpu.mem ∧ contextOf c = ctx ∧ c.pc = ctx.elr ∧ c.pstate = ctx.spsr := by
  have hframe : Aligned ctx.frame := hsaved.top ▸ (hinv.frame t hsuspended).1
  obtain ⟨c, hcode, hresult⟩ := exists_vPortStartFirstTask L.aligned_current (L.aligned_tcb t)
    hframe hcurrent hsaved
  refine ⟨c, ?_, hresult⟩
  rw [Layout.exec, hcode]
  rfl

theorem resumed {t : Task} (hinv : PortInv L s) (hsaved : Saved s.cpu.mem (L.tcb t) ctx)
    (h : (L.machine boot).Step s (.resume t) s') :
    s'.running = some t ∧ s'.suspended = Function.update s.suspended t false ∧
      s'.cpu.mem = s.cpu.mem ∧ contextOf s'.cpu = ctx ∧ s'.cpu.pc = ctx.elr ∧
      s'.cpu.pstate = ctx.spsr := by
  obtain ⟨⟨-, hsuspended, hcurrent⟩, hexec⟩ := h
  obtain ⟨c, hcode, hresult⟩ := exists_resume hinv hsuspended hcurrent hsaved
  obtain rfl := Option.some.inj (hcode.symm.trans hexec)
  exact ⟨rfl, rfl, hresult⟩

/-! ### Steps of other tasks -/

theorem Suspends.keeps {t u : Task} (h : Suspends L t ctx s s') (hinv : PortInv L s)
    (hu : s.suspended u = true) (hne : u ≠ t) :
    s'.suspended u = true ∧ ∀ a, L.Owned s.cpu.mem u a → s'.cpu.mem a = s.cpu.mem a := by
  refine ⟨?_, fun a ha => ?_⟩
  · rw [h.suspended, Function.update_of_ne hne, hu]
  · obtain ⟨htcb, hframe⟩ := ha.ne hne (hinv.frame u hu) h.fits
    exact h.rest a htcb hframe

/-- A suspended task stays so, with its frame, until it is resumed. -/
theorem step_keeps {u : Task} {a : PortAction Task} (hinv : PortInv L s)
    (hu : s.suspended u = true) (hne : a ≠ .resume u) (h : (L.machine boot).Step s a s') :
    s'.suspended u = true ∧ ∀ a, L.Owned s.cpu.mem u a → s'.cpu.mem a = s.cpu.mem a := by
  cases a with
  | create t pxTopOfStack pxCode pvParameters =>
    obtain ⟨⟨hnot, -⟩, -, hsuspends⟩ := suspends_of_create h
    refine hsuspends.keeps hinv hu ?_
    rintro rfl
    exact absurd hu (by simp [hnot])
  | work c =>
    obtain ⟨hguard, hexec⟩ := h
    obtain rfl := Option.some.inj hexec
    exact ⟨hu, fun a ha => hguard a (Or.inl ⟨u, hu, ha⟩)⟩
  | leave e =>
    obtain ⟨t, hrunning, -⟩ := h.1.1
    refine (suspends_of_leave hinv hrunning h).2.keeps hinv hu ?_
    rintro rfl
    exact absurd hu (by simp [(hinv.running _ hrunning).1])
  | resume t =>
    obtain ⟨-, hsuspended, hmem, -⟩ := resumed hinv (saved_contextAt _ _) h
    have hut : u ≠ t := fun heq => hne (by rw [heq])
    exact ⟨by rw [hsuspended, Function.update_of_ne hut, hu], fun a _ => by rw [hmem]⟩

omit [DecidableEq Task] in
theorem Saved.of_keeps {u : Task} {mem mem' : UInt64 → UInt64} (h : Saved mem (L.tcb u) ctx)
    (hkeeps : ∀ a, L.Owned mem u a → mem' a = mem a) : Saved mem' (L.tcb u) ctx := by
  refine ⟨(hkeeps _ (Or.inl rfl)).trans h.top, fun k hk => ?_⟩
  rw [← h.slots k hk]
  exact hkeeps _ (Or.inr ⟨k, Nat.lt_succ_of_lt hk, by rw [h.top]⟩)

/-! ### Runs -/

theorem Suspends.frame {t u : Task} (h : Suspends L t ctx s s') (hinv : PortInv L s)
    (hu : s'.suspended u = true) : L.Fits u (s'.cpu.mem (L.tcb u)) := by
  by_cases hut : u = t
  · rw [hut, h.saved.top]
    exact h.fits
  · have hu' : s.suspended u = true := by rwa [h.suspended, Function.update_of_ne hut] at hu
    rw [(h.keeps hinv hu' hut).2 _ (Or.inl rfl)]
    exact hinv.frame u hu'

theorem PortInv.step {a : PortAction Task} (hinv : PortInv L s)
    (h : (L.machine boot).Step s a s') : PortInv L s' := by
  cases a with
  | create t pxTopOfStack pxCode pvParameters =>
    obtain ⟨⟨-, hother⟩, hrunning, hsuspends⟩ := suspends_of_create h
    refine ⟨fun u hu => hsuspends.frame hinv hu, fun u hu => ?_⟩
    rw [hrunning] at hu
    have hut : u ≠ t := by
      rintro rfl
      exact hother hu
    obtain ⟨hnot, hcurrent⟩ := hinv.running u hu
    refine ⟨by rw [hsuspends.suspended, Function.update_of_ne hut, hnot], ?_⟩
    rw [hsuspends.rest _ (L.tcb_ne_current t).symm fun k hk => hsuspends.fits.current_ne_word hk]
    exact hcurrent
  | work c =>
    obtain ⟨hguard, hexec⟩ := h
    obtain rfl := Option.some.inj hexec
    refine ⟨fun u hu => ?_, fun u hu => ?_⟩
    · rw [hguard _ (Or.inl ⟨u, hu, Or.inl rfl⟩)]
      exact hinv.frame u hu
    · obtain ⟨hnot, hcurrent⟩ := hinv.running u hu
      refine ⟨hnot, ?_⟩
      rw [hguard _ (Or.inr ⟨by rw [hu]; rfl, rfl⟩)]
      exact hcurrent
  | leave e =>
    obtain ⟨t, hrunning, -⟩ := h.1.1
    obtain ⟨hnone, hsuspends⟩ := suspends_of_leave hinv hrunning h
    refine ⟨fun u hu => hsuspends.frame hinv hu, fun u hu => ?_⟩
    rw [hnone] at hu
    cases hu
  | resume t =>
    obtain ⟨hrunning, hsuspended, hmem, -⟩ := resumed hinv (saved_contextAt _ _) h
    refine ⟨fun u hu => ?_, fun u hu => ?_⟩
    · have hut : u ≠ t := by
        rintro rfl
        rw [hsuspended, Function.update_self] at hu
        cases hu
      rw [hsuspended, Function.update_of_ne hut] at hu
      rw [hmem]
      exact hinv.frame u hu
    · rw [hrunning] at hu
      obtain rfl := Option.some.inj hu
      refine ⟨by rw [hsuspended, Function.update_self], ?_⟩
      rw [hmem]
      exact h.1.2.2

theorem PortInv.reach (h : (L.machine boot).Reach s) : PortInv L s :=
  h.invariant ⟨fun _ hu => (Bool.false_ne_true hu).elim, fun _ hu => nomatch hu⟩
    fun _ _ _ _ hinv hstep => hinv.step hstep

/-- Whatever happens until then, the frame is there when the task is resumed. -/
theorem saved_run {u : Task} {as : List (PortAction Task)} (hinv : PortInv L s)
    (hu : s.suspended u = true) (hsaved : Saved s.cpu.mem (L.tcb u) ctx)
    (hrun : (L.machine boot).Run s as s') (hnot : PortAction.resume u ∉ as) :
    PortInv L s' ∧ s'.suspended u = true ∧ Saved s'.cpu.mem (L.tcb u) ctx := by
  induction hrun with
  | refl => exact ⟨hinv, hu, hsaved⟩
  | @tail as s' s'' a _ hstep ih =>
    rw [List.mem_append, not_or, List.mem_singleton] at hnot
    obtain ⟨hinv', hu', hsaved'⟩ := ih hnot.1
    obtain ⟨hsuspended, hkeeps⟩ := step_keeps hinv' hu' (Ne.symm hnot.2) hstep
    exact ⟨hinv'.step hstep, hsuspended, hsaved'.of_keeps hkeeps⟩

/-- No action that the guards admit faults. -/
theorem PortInv.safe (hinv : PortInv L s) : (L.machine boot).Safe s := by
  intro a hguard
  cases a with
  | create t pxTopOfStack pxCode pvParameters => exact ⟨_, rfl⟩
  | work c => exact ⟨_, rfl⟩
  | leave e =>
    obtain ⟨⟨t, hrunning, hfits⟩, he⟩ := hguard
    obtain ⟨c, hexec, -⟩ := exists_leave hinv hrunning hfits he
    exact ⟨_, hexec⟩
  | resume t =>
    obtain ⟨-, hsuspended, hcurrent⟩ := hguard
    obtain ⟨c, hexec, -⟩ := exists_resume hinv hsuspended hcurrent (saved_contextAt _ _)
    exact ⟨_, hexec⟩

theorem Suspends.resumed {t : Task} {s₁ s₂ s₃ : PortState Task} {as : List (PortAction Task)}
    (h : Suspends L t ctx s s₁) (hinv : PortInv L s₁) (hrun : (L.machine boot).Run s₁ as s₂)
    (hnot : PortAction.resume t ∉ as) (hresume : (L.machine boot).Step s₂ (.resume t) s₃) :
    contextOf s₃.cpu = ctx ∧ s₃.cpu.pc = ctx.elr ∧ s₃.cpu.pstate = ctx.spsr := by
  have hsuspended : s₁.suspended t = true := by rw [h.suspended, Function.update_self]
  obtain ⟨hinv₂, -, hsaved⟩ := saved_run hinv hsuspended h.saved hrun hnot
  exact (FlintRTOS.resumed hinv₂ hsaved hresume).2.2.2

/-- The kernel can go on with any task that is suspended, which can be left again at once. -/
theorem exists_switch {t : Task} (hreach : (L.machine boot).Reach s) (hnone : s.running = none)
    (ht : s.suspended t = true) :
    ∃ c s₁ s₂, (L.machine boot).Step s (.work c) s₁ ∧ (L.machine boot).Step s₁ (.resume t) s₂ ∧
      s₂.running = some t ∧ L.Fits t (contextOf s₂.cpu).frame ∧
      ∀ u, u ≠ t → s.suspended u = true → s₂.suspended u = true := by
  have hinv := PortInv.reach hreach
  have hspared : ∀ a, L.Spared s a →
      Function.update s.cpu.mem L.pxCurrentTCB (L.tcb t) a = s.cpu.mem a := by
    rintro a (⟨u, hu, rfl | ⟨k, hk, rfl⟩⟩ | ⟨hsome, -⟩)
    · rw [Function.update_of_ne (L.tcb_ne_current u)]
    · rw [Function.update_of_ne ((hinv.frame u hu).current_ne_word hk).symm]
    · rw [hnone] at hsome
      cases hsome
  obtain ⟨c, hc⟩ : ∃ c : Cpu, c.mem = Function.update s.cpu.mem L.pxCurrentTCB (L.tcb t) :=
    ⟨{ s.cpu with mem := Function.update s.cpu.mem L.pxCurrentTCB (L.tcb t) }, rfl⟩
  have hwork : (L.machine boot).Step s (.work c) { s with cpu := c } :=
    ⟨fun a ha => (congrFun hc a).trans (hspared a ha), rfl⟩
  have hinv₁ := hinv.step hwork
  have hguard : (L.machine boot).guard { s with cpu := c } (.resume t) :=
    ⟨hnone, ht, (congrFun hc _).trans (Function.update_self ..)⟩
  obtain ⟨s₂, hexec⟩ := hinv₁.safe _ hguard
  have hresume : (L.machine boot).Step { s with cpu := c } (.resume t) s₂ := ⟨hguard, hexec⟩
  obtain ⟨hrunning, hsuspended, -, hctx, -⟩ := resumed hinv₁ (saved_contextAt _ _) hresume
  refine ⟨c, _, s₂, hwork, hresume, hrunning, ?_, fun u hut hu => ?_⟩
  · rw [hctx, frame_contextAt]
    exact hinv₁.frame t ht
  · rw [hsuspended, Function.update_of_ne hut]
    exact hu

/-- A task that runs can be interrupted wherever its stack has room. -/
theorem exists_interrupt {t : Task} (hreach : (L.machine boot).Reach s)
    (hrunning : s.running = some t) (hfits : L.Fits t (contextOf s.cpu).frame) :
    ∃ s₁, (L.machine boot).Step s (.leave .irq) s₁ ∧ s₁.running = none ∧
      s₁.suspended = Function.update s.suspended t true := by
  have hinv := PortInv.reach hreach
  have hguard : (L.machine boot).guard s (.leave .irq) := ⟨⟨t, hrunning, hfits⟩, trivial⟩
  obtain ⟨s₁, hexec⟩ := hinv.safe _ hguard
  have hleave : (L.machine boot).Step s (.leave .irq) s₁ := ⟨hguard, hexec⟩
  obtain ⟨hnone, hsuspends⟩ := suspends_of_leave hinv hrunning hleave
  exact ⟨s₁, hleave, hnone, hsuspends.suspended⟩

end steps

/-- In every run a task that is left gets back its registers, its stack pointer, its saved
    program status and the address it was left at, whatever the other tasks and the kernel
    did in between; a task that was created starts at its function, with its parameter and
    with the return address and the program status of a new task.  Nothing faults. -/
theorem contexts_round_trip {Task : Type} [DecidableEq Task] (L : Layout Task) (boot : Cpu) :
    (∀ s, (L.machine boot).Reach s → (L.machine boot).Safe s) ∧
    (∀ {s s₁ s₂ s₃ : PortState Task} {t : Task} {e : Entry} {as : List (PortAction Task)},
      (L.machine boot).Reach s → s.running = some t → (L.machine boot).Step s (.leave e) s₁ →
      (L.machine boot).Run s₁ as s₂ → PortAction.resume t ∉ as →
      (L.machine boot).Step s₂ (.resume t) s₃ →
      s₃.cpu.x = s.cpu.x ∧ s₃.cpu.sp = s.cpu.sp ∧ s₃.cpu.spsr = s.cpu.spsr ∧
        s₃.cpu.elr = s.cpu.elr ∧ s₃.cpu.pc = s.cpu.elr ∧ s₃.cpu.pstate = s.cpu.spsr) ∧
    ∀ {s s₁ s₂ s₃ : PortState Task} {t : Task} {pxTopOfStack pxCode pvParameters : UInt64}
      {as : List (PortAction Task)},
      (L.machine boot).Reach s →
      (L.machine boot).Step s (.create t pxTopOfStack pxCode pvParameters) s₁ →
      (L.machine boot).Run s₁ as s₂ → PortAction.resume t ∉ as →
      (L.machine boot).Step s₂ (.resume t) s₃ →
      s₃.cpu.pc = pxCode ∧ s₃.cpu.x 0 = pvParameters ∧ s₃.cpu.x 30 = L.vPortTaskExit ∧
        s₃.cpu.spsr = initialSpsr ∧ s₃.cpu.pstate = initialSpsr ∧ s₃.cpu.elr = pxCode ∧
        s₃.cpu.sp = pxTopOfStack := by
  refine ⟨fun s hreach => (PortInv.reach hreach).safe, ?_, ?_⟩
  · intro s s₁ s₂ s₃ t e as hreach hrunning hleave hrun hnot hresume
    have hinv := PortInv.reach hreach
    obtain ⟨hctx, hpc, hpstate⟩ := (suspends_of_leave hinv hrunning hleave).2.resumed
      (hinv.step hleave) hrun hnot hresume
    exact ⟨congrArg Context.x hctx, congrArg Context.sp hctx, congrArg Context.spsr hctx,
      congrArg Context.elr hctx, hpc, hpstate⟩
  · intro s s₁ s₂ s₃ t pxTopOfStack pxCode pvParameters as hreach hcreate hrun hnot hresume
    have hinv := PortInv.reach hreach
    obtain ⟨hctx, hpc, hpstate⟩ := (suspends_of_create hcreate).2.2.resumed (hinv.step hcreate)
      hrun hnot hresume
    exact ⟨hpc, congrArg (fun ctx => ctx.x 0) hctx, congrArg (fun ctx => ctx.x 30) hctx,
      congrArg Context.spsr hctx, hpstate, congrArg Context.elr hctx, congrArg Context.sp hctx⟩

/-- Two tasks, with their stacks side by side. -/
def twoTasks : Layout Bool where
  pxCurrentTCB := 8
  vPortTaskExit := 0x40
  tcb t := if t then 24 else 16
  stackLo t := if t then 0x2000 else 0x1000
  stackHi t := if t then 0x3000 else 0x2000
  aligned_current := by decide
  aligned_tcb := by decide
  stack_le := by decide
  stacks_disjoint := by decide
  tcb_inj := by decide
  tcb_ne_current := by decide
  tcb_outside := by decide
  current_outside := by decide

def resetCpu : Cpu := ⟨fun _ => 0, 0, 0, 0, 0, 0, 0, fun _ => 0⟩

/-- Both tasks are created.  The first one is started and interrupted, the second one runs
    and is interrupted as well, and the first one goes on. -/
theorem contexts_round_trip_two :
    ∃ s s₁ s₂ s₃ as, (twoTasks.machine resetCpu).Step s (.leave .irq) s₁ ∧
      (twoTasks.machine resetCpu).Run s₁ as s₂ ∧ PortAction.resume true ∈ as ∧
      (twoTasks.machine resetCpu).Step s₂ (.resume false) s₃ ∧
      (s.cpu.pc = 0x100 ∧ s.cpu.x 0 = 7 ∧ s.cpu.x 30 = 0x40 ∧ s.cpu.spsr = initialSpsr) ∧
      s₃.cpu.x = s.cpu.x ∧ s₃.cpu.sp = s.cpu.sp ∧ s₃.cpu.spsr = s.cpu.spsr ∧
      s₃.cpu.elr = s.cpu.elr := by
  obtain ⟨-, hleft, hcreated⟩ := contexts_round_trip twoTasks resetCpu
  -- Create both tasks and start the first one.
  have hinit : (twoTasks.machine resetCpu).Reach (twoTasks.machine resetCpu).init := .init
  obtain ⟨sa, hfirst⟩ : ∃ sa, (twoTasks.machine resetCpu).Step (twoTasks.machine resetCpu).init
      (.create false 0x2000 0x100 7) sa := ⟨_, ⟨rfl, nofun, by decide⟩, rfl⟩
  obtain ⟨-, hrunninga, hsuspenda⟩ := suspends_of_create hfirst
  obtain ⟨sb, hsecond⟩ : ∃ sb, (twoTasks.machine resetCpu).Step sa
      (.create true 0x3000 0x200 9) sb :=
    ⟨_, ⟨by rw [hsuspenda.suspended]; rfl, by rw [hrunninga]; nofun, by decide⟩, rfl⟩
  obtain ⟨-, hrunningb, hsuspendb⟩ := suspends_of_create hsecond
  have hreacha := hinit.step hfirst
  have hreachb := hreacha.step hsecond
  have hreadyb : sb.suspended false = true ∧ sb.suspended true = true := by
    rw [hsuspendb.suspended, hsuspenda.suspended]
    exact ⟨rfl, rfl⟩
  obtain ⟨c, sc, s, hwork, hstart, hrunning, hfits, hkeep⟩ := exists_switch hreachb
    (by rw [hrunningb, hrunninga]; rfl) hreadyb.1
  have hfresh := hcreated hinit hfirst ((Machine.Run.single hsecond).tail hwork) (by simp) hstart
  have hreach := (hreachb.step hwork).step hstart
  -- The first task is interrupted, then the second one runs.
  obtain ⟨s₁, hleave, hnone, hsuspended⟩ := exists_interrupt hreach hrunning hfits
  have hreach₁ := hreach.step hleave
  have hsecond₁ : s₁.suspended true = true := by
    rw [hsuspended, Function.update_of_ne (show true ≠ false by decide)]
    exact hkeep true nofun hreadyb.2
  have hfirst₁ : s₁.suspended false = true := by rw [hsuspended, Function.update_self]
  obtain ⟨c₁, sd, se, hwork₁, hresume₁, hrunning₁, hfits₁, hkeep₁⟩ :=
    exists_switch hreach₁ hnone hsecond₁
  have hreache := (hreach₁.step hwork₁).step hresume₁
  obtain ⟨sf, hleave₁, hnone₁, hsuspended₁⟩ := exists_interrupt hreache hrunning₁ hfits₁
  have hfirstf : sf.suspended false = true := by
    rw [hsuspended₁, Function.update_of_ne (show false ≠ true by decide)]
    exact hkeep₁ false nofun hfirst₁
  -- Back to the first one.
  obtain ⟨c₂, s₂, s₃, hwork₂, hresume₂, -⟩ :=
    exists_switch (hreache.step hleave₁) hnone₁ hfirstf
  have hrun := (((Machine.Run.single hwork₁).tail hresume₁).tail hleave₁).tail hwork₂
  obtain ⟨hx, hsp, hspsr, helr, -⟩ := hleft hreach hrunning hleave hrun (by simp) hresume₂
  exact ⟨s, s₁, s₂, s₃, _, hleave, hrun, by simp, hresume₂,
    ⟨hfresh.1, hfresh.2.1, hfresh.2.2.1, hfresh.2.2.2.1⟩, hx, hsp, hspsr, helr⟩

end FlintRTOS
