import FlintRTOS.Machine
import FlintRTOS.PortAsm

/-!
# Masking interrupts

Three kinds of region mask interrupts, and they nest.  A critical section of the kernel sets
`DAIF.I` and counts its depth in `uxCriticalNesting`; `sys_arch_protect` sets `DAIF.I` and
keeps what it found; the console raises the priority mask of the interrupt controller.  The
counter and the priority mask belong to the processor, while `DAIF.I` travels with the
context of a task.

Any number of tasks open and close regions, access the data of the kernel one step at a
time, are preempted by the tick, are interrupted by a device and give way by `svc`.  The
models of the scheduler and of the queues take a critical section as one step; here that is
a theorem: every run is one in which whole critical sections alternate with switches.
-/

namespace FlintRTOS
namespace Masking

/-! ### The code -/

def gicPrioTimestamp : UInt32 := 0x80
def gicPrioKernel : UInt32 := 0xA0
def giccPmrOpen : UInt32 := 0xF0

structure Masks where
  /-- `DAIF.I`.  The code leaves the other three flags alone. -/
  daif : Bool
  /-- A word of 64 bits, so for sections that nest less than `2 ^ 64` deep. -/
  uxCriticalNesting : Nat
  /-- `GICC_PMR`. -/
  pmr : UInt32
deriving DecidableEq

def portDisableInterrupts (m : Masks) : Masks := { m with daif := true }

def portEnableInterrupts (m : Masks) : Masks := { m with daif := false }

def vPortEnterCritical (m : Masks) : Masks :=
  let m := portDisableInterrupts m
  { m with uxCriticalNesting := m.uxCriticalNesting + 1 }

def vPortExitCritical (m : Masks) : Masks :=
  if 0 < m.uxCriticalNesting then
    let m := { m with uxCriticalNesting := m.uxCriticalNesting - 1 }
    if m.uxCriticalNesting = 0 then portEnableInterrupts m else m
  else m

/-- `genet_send` and `genet_recv` have the same two instructions inline. -/
def sysArchProtect (m : Masks) : Bool × Masks := (m.daif, { m with daif := true })

def sysArchUnprotect (pval : Bool) (m : Masks) : Masks := { m with daif := pval }

def uartLock (m : Masks) : UInt32 × Masks :=
  (m.pmr, if gicPrioKernel < m.pmr then { m with pmr := gicPrioKernel } else m)

def uartUnlock (old : UInt32) (m : Masks) : Masks := { m with pmr := old }

theorem uartLock_masks (m : Masks) : (uartLock m).2 =
    { m with pmr := if gicPrioKernel < m.pmr then gicPrioKernel else m.pmr } := by
  rw [uartLock]
  by_cases h : gicPrioKernel < m.pmr
  · rw [if_pos h, if_pos h]
  · rw [if_neg h, if_neg h]

/-- An interrupt of this priority reaches the processor and is taken. -/
def Masks.takes (m : Masks) (priority : UInt32) : Prop :=
  m.daif = false ∧ priority < m.pmr

instance (m : Masks) (priority : UInt32) : Decidable (m.takes priority) :=
  inferInstanceAs (Decidable (_ ∧ _))

/-! ### The system -/

/-- A region that is open, with what its opening returned; a shield is the region between
    `sys_arch_protect` and `sys_arch_unprotect`. -/
inductive Region where
  | critical
  | shield (pval : Bool)
  | console (old : UInt32)
deriving DecidableEq

def Region.isCritical : Region → Bool
  | critical => true
  | _ => false

def Region.isConsole : Region → Bool
  | console _ => true
  | _ => false

def Region.isShield : Region → Bool
  | shield _ => true
  | _ => false

/-- `K` is the data of the kernel. -/
structure State (Task K : Type) where
  running : Task
  masks : Masks
  /-- `DAIF.I` in the frames of the tasks that do not run. -/
  spsr : Task → Bool
  /-- The regions a task has open, the innermost one first. -/
  regions : Task → List Region
  kernel : K

inductive Action (Task K : Type) where
  | enterCritical
  | exitCritical
  | protect
  | unprotect
  | lock
  | unlock
  /-- One access to the data of the kernel. -/
  | access (f : K → K)
  /-- `taskYIELD`; `f` is what `vTaskSwitchContext` does. -/
  | yield (next : Task) (f : K → K)
  /-- The timer; `f` is what `xTaskIncrementTick` and `vTaskSwitchContext` do. -/
  | tick (next : Task) (f : K → K)
  /-- An interrupt of the timestamp band. -/
  | device

namespace State

variable {Task K : Type} [DecidableEq Task]

/-- The regions of the task that runs. -/
def current (s : State Task K) : List Region := s.regions s.running

def set (s : State Task K) (m : Masks) (rs : List Region) : State Task K :=
  { s with masks := m, regions := Function.update s.regions s.running rs }

/-- Save the context, let the kernel choose, restore the context of its choice. -/
def switch (s : State Task K) (next : Task) (f : K → K) : State Task K :=
  let spsr := Function.update s.spsr s.running s.masks.daif
  { s with
    running := next
    spsr := spsr
    masks := { s.masks with daif := spsr next }
    kernel := f s.kernel }

/-- Regions are closed by the function that opened them, in the reverse order; the data of
    the kernel is accessed in critical sections only, and a task yields outside of its
    regions. -/
def guard (s : State Task K) : Action Task K → Prop
  | .enterCritical => True
  | .exitCritical => s.current.head? = some .critical
  | .protect => True
  | .unprotect => s.current.head?.any Region.isShield = true
  | .lock => True
  | .unlock => s.current.head?.any Region.isConsole = true
  | .access _ => .critical ∈ s.current
  | .yield _ _ => s.current = []
  | .tick _ _ => s.masks.takes gicPrioKernel
  | .device => s.masks.takes gicPrioTimestamp

instance (s : State Task K) (a : Action Task K) : Decidable (s.guard a) :=
  match a with
  | .enterCritical => instDecidableTrue
  | .exitCritical => inferInstanceAs (Decidable (_ = _))
  | .protect => instDecidableTrue
  | .unprotect => inferInstanceAs (Decidable (_ = _))
  | .lock => instDecidableTrue
  | .unlock => inferInstanceAs (Decidable (_ = _))
  | .access _ => inferInstanceAs (Decidable (_ ∈ s.current))
  | .yield _ _ => inferInstanceAs (Decidable (_ = _))
  | .tick _ _ => inferInstanceAs (Decidable (s.masks.takes _))
  | .device => inferInstanceAs (Decidable (s.masks.takes _))

def exec (s : State Task K) : Action Task K → Option (State Task K)
  | .enterCritical => some (s.set (vPortEnterCritical s.masks) (.critical :: s.current))
  | .exitCritical =>
    match s.current with
    | .critical :: rs => some (s.set (vPortExitCritical s.masks) rs)
    | _ => none
  | .protect =>
    let (pval, m) := sysArchProtect s.masks
    some (s.set m (.shield pval :: s.current))
  | .unprotect =>
    match s.current with
    | .shield pval :: rs => some (s.set (sysArchUnprotect pval s.masks) rs)
    | _ => none
  | .lock =>
    let (old, m) := uartLock s.masks
    some (s.set m (.console old :: s.current))
  | .unlock =>
    match s.current with
    | .console old :: rs => some (s.set (uartUnlock old s.masks) rs)
    | _ => none
  | .access f => some { s with kernel := f s.kernel }
  | .yield next f => some (s.switch next f)
  | .tick next f => some (s.switch next f)
  | .device => some s

theorem exec_exitCritical {s s' : State Task K} (h : s.exec .exitCritical = some s') :
    ∃ rs, s.current = .critical :: rs ∧ s' = s.set (vPortExitCritical s.masks) rs := by
  rw [exec] at h
  split at h
  · next rs hrs => exact ⟨rs, hrs, (Option.some.inj h).symm⟩
  · cases h

theorem exec_unprotect {s s' : State Task K} (h : s.exec .unprotect = some s') :
    ∃ pval rs, s.current = .shield pval :: rs ∧ s' = s.set (sysArchUnprotect pval s.masks) rs := by
  rw [exec] at h
  split at h
  · next pval rs hrs => exact ⟨pval, rs, hrs, (Option.some.inj h).symm⟩
  · cases h

theorem exec_unlock {s s' : State Task K} (h : s.exec .unlock = some s') :
    ∃ old rs, s.current = .console old :: rs ∧ s' = s.set (uartUnlock old s.masks) rs := by
  rw [exec] at h
  split at h
  · next old rs hrs => exact ⟨old, rs, hrs, (Option.some.inj h).symm⟩
  · cases h

end State

/-- `DAIF.I` in a saved program status. -/
def irqMasked (spsr : UInt64) : Bool := spsr &&& 0x80 != 0

/-- The system when `xPortStartScheduler` has started the first task. -/
def processor {Task K : Type} [DecidableEq Task] (first : Task) (kernel : K) :
    Machine (State Task K) (Action Task K) where
  init :=
    { running := first
      masks := ⟨irqMasked initialSpsr, 0, giccPmrOpen⟩
      spsr := fun _ => irqMasked initialSpsr
      regions := fun _ => []
      kernel := kernel }
  guard := State.guard
  exec := State.exec

instance {Task K : Type} [DecidableEq Task] (first : Task) (kernel : K) (s : State Task K)
    (a : Action Task K) : Decidable ((processor first kernel).guard s a) :=
  inferInstanceAs (Decidable (s.guard a))

/-! ### What the open regions say about the masks -/

def criticals (rs : List Region) : Nat := rs.countP Region.isCritical

def consoles (rs : List Region) : Nat := rs.countP Region.isConsole

@[simp] theorem criticals_critical (rs : List Region) :
    criticals (.critical :: rs) = criticals rs + 1 :=
  List.countP_cons_of_pos rfl

@[simp] theorem criticals_shield (pval : Bool) (rs : List Region) :
    criticals (.shield pval :: rs) = criticals rs :=
  List.countP_cons_of_neg (by simp [Region.isCritical])

@[simp] theorem criticals_console (old : UInt32) (rs : List Region) :
    criticals (.console old :: rs) = criticals rs :=
  List.countP_cons_of_neg (by simp [Region.isCritical])

@[simp] theorem consoles_critical (rs : List Region) :
    consoles (.critical :: rs) = consoles rs :=
  List.countP_cons_of_neg (by simp [Region.isConsole])

@[simp] theorem consoles_shield (pval : Bool) (rs : List Region) :
    consoles (.shield pval :: rs) = consoles rs :=
  List.countP_cons_of_neg (by simp [Region.isConsole])

@[simp] theorem consoles_console (old : UInt32) (rs : List Region) :
    consoles (.console old :: rs) = consoles rs + 1 :=
  List.countP_cons_of_pos rfl

theorem criticals_pos_iff {rs : List Region} : 0 < criticals rs ↔ .critical ∈ rs := by
  rw [criticals, List.countP_pos_iff]
  constructor
  · rintro ⟨r, hr, hcritical⟩
    cases r with
    | critical => exact hr
    | shield pval => cases hcritical
    | console old => cases hcritical
  · intro h
    exact ⟨_, h, rfl⟩

/-- The values `DAIF.I` may have under these regions.  Unless `strict`, a shield may find
    itself unmasked: a critical section that is closed in it unmasks. -/
def FlagOf (strict : Bool) : List Region → Bool → Prop
  | [], i => i = false
  | .critical :: rs, i => i = true ∧ FlagOf strict rs (decide (0 < criticals rs))
  | .shield pval :: rs, i => (strict = true ∨ 0 < criticals rs → i = true) ∧ FlagOf strict rs pval
  | .console _ :: rs, i => FlagOf strict rs i

/-- The value of the priority mask under these regions. -/
def PmrOf : List Region → UInt32 → Prop
  | [], p => p = giccPmrOpen
  | .critical :: rs, p => PmrOf rs p
  | .shield _ :: rs, p => PmrOf rs p
  | .console old :: rs, p => p = (if gicPrioKernel < old then gicPrioKernel else old) ∧ PmrOf rs old

section flag

variable {strict : Bool} {rs : List Region} {i : Bool}

theorem FlagOf.masked (h : FlagOf strict rs i) (hpos : 0 < criticals rs) : i = true := by
  induction rs with
  | nil => cases hpos
  | cons r rs ih =>
    cases r with
    | critical => exact h.1
    | shield pval => exact h.1 (.inr (by simpa using hpos))
    | console old => exact ih h (by simpa using hpos)

theorem FlagOf.shielded (h : FlagOf true rs i) (hshield : rs.any Region.isShield = true) :
    i = true := by
  induction rs with
  | nil => cases hshield
  | cons r rs ih =>
    cases r with
    | critical => exact h.1
    | shield pval => exact h.1 (.inl rfl)
    | console old => exact ih h hshield

/-- The flag that the last `vPortExitCritical` leaves is one of them. -/
theorem FlagOf.unmask (h : FlagOf strict rs i) (hnone : criticals rs = 0)
    (hstrict : strict = true → rs.any Region.isShield = false) : FlagOf strict rs false := by
  induction rs with
  | nil => rfl
  | cons r rs ih =>
    cases r with
    | critical => simp at hnone
    | shield pval =>
      rw [criticals_shield] at hnone
      refine ⟨?_, h.2⟩
      rintro (hs | hpos)
      · cases hstrict hs
      · omega
    | console old => exact ih h (by simpa using hnone) hstrict

theorem FlagOf.current (h : FlagOf strict rs i)
    (hstrict : strict = true → criticals rs = 0 → rs.any Region.isShield = false) :
    FlagOf strict rs (decide (0 < criticals rs)) := by
  by_cases hpos : 0 < criticals rs
  · rw [decide_eq_true hpos]
    rwa [h.masked hpos] at h
  · have hnone := Nat.eq_zero_of_not_pos hpos
    rw [decide_eq_false hpos]
    exact h.unmask hnone fun hs => hstrict hs hnone

theorem FlagOf.of_consoles (h : FlagOf strict rs i) (hall : rs.all Region.isConsole = true) :
    i = false := by
  induction rs with
  | nil => exact h
  | cons r rs ih =>
    cases r with
    | critical => cases hall
    | shield pval => cases hall
    | console old => exact ih h hall

end flag

/-- Under any number of console locks the mask is the kernel's priority. -/
theorem PmrOf.eq {rs : List Region} {p : UInt32} (h : PmrOf rs p) :
    p = if consoles rs = 0 then giccPmrOpen else gicPrioKernel := by
  induction rs generalizing p with
  | nil => exact h
  | cons r rs ih =>
    cases r with
    | critical => simpa using ih h
    | shield pval => simpa using ih h
    | console old =>
      rw [h.1, ih h.2, consoles_console]
      split <;> rfl

theorem PmrOf.lowered {rs : List Region} (h : consoles rs = 0) : PmrOf rs giccPmrOpen := by
  induction rs with
  | nil => rfl
  | cons r rs ih =>
    cases r with
    | critical => exact ih (by simpa using h)
    | shield pval => exact ih (by simpa using h)
    | console old => simp at h

/-! ### The invariant -/

section invariant

variable {Task K : Type} [DecidableEq Task] {s s' : State Task K} {first : Task} {kernel : K}
variable {strict : Bool}

/-- A task that does not run is unmasked, in no critical section and without the console. -/
structure Away (strict : Bool) (rs : List Region) (i : Bool) : Prop where
  unmasked : i = false
  criticals : criticals rs = 0
  consoles : consoles rs = 0
  flag : FlagOf strict rs i

structure Inv (strict : Bool) (s : State Task K) : Prop where
  nesting : s.masks.uxCriticalNesting = criticals s.current
  flag : FlagOf strict s.current s.masks.daif
  pmr : PmrOf s.current s.masks.pmr
  away : ∀ t, t ≠ s.running → Away strict (s.regions t) (s.spsr t)

@[simp] theorem current_set (s : State Task K) (m : Masks) (rs : List Region) :
    (s.set m rs).current = rs :=
  Function.update_self ..

theorem Inv.set (h : Inv strict s) {m : Masks} {rs : List Region}
    (hnesting : m.uxCriticalNesting = criticals rs) (hflag : FlagOf strict rs m.daif)
    (hpmr : PmrOf rs m.pmr) : Inv strict (s.set m rs) := by
  refine ⟨?_, ?_, ?_, fun t ht => ?_⟩
  · rw [current_set]
    exact hnesting
  · rw [current_set]
    exact hflag
  · rw [current_set]
    exact hpmr
  · have hregions : (s.set m rs).regions t = s.regions t := Function.update_of_ne ht ..
    rw [hregions]
    exact h.away t ht

/-- A switch happens only where the task that is left has nothing open that the next one
    would have to close. -/
theorem Inv.switch (h : Inv strict s) (haway : Away strict s.current s.masks.daif) (next : Task)
    (f : K → K) : Inv strict (s.switch next f) := by
  have hall : ∀ t, Away strict (s.regions t)
      (Function.update s.spsr s.running s.masks.daif t) := by
    intro t
    by_cases ht : t = s.running
    · subst ht
      rw [Function.update_self]
      exact haway
    · rw [Function.update_of_ne ht]
      exact h.away t ht
  have hopen : s.masks.pmr = giccPmrOpen := by rw [h.pmr.eq, if_pos haway.consoles]
  refine ⟨?_, (hall next).flag, ?_, fun t _ => hall t⟩
  · exact (h.nesting.trans haway.criticals).trans (hall next).criticals.symm
  · change PmrOf (s.regions next) s.masks.pmr
    rw [hopen]
    exact PmrOf.lowered (hall next).consoles

omit [DecidableEq Task] in
theorem Inv.idle_of_takes (h : Inv strict s) {priority : UInt32}
    (htakes : s.masks.takes priority) : criticals s.current = 0 := by
  by_contra hne
  have hmasked := h.flag.masked (Nat.pos_of_ne_zero hne)
  rw [htakes.1] at hmasked
  cases hmasked

omit [DecidableEq Task] in
theorem Inv.away_of_tick (h : Inv strict s) (htakes : s.masks.takes gicPrioKernel) :
    Away strict s.current s.masks.daif := by
  refine ⟨htakes.1, h.idle_of_takes htakes, ?_, h.flag⟩
  by_contra hne
  have hlt := htakes.2
  rw [h.pmr.eq, if_neg hne] at hlt
  exact UInt32.lt_irrefl _ hlt

theorem Inv.exitCritical (h : Inv strict s) {rs : List Region}
    (hrs : s.current = .critical :: rs) : Inv strict (s.set (vPortExitCritical s.masks) rs) := by
  obtain ⟨hnesting, hflag, hpmr, -⟩ := id h
  rw [hrs, criticals_critical] at hnesting
  rw [hrs] at hflag hpmr
  have hmasks : vPortExitCritical s.masks =
      { s.masks with
        daif := decide (0 < criticals rs)
        uxCriticalNesting := criticals rs } := by
    rw [vPortExitCritical, if_pos (by omega), hnesting, Nat.add_sub_cancel]
    by_cases hpos : criticals rs = 0
    · rw [if_pos hpos, hpos]
      rfl
    · rw [if_neg hpos, decide_eq_true (Nat.pos_of_ne_zero hpos), ← hflag.1]
  rw [hmasks]
  exact h.set rfl hflag.2 hpmr

/-- No critical section is entered under a shield alone. -/
def NoSectionUnderShield (s : State Task K) (a : Action Task K) : Prop :=
  match a with
  | .enterCritical => criticals s.current = 0 → s.current.any Region.isShield = false
  | _ => True

theorem Inv.step {a : Action Task K} (h : Inv strict s)
    (hstep : (processor first kernel).Step s a s')
    (hstrict : strict = true → NoSectionUnderShield s a) : Inv strict s' := by
  obtain ⟨hguard, hexec⟩ := hstep
  cases a with
  | enterCritical =>
    obtain rfl := Option.some.inj hexec
    refine h.set ?_ ⟨rfl, h.flag.current hstrict⟩ h.pmr
    rw [criticals_critical, ← h.nesting]
    rfl
  | exitCritical =>
    obtain ⟨rs, hrs, rfl⟩ := State.exec_exitCritical hexec
    exact h.exitCritical hrs
  | protect =>
    obtain rfl := Option.some.inj hexec
    refine h.set ?_ ⟨fun _ => rfl, h.flag⟩ h.pmr
    rw [criticals_shield]
    exact h.nesting
  | unprotect =>
    obtain ⟨pval, rs, hrs, rfl⟩ := State.exec_unprotect hexec
    obtain ⟨hnesting, hflag, hpmr, -⟩ := id h
    rw [hrs] at hnesting hflag hpmr
    exact h.set (by rw [← criticals_shield pval rs]; exact hnesting) hflag.2 hpmr
  | lock =>
    obtain rfl := Option.some.inj hexec
    change Inv strict (s.set (uartLock s.masks).2 (.console s.masks.pmr :: s.current))
    rw [uartLock_masks]
    refine h.set ?_ h.flag ⟨rfl, h.pmr⟩
    rw [criticals_console]
    exact h.nesting
  | unlock =>
    obtain ⟨old, rs, hrs, rfl⟩ := State.exec_unlock hexec
    obtain ⟨hnesting, hflag, hpmr, -⟩ := id h
    rw [hrs] at hnesting hflag hpmr
    exact h.set (by rw [← criticals_console old rs]; exact hnesting) hflag hpmr.2
  | access f =>
    obtain rfl := Option.some.inj hexec
    exact ⟨h.nesting, h.flag, h.pmr, h.away⟩
  | yield next f =>
    obtain rfl := Option.some.inj hexec
    have hnone : s.current = [] := hguard
    have hflag := h.flag
    rw [hnone] at hflag
    refine h.switch ?_ next f
    rw [hnone, hflag]
    exact ⟨rfl, rfl, rfl, rfl⟩
  | tick next f =>
    obtain rfl := Option.some.inj hexec
    exact h.switch (h.away_of_tick hguard) next f
  | device =>
    obtain rfl := Option.some.inj hexec
    exact h

theorem Inv.init (first : Task) (kernel : K) : Inv strict (processor first kernel).init := by
  have hflag : irqMasked initialSpsr = false := by decide
  exact ⟨rfl, hflag, rfl, fun t _ => ⟨hflag, rfl, rfl, hflag⟩⟩

theorem Inv.reach (h : (processor first kernel).Reach s) : Inv false s := by
  refine h.invariant (Inv.init first kernel) ?_
  intro _ _ _ _ hinv hstep
  exact hinv.step hstep nofun

theorem Inv.reach_strict
    (h : ((processor first kernel).restrict NoSectionUnderShield).Reach s) : Inv true s := by
  have hinit : Inv true ((processor first kernel).restrict NoSectionUnderShield).init :=
    Inv.init first kernel
  refine h.invariant hinit ?_
  intro _ _ _ _ hinv hstep
  obtain ⟨hstep, hstrict⟩ := Machine.restrict_step.mp hstep
  exact hinv.step hstep fun _ => hstrict

end invariant

/-! ### Whole sections -/

/-- What a run shows: where the outermost critical section of a task begins and ends, every
    access to the data of the kernel with the task that makes it, and the switches. -/
inductive Mark (Task K : Type) where
  | enter (t : Task)
  | access (t : Task) (f : K → K)
  | exit (t : Task)
  | switch (next : Task) (f : K → K)

def State.mark {Task K : Type} (s : State Task K) : Action Task K → List (Mark Task K)
  | .enterCritical => if criticals s.current = 0 then [.enter s.running] else []
  | .exitCritical => if criticals s.current = 1 then [.exit s.running] else []
  | .access f => [.access s.running f]
  | .yield next f => [.switch next f]
  | .tick next f => [.switch next f]
  | _ => []

/-- The processor with the marks of its run. -/
def traced {Task K : Type} [DecidableEq Task] (first : Task) (kernel : K) :
    Machine (State Task K × List (Mark Task K)) (Action Task K) :=
  (processor first kernel).ghost [] fun marks s a => marks ++ s.mark a

/-- The system that takes critical sections as single steps. -/
structure Serial (Task K : Type) where
  running : Task
  kernel : K

inductive SerialAction (Task K : Type) where
  /-- A whole critical section of a task, with the accesses made in it. -/
  | whole (t : Task) (fs : List (K → K))
  | switch (next : Task) (f : K → K)

/-- A whole section shows as its beginning, its accesses and its end, and nothing between. -/
def SerialAction.marks {Task K : Type} : SerialAction Task K → List (Mark Task K)
  | whole t fs => .enter t :: fs.map (.access t) ++ [.exit t]
  | switch next f => [.switch next f]

/-- The accesses one after the other. -/
def applyAll {K : Type} (fs : List (K → K)) (k : K) : K := fs.foldl (fun k f => f k) k

def serial {Task K : Type} (first : Task) (kernel : K) :
    Machine (Serial Task K) (SerialAction Task K) where
  init := ⟨first, kernel⟩
  guard c a :=
    match a with
    | .whole t _ => c.running = t
    | .switch _ _ => True
  exec c a :=
    match a with
    | .whole _ fs => some { c with kernel := applyAll fs c.kernel }
    | .switch next f => some ⟨next, f c.kernel⟩

section serial

variable {Task K : Type} [DecidableEq Task] {s s' : State Task K} {first : Task} {kernel : K}

/-- What a step does and shows, by the critical sections that are open. -/
inductive Effect (s : State Task K) (a : Action Task K) (s' : State Task K) : Prop where
  | quiet (hrunning : s'.running = s.running) (hkernel : s'.kernel = s.kernel)
      (hmark : s.mark a = []) (hopen : criticals s'.current = 0 ↔ criticals s.current = 0)
  | entered (hrunning : s'.running = s.running) (hkernel : s'.kernel = s.kernel)
      (hmark : s.mark a = [.enter s.running]) (hbefore : criticals s.current = 0)
      (hafter : criticals s'.current ≠ 0)
  | accessed (f : K → K) (hrunning : s'.running = s.running) (hkernel : s'.kernel = f s.kernel)
      (hmark : s.mark a = [.access s.running f]) (hbefore : criticals s.current ≠ 0)
      (hafter : criticals s'.current ≠ 0)
  | exited (hrunning : s'.running = s.running) (hkernel : s'.kernel = s.kernel)
      (hmark : s.mark a = [.exit s.running]) (hbefore : criticals s.current ≠ 0)
      (hafter : criticals s'.current = 0)
  | switched (f : K → K) (hkernel : s'.kernel = f s.kernel)
      (hmark : s.mark a = [.switch s'.running f]) (hbefore : criticals s.current = 0)
      (hafter : criticals s'.current = 0)

theorem Inv.effect {a : Action Task K} (h : Inv false s)
    (hstep : (processor first kernel).Step s a s') : Effect s a s' := by
  have hnesting := (h.step hstep nofun).nesting
  obtain ⟨hguard, hexec⟩ := hstep
  cases a with
  | enterCritical =>
    obtain rfl := Option.some.inj hexec
    by_cases hfirst : criticals s.current = 0
    · exact .entered rfl rfl (if_pos hfirst) hfirst (by simp)
    · exact .quiet rfl rfl (if_neg hfirst) (by simp [hfirst])
  | exitCritical =>
    obtain ⟨rs, hrs, rfl⟩ := State.exec_exitCritical hexec
    have hdepth : criticals s.current = criticals rs + 1 := by rw [hrs, criticals_critical]
    by_cases hlast : criticals rs = 0
    · exact .exited rfl rfl (if_pos (by omega)) (by omega) (by simpa using hlast)
    · exact .quiet rfl rfl (if_neg (by omega)) (by simp [hlast, hdepth])
  | protect =>
    obtain rfl := Option.some.inj hexec
    exact .quiet rfl rfl rfl (by simp)
  | unprotect =>
    obtain ⟨pval, rs, hrs, rfl⟩ := State.exec_unprotect hexec
    exact .quiet rfl rfl rfl (by simp [hrs])
  | lock =>
    obtain rfl := Option.some.inj hexec
    exact .quiet rfl rfl rfl (by simp)
  | unlock =>
    obtain ⟨old, rs, hrs, rfl⟩ := State.exec_unlock hexec
    exact .quiet rfl rfl rfl (by simp [hrs])
  | access f =>
    obtain rfl := Option.some.inj hexec
    have hopen := Nat.pos_iff_ne_zero.mp (criticals_pos_iff.mpr hguard)
    exact .accessed f rfl rfl rfl hopen hopen
  | yield next f =>
    obtain rfl := Option.some.inj hexec
    have hnone : criticals s.current = 0 := congrArg criticals hguard
    exact .switched f rfl rfl hnone (hnesting.symm.trans (h.nesting.trans hnone))
  | tick next f =>
    obtain rfl := Option.some.inj hexec
    have hnone := h.idle_of_takes hguard
    exact .switched f rfl rfl hnone (hnesting.symm.trans (h.nesting.trans hnone))
  | device =>
    obtain rfl := Option.some.inj hexec
    exact .quiet rfl rfl rfl Iff.rfl

theorem applyAll_concat (fs : List (K → K)) (f : K → K) (k : K) :
    applyAll (fs ++ [f]) k = f (applyAll fs k) := by
  rw [applyAll, List.foldl_append]
  rfl

/-- The run so far is whole sections and switches, and the section of the running task that
    is still open, with the accesses `fs`. -/
structure Serialised (first : Task) (kernel : K) (s : State Task K) (marks : List (Mark Task K))
    (bs : List (SerialAction Task K)) (c : Serial Task K) (fs : List (K → K)) : Prop where
  run : (serial first kernel).Run ⟨first, kernel⟩ bs c
  running : c.running = s.running
  data : s.kernel = applyAll fs c.kernel
  idle : criticals s.current = 0 → fs = [] ∧ marks = bs.flatMap SerialAction.marks
  inside : criticals s.current ≠ 0 →
    marks = bs.flatMap SerialAction.marks ++ .enter s.running :: fs.map (.access s.running)

theorem serial_run {x : State Task K × List (Mark Task K)} (h : (traced first kernel).Reach x) :
    ∃ bs c fs, Serialised first kernel x.1 x.2 bs c fs := by
  induction h with
  | init => exact ⟨[], _, [], .refl, rfl, rfl, fun _ => ⟨rfl, rfl⟩, fun hno => absurd rfl hno⟩
  | @step x y a hreach hst ih =>
    obtain ⟨s, marks⟩ := x
    obtain ⟨s', marks'⟩ := y
    obtain ⟨bs, c, fs, hrun, hrunning, hdata, hidle, hinside⟩ := ih
    obtain ⟨hstep, rfl⟩ := Machine.ghost_step.mp hst
    dsimp only at hstep hrunning hdata hidle hinside ⊢
    cases (Inv.reach hreach.of_ghost).effect hstep with
    | quiet hrunning' hkernel hmark hopen =>
      rw [hmark, List.append_nil]
      exact ⟨bs, c, fs, hrun, hrunning.trans hrunning'.symm, hkernel.trans hdata,
        fun h => hidle (hopen.mp h), fun h => hrunning' ▸ hinside fun h' => h (hopen.mpr h')⟩
    | entered hrunning' hkernel hmark hbefore hafter =>
      obtain ⟨rfl, rfl⟩ := hidle hbefore
      rw [hmark]
      exact ⟨bs, c, [], hrun, hrunning.trans hrunning'.symm, hkernel.trans hdata,
        fun h => absurd h hafter, fun _ => by rw [hrunning']; rfl⟩
    | accessed f hrunning' hkernel hmark hbefore hafter =>
      refine ⟨bs, c, fs ++ [f], hrun, hrunning.trans hrunning'.symm, ?_, fun h => absurd h hafter,
        fun _ => ?_⟩
      · rw [hkernel, applyAll_concat, hdata]
      · rw [hmark, hinside hbefore, hrunning']
        simp
    | exited hrunning' hkernel hmark hbefore hafter =>
      have hwhole : (serial first kernel).Step c (.whole s.running fs) ⟨c.running, s.kernel⟩ :=
        ⟨hrunning, by rw [hdata]; rfl⟩
      refine ⟨_, _, [], hrun.tail hwhole, hrunning.trans hrunning'.symm, hkernel,
        fun _ => ⟨rfl, ?_⟩, fun h => absurd hafter h⟩
      rw [hmark, hinside hbefore]
      simp [SerialAction.marks]
    | switched f hkernel hmark hbefore hafter =>
      obtain ⟨rfl, rfl⟩ := hidle hbefore
      have hswitch : (serial first kernel).Step c (.switch s'.running f)
          ⟨s'.running, f c.kernel⟩ := ⟨trivial, rfl⟩
      refine ⟨_, _, [], hrun.tail hswitch, rfl, ?_, fun _ => ⟨rfl, ?_⟩,
        fun h => absurd hafter h⟩
      · rw [hkernel, hdata]
        rfl
      · rw [hmark, List.flatMap_append]
        rfl

/-- Who has a critical section open or holds the console is the task that runs. -/
theorem Inv.running_of_open {strict : Bool} (h : Inv strict s) {t : Task}
    (hopen : 0 < criticals (s.regions t) ∨ 0 < consoles (s.regions t)) : s.running = t := by
  by_contra hne
  have haway := h.away t (Ne.symm hne)
  rcases hopen with hpos | hpos
  · rw [haway.criticals] at hpos
    cases hpos
  · rw [haway.consoles] at hpos
    cases hpos

theorem Inv.stays {a : Action Task K} (h : Inv false s) (hpos : 0 < criticals s.current)
    (hstep : (processor first kernel).Step s a s') : s'.running = s.running := by
  cases h.effect hstep with
  | quiet hrunning | entered hrunning | accessed _ hrunning | exited hrunning => exact hrunning
  | switched _ _ _ hbefore => omega

end serial

/-- While a task is in a critical section it runs, the counter is its depth, no interrupt is
    taken and no step switches to another task.  So what a run shows is whole critical
    sections, each the accesses of one task between its beginning and its end, and switches;
    and the data of the kernel is what these leave when each is a single step. -/
theorem critical_sections_atomic {Task K : Type} [DecidableEq Task] (first : Task) (kernel : K) :
    (∀ s, (processor first kernel).Reach s → ∀ t, .critical ∈ s.regions t →
      s.running = t ∧ s.masks.uxCriticalNesting = criticals (s.regions t) ∧
      (∀ priority, ¬ s.masks.takes priority) ∧
      ∀ a s', (processor first kernel).Step s a s' → s'.running = t) ∧
    ∀ x, (traced first kernel).Reach x → x.1.masks.uxCriticalNesting = 0 →
      ∃ bs, (serial first kernel).Run ⟨first, kernel⟩ bs ⟨x.1.running, x.1.kernel⟩ ∧
        x.2 = bs.flatMap SerialAction.marks := by
  constructor
  · intro s hreach t ht
    have hinv := Inv.reach hreach
    have hpos := criticals_pos_iff.mpr ht
    obtain rfl := hinv.running_of_open (.inl hpos)
    refine ⟨rfl, hinv.nesting, fun priority htakes => ?_, fun a s' hstep => hinv.stays hpos hstep⟩
    have hnone : criticals (s.regions s.running) = 0 := hinv.idle_of_takes htakes
    omega
  · intro x hreach hnone
    have hinv := Inv.reach hreach.of_ghost
    obtain ⟨bs, c, fs, hrun, hrunning, hdata, hidle, -⟩ := serial_run hreach
    obtain ⟨rfl, hmarks⟩ := hidle (hinv.nesting.symm.trans hnone)
    refine ⟨bs, ?_, hmarks⟩
    rw [← hrunning, hdata]
    exact hrun

/-- The masks follow from the regions that the running task has open.  Outside of all regions
    both bands of interrupts are taken.  The holder of the console runs and is not preempted by
    the tick, but as long as it has nothing else open the timestamps are taken.  A shield masks
    everything as long as no critical section is entered under it alone. -/
theorem masks_follow_regions {Task K : Type} [DecidableEq Task] (first : Task) (kernel : K) :
    (∀ s, (processor first kernel).Reach s →
      s.masks.uxCriticalNesting = criticals s.current ∧
      s.masks.pmr = (if consoles s.current = 0 then giccPmrOpen else gicPrioKernel) ∧
      (s.current = [] → s.masks.takes gicPrioKernel) ∧
      (∀ t, 0 < consoles (s.regions t) → s.running = t ∧ ¬ s.masks.takes gicPrioKernel) ∧
      (s.current.all Region.isConsole = true → s.masks.takes gicPrioTimestamp)) ∧
    ∀ s, ((processor first kernel).restrict NoSectionUnderShield).Reach s → ∀ t,
      (s.regions t).any Region.isShield = true →
      s.running = t ∧ ∀ priority, ¬ s.masks.takes priority := by
  constructor
  · intro s hreach
    have hinv := Inv.reach hreach
    refine ⟨hinv.nesting, hinv.pmr.eq, fun hnone => ?_, fun t ht => ?_, fun hall => ?_⟩
    · have hflag := hinv.flag
      have hpmr := hinv.pmr
      rw [hnone] at hflag hpmr
      exact ⟨hflag, by rw [hpmr]; decide⟩
    · obtain rfl := hinv.running_of_open (.inr ht)
      refine ⟨rfl, fun htakes => ?_⟩
      have hnone : consoles (s.regions s.running) = 0 := (hinv.away_of_tick htakes).consoles
      omega
    · refine ⟨hinv.flag.of_consoles hall, ?_⟩
      rw [hinv.pmr.eq]
      split <;> decide
  · intro s hreach t ht
    have hinv := Inv.reach_strict hreach
    have hrunning : s.running = t := by
      by_contra hne
      have haway := hinv.away t (Ne.symm hne)
      have hmasked := haway.flag.shielded ht
      rw [haway.unmasked] at hmasked
      cases hmasked
    subst hrunning
    refine ⟨rfl, fun priority htakes => ?_⟩
    have hmasked := hinv.flag.shielded ht
    rw [htakes.1] at hmasked
    cases hmasked

-- The condition on shields is needed: a critical section that is closed under one unmasks, and
-- the tick can switch to another task.
example : ∃ s, (processor false ()).Reach s ∧
    (s.running && (s.regions false).any Region.isShield) = true :=
  (processor false ()).exists_reach [.protect, .enterCritical, .exitCritical, .tick true id] _
    (by decide)

end Masking
end FlintRTOS
