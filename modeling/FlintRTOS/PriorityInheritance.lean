import FlintRTOS.Mutex

/-!
# Does inheritance bound priority inversion?

The purpose of inheritance is `Inherited`: the holder of a mutex runs at least at
the priority of every task that waits for it.  The code boosts the holder once,
when the waiter blocks, and takes the whole boost back on any give.  That loses
the bound in three ways, and only in these:

* a give of one mutex drops a boost that the waiters of another mutex, held by
  the same task, still need;
* a boost of a holder that itself waits for a mutex is not passed on to the
  holder of that one;
* a task takes a mutex that has waiters of higher priority, which enlisted while
  nobody held it, or which had been left behind by a wake-up.

`KeepsInheritance` is the step condition that excludes the three.  It is exact:
from a state that satisfies the bound a step leads to one that does if and only
if the step meets the condition.
-/

namespace FlintRTOS

open ListId ItemId

/-- `w` waits to take the mutex `x`, which `h` holds. -/
structure WaitsFor (k : Kernel) (w : TaskId) (x : QueueId) (h : TaskId) : Prop where
  held : ∃ q, k.queue x = some q ∧ q.ucIsMutex = true ∧ q.pxMutexHolder = some h
  waits : k.sched.eventList w = some (xTasksWaitingToReceive x)

instance (k : Kernel) (w : TaskId) (x : QueueId) (h : TaskId) : Decidable (WaitsFor k w x h) :=
  decidable_of_iff ((∃ q ∈ k.queue x, q.ucIsMutex = true ∧ q.pxMutexHolder = some h) ∧
    k.sched.eventList w = some (xTasksWaitingToReceive x)) ⟨fun h => ⟨h.1, h.2⟩, fun h => ⟨h.1, h.2⟩⟩

variable {x : QueueId} {k' : Kernel} {a : Action}

theorem WaitsFor.lt {k : Kernel} (hinv : k.Inv) {w : TaskId} {h : TaskId} (hw : WaitsFor k w x h) :
    w < k.sched.uxCurrentNumberOfTasks ∧ x < k.uxQueues := by
  refine ⟨hinv.sched.lt_of_eventList hw.waits, ?_⟩
  obtain ⟨q, hq, _⟩ := hw.held
  by_contra hx
  rw [hinv.fresh x (Nat.le_of_not_lt hx)] at hq
  cases hq

/-- The bound on priority inversion. -/
def Inherited (k : Kernel) : Prop :=
  ∀ w x h, WaitsFor k w x h → k.sched.priority w ≤ k.sched.priority h

/-- A give of `x`: no other waiter needs the holder above its base priority. -/
def GiveKeeps (k : Kernel) (x : QueueId) (q : Queue) : Prop :=
  q.ucIsMutex = true → ∀ h ∈ q.pxMutexHolder, ∀ w < k.sched.uxCurrentNumberOfTasks,
    ∀ y < k.uxQueues, y ≠ x ∧ w ≠ h ∧ WaitsFor k w y h →
      k.sched.priority w ≤ k.sched.basePriority h

/-- A take of `x` by `t`: nobody of higher priority waits for it. -/
def TakeKeeps (k : Kernel) (t : TaskId) (x : QueueId) (q : Queue) : Prop :=
  q.ucIsMutex = true → ∀ w < k.sched.uxCurrentNumberOfTasks,
    k.sched.eventList w = some (xTasksWaitingToReceive x) →
      k.sched.priority w ≤ k.sched.priority t

/-- `t` blocks on the mutex: a holder it boosts does not wait for a mutex whose
    holder is of lower priority than `t`. -/
def BlockKeeps (k : Kernel) (t : TaskId) (q : Queue) : Prop :=
  q.ucIsMutex = true → ∀ h ∈ q.pxMutexHolder, k.sched.priority h < k.sched.priority t →
    ∀ y < k.uxQueues, ∀ u < k.sched.uxCurrentNumberOfTasks, u ≠ h ∧ WaitsFor k h y u →
      k.sched.priority t ≤ k.sched.priority u

/-- The condition on the section that `t` runs next. -/
def SectionKeeps (k : Kernel) (t : TaskId) : Stage → Prop
  | .enter c | .wait c => ∀ q ∈ k.queue c.xQueue, c.possible q = true →
      (c.isSend = true → GiveKeeps k c.xQueue q) ∧ (c.isSend = false → TakeKeeps k t c.xQueue q)
  | .block c => ∀ q ∈ k.queue c.xQueue, c.isSend = false → BlockKeeps k t q
  | .app | .done .. => True

/-- The step condition: inheritance stays on, and the next section of the running
    task meets the condition of its kind. -/
def KeepsInheritance (k : Kernel) : Action → Prop
  | .vTaskSetMutexInheritance b => b = true
  | .resume => ∀ t ∈ k.sched.pxCurrentTCB, k.yielding t = false → SectionKeeps k t (k.stage t)
  | _ => True

instance (k : Kernel) (x : QueueId) (q : Queue) : Decidable (GiveKeeps k x q) :=
  inferInstanceAs (Decidable (_ → _))

instance (k : Kernel) (t : TaskId) (x : QueueId) (q : Queue) : Decidable (TakeKeeps k t x q) :=
  inferInstanceAs (Decidable (_ → _))

instance (k : Kernel) (t : TaskId) (q : Queue) : Decidable (BlockKeeps k t q) :=
  inferInstanceAs (Decidable (_ → _))

instance (k : Kernel) (t : TaskId) : ∀ stage, Decidable (SectionKeeps k t stage)
  | .enter _ | .wait _ | .block _ => inferInstanceAs (Decidable (∀ q ∈ _, _))
  | .app | .done .. => inferInstanceAs (Decidable True)

instance (k : Kernel) : ∀ a, Decidable (KeepsInheritance k a)
  | .vTaskSetMutexInheritance b => inferInstanceAs (Decidable (b = true))
  | .resume => inferInstanceAs (Decidable (∀ t ∈ _, _))
  | .xTaskCreate .. | .vTaskStartScheduler _ | .xQueueCreate .. | .xQueueCreateCounting ..
  | .xQueueCreateMutex _ | .vQueueDelete _ | .call _ | .vTaskDelay _ | .taskYIELD | .tick =>
    inferInstanceAs (Decidable True)

theorem sectionKeeps_look {k : Kernel} {t : TaskId} {stage : Stage} {c : Call}
    (h : stage = .enter c ∨ stage = .wait c) : SectionKeeps k t stage ↔
      ∀ q, k.queue c.xQueue = some q → c.possible q = true →
        (c.isSend = true → GiveKeeps k c.xQueue q) ∧
          (c.isSend = false → TakeKeeps k t c.xQueue q) := by
  rcases h with rfl | rfl
  · exact Iff.rfl
  · exact Iff.rfl

namespace KeepsInheritance

variable {k : Kernel} {t : TaskId} {c : Call} {q : Queue}

theorem look (h : KeepsInheritance k .resume) (hcur : k.sched.pxCurrentTCB = some t)
    (hrun : k.yielding t = false) (hstage : k.stage t = .enter c ∨ k.stage t = .wait c)
    (hq : k.queue c.xQueue = some q) (hpossible : c.possible q = true) :
    (c.isSend = true → GiveKeeps k c.xQueue q) ∧ (c.isSend = false → TakeKeeps k t c.xQueue q) :=
  (sectionKeeps_look hstage).mp (h t hcur hrun) q hq hpossible

theorem block (h : KeepsInheritance k .resume) (hcur : k.sched.pxCurrentTCB = some t)
    (hrun : k.yielding t = false) (hstage : k.stage t = .block c)
    (hq : k.queue c.xQueue = some q) (hreceive : c.isSend = false) : BlockKeeps k t q := by
  have hkeeps := h t hcur hrun
  rw [hstage] at hkeeps
  exact hkeeps q hq hreceive

end KeepsInheritance

/-! ### A step that meets the condition keeps the bound -/

/-- A step keeps the bound when every waiting pair after it is in order or was
    there before with no less room. -/
theorem Inherited.of_step {k : Kernel} (h : Inherited k)
    (hstep : ∀ w x u, WaitsFor k' w x u → k'.sched.priority w ≤ k'.sched.priority u ∨
      WaitsFor k w x u ∧ k'.sched.priority w ≤ k.sched.priority w ∧
        k.sched.priority u ≤ k'.sched.priority u) : Inherited k' := by
  intro w x u hwait
  rcases hstep w x u hwait with hle | ⟨hold, hw, hu⟩
  · exact hle
  · exact Nat.le_trans hw (Nat.le_trans (h w x u hold) hu)

theorem WaitsFor.of_quiet {k : Kernel} {w u : TaskId} (h : WaitsFor k' w x u) (hinv : k.Inv)
    (hquiet : Quiet k.sched k'.sched)
    (hqueue : ∀ q, k'.queue x = some q → q.pxMutexHolder = some u → k.queue x = some q) :
    WaitsFor k w x u ∧ k'.sched.priority w = k.sched.priority w ∧
      k'.sched.priority u = k.sched.priority u := by
  obtain ⟨⟨q, hq, hmutex, hholder⟩, hwaits⟩ := h
  have hq := hqueue q hq hholder
  rw [hquiet.event] at hwaits
  have hw := hquiet.tcb w (hinv.sched.lt_of_eventList hwaits)
  have hu := hquiet.tcb u (hinv.holder x q u hq hholder)
  exact ⟨⟨⟨q, hq, hmutex, hholder⟩, hwaits⟩, by rw [Sched.priority, hw]; rfl,
    by rw [Sched.priority, hu]; rfl⟩

/-- The waiters and holders of other mutexes, across a successful section. -/
theorem waitsFor_of_transfer {k : Kernel} {t : TaskId} {c : Call} {q₁ : Queue} {y : Bool}
    {σ₁ σ' : Sched} (hreleased : Released c q₁ k.sched σ₁) (hwake : EventWake c.wakeList σ₁ y σ')
    {w u : TaskId} (hx : x ≠ c.xQueue) {yielding : TaskId → Bool} {stage : TaskId → Stage}
    {log : List Event} :
    WaitsFor ⟨σ', Function.update k.queue c.xQueue (some (c.settled t q₁)), k.uxQueues, stage,
      yielding, log⟩ w x u ↔ WaitsFor k w x u := by
  have hevent := hreleased.frame.event
  constructor
  · rintro ⟨⟨q, hq, hmutex, hholder⟩, hwaits⟩
    refine ⟨⟨q, by simpa [hx] using hq, hmutex, hholder⟩, ?_⟩
    rw [← hevent]
    exact hwake.eventList_of_some hwaits
  · rintro ⟨⟨q, hq, hmutex, hholder⟩, hwaits⟩
    refine ⟨⟨q, by simpa [hx] using hq, hmutex, hholder⟩, ?_⟩
    have hother : σ₁.eventList w ≠ some c.wakeList := by
      rw [hevent, hwaits]
      intro heq
      cases c with
      | prvSend z => exact hx (by simpa [Call.wakeList, Call.xQueue] using heq)
      | xQueueReceive z => simp [Call.wakeList] at heq
    exact (hwake.eventList_of_ne hother).trans ((hevent w).trans hwaits)

theorem Released.priority_of_receive {c : Call} {q : Queue} {σ σ₁ : Sched}
    (h : Released c q σ σ₁) (hreceive : c.isSend = false) : σ₁ = σ := by
  cases h with
  | restored hsend => rw [hreceive] at hsend; cases hsend
  | kept => rfl

theorem Released.priority_of_ne {c : Call} {q : Queue} {σ σ₁ : Sched} (h : Released c q σ σ₁)
    {u : TaskId} (hu : q.pxMutexHolder ≠ some u) : σ₁.priority u = σ.priority u := by
  cases h with
  | @restored h _ _ _ hholder _ hre =>
    have hne : u ≠ h := by
      rintro rfl
      exact hu hholder
    rw [hre.priority, if_neg hne]
  | kept => rfl

section Pairs

variable {k : Kernel} {t w u : TaskId} {c : Call} {q q₁ : Queue} {y : Bool} {σ₁ σ' : Sched}
  {yielding : TaskId → Bool} {stage : TaskId → Stage} {log : List Event}

/-- The mutex of a successful section: only a take leaves it held, by the taker. -/
theorem WaitsFor.taken (hinv : k.Inv) (hmutex₁ : q₁.ucIsMutex = q.ucIsMutex)
    (htake : c.isSend = false → TakeKeeps k t c.xQueue q)
    (hreleased : Released c q₁ k.sched σ₁) (hwake : EventWake c.wakeList σ₁ y σ')
    (hw : WaitsFor ⟨σ', Function.update k.queue c.xQueue (some (c.settled t q₁)), k.uxQueues,
      stage, yielding, log⟩ w c.xQueue u) : σ₁.priority w ≤ σ₁.priority u := by
  obtain ⟨⟨q', hq', hmutex, hholder⟩, hwaits⟩ := hw
  have heq : q' = c.settled t q₁ := by simpa using hq'.symm
  subst heq
  rw [Call.settled_ucIsMutex] at hmutex
  rw [Call.settled_pxMutexHolder _ _ _ hmutex] at hholder
  cases hsend : c.isSend with
  | true => simp [hsend] at hholder
  | false =>
    have hu : u = t := by simpa [hsend] using hholder.symm
    subst hu
    rw [hreleased.priority_of_receive hsend] at hwake ⊢
    have hwaits := hwake.eventList_of_some hwaits
    exact htake hsend (hmutex₁ ▸ hmutex) w (hinv.sched.lt_of_eventList hwaits) hwaits

/-- The pairs of the other mutexes: a give lowers the giver's holder only as far
    as the condition allows. -/
theorem WaitsFor.given (hinv : k.Inv) {x : QueueId} (hqueue : k.queue c.xQueue = some q)
    (hmutex₁ : q₁.ucIsMutex = q.ucIsMutex) (hholder₁ : q₁.pxMutexHolder = q.pxMutexHolder)
    (hbase : ∀ v < k.sched.uxCurrentNumberOfTasks,
      k.sched.basePriority v ≤ k.sched.priority v)
    (hgive : c.isSend = true → GiveKeeps k c.xQueue q) (hreleased : Released c q₁ k.sched σ₁)
    (hx : x ≠ c.xQueue) (hold : WaitsFor k w x u) :
    σ₁.priority w ≤ σ₁.priority u ∨
      σ₁.priority w ≤ k.sched.priority w ∧ k.sched.priority u ≤ σ₁.priority u := by
  cases hreleased with
  | kept => exact Or.inr ⟨Nat.le_refl _, Nat.le_refl _⟩
  | @restored g _ hsend hmutex hholder _ hre =>
    have hg : q.pxMutexHolder = some g := hholder₁ ▸ hholder
    have hw : σ₁.priority w ≤ k.sched.priority w := by
      rw [hre.priority]
      split
      · rename_i heq
        subst heq
        exact hbase w (hinv.holder _ q w hqueue hg)
      · exact Nat.le_refl _
    by_cases hu : u = g
    · -- another mutex of the giver's holder
      subst hu
      left
      by_cases hwu : w = u
      · rw [hwu]
      · rw [hre.priority w, hre.priority u, if_neg hwu, if_pos rfl]
        obtain ⟨hlt, hlt'⟩ := hold.lt hinv
        exact hgive hsend (hmutex₁ ▸ hmutex) u hg w hlt x hlt' ⟨hx, hwu, hold⟩
    · exact Or.inr ⟨hw, by rw [hre.priority u, if_neg hu]⟩

/-- A task that begins to wait for a mutex: its holder has just been boosted, or
    needs no boost. -/
theorem Boosted.priority_le (hon : k.sched.xInheritEnabled = true)
    (hboosted : Boosted c q t k.sched σ₁) (hreceive : c.isSend = false)
    (hmutex : q.ucIsMutex = true) (hholder : q.pxMutexHolder = some u) :
    σ₁.priority t ≤ σ₁.priority u := by
  cases hboosted with
  | kept hhigh => exact Nat.not_lt.mp (hhigh hreceive hmutex u hholder hon)
  | @raised g _ _ _ hholder' _ _ hre =>
    cases hholder'.symm.trans hholder
    rw [hre.priority u, if_pos rfl, hre.priority t]
    split
    · exact Nat.le_refl _
    · exact Nat.le_refl _

/-- The pairs that were there when a task blocks: a boosted holder that waits
    itself stays within the condition. -/
theorem WaitsFor.boosted (hinv : k.Inv) {x : QueueId}
    (hblock : c.isSend = false → BlockKeeps k t q) (hboosted : Boosted c q t k.sched σ₁)
    (hold : WaitsFor k w x u) :
    σ₁.priority w ≤ σ₁.priority u ∨
      σ₁.priority w ≤ k.sched.priority w ∧ k.sched.priority u ≤ σ₁.priority u := by
  cases hboosted with
  | kept => exact Or.inr ⟨Nat.le_refl _, Nat.le_refl _⟩
  | @raised g _ hreceive hmutex hholder _ hlow hre =>
    have hu : k.sched.priority u ≤ σ₁.priority u := by
      rw [hre.priority]
      split
      · rename_i heq
        subst heq
        exact Nat.le_of_lt hlow
      · exact Nat.le_refl _
    by_cases hwg : w = g
    · -- the boosted holder waits for another mutex
      subst hwg
      left
      by_cases hwu : u = w
      · rw [hwu]
      · rw [hre.priority w, hre.priority u, if_pos rfl, if_neg hwu]
        obtain ⟨q', hq', _, hholder'⟩ := hold.held
        exact hblock hreceive hmutex w hholder hlow x (hold.lt hinv).2 u
          (hinv.holder x q' u hq' hholder') ⟨hwu, hold⟩
    · exact Or.inr ⟨by rw [hre.priority w, if_neg hwg], hu⟩

end Pairs

theorem inherited_step {k : Kernel} (hreach : kernel.Reach k) (hon : k.sched.xInheritEnabled = true)
    (h : Inherited k) (hkeeps : KeepsInheritance k a) (heffect : KernelEffect k a k') :
    Inherited k' := by
  have hinv := kernel_inv hreach
  cases heffect with
  | called | refused | declined | returned => exact fun w x u hw => h w x u ⟨hw.held, hw.waits⟩
  | quiet hquiet =>
    refine h.of_step fun w x u hw => Or.inr ?_
    obtain ⟨hold, hpw, hpu⟩ := hw.of_quiet hinv hquiet fun _ hq _ => hq
    exact ⟨hold, Nat.le_of_eq hpw, Nat.le_of_eq hpu.symm⟩
  | opened hnew hquiet =>
    refine h.of_step fun w x u hw => Or.inr ?_
    obtain ⟨hold, hpw, hpu⟩ := hw.of_quiet hinv hquiet (by
      intro q hq hholder
      rcases Kernel.queue_of_update hq with ⟨_, rfl⟩ | ⟨_, hq⟩
      · rw [newQueue_holder hnew] at hholder
        cases hholder
      · exact hq)
    exact ⟨hold, Nat.le_of_eq hpw, Nat.le_of_eq hpu.symm⟩
  | deleted =>
    rintro w x u ⟨⟨q, hq, hmutex, hholder⟩, hwaits⟩
    exact h w x u ⟨⟨q, (Kernel.queue_of_delete hq).2, hmutex, hholder⟩, hwaits⟩
  | @ticked σ hwoke =>
    refine h.of_step fun w x u hw => Or.inr ?_
    obtain ⟨hheld, hwaits⟩ := hw
    have hwaits : σ.eventList w = _ := (quiet_switch σ).event w ▸ hwaits
    exact ⟨⟨hheld, (hwoke.eventList_of_some hwaits).1⟩,
      Nat.le_of_eq (hwoke.priorities w).1, Nat.le_of_eq (hwoke.priorities u).1.symm⟩
  | @transferred t c q q₁ item y σ₁ σ' hcur hrun hstage hqueue hpossible hcopy hreleased hwake =>
    obtain ⟨_, _, hmutex₁, hholder₁, _⟩ := Call.copy_fields hcopy
    obtain ⟨hgive, htake⟩ := hkeeps.look hcur hrun hstage hqueue hpossible
    refine h.of_step fun w x u hw => ?_
    change σ'.priority w ≤ σ'.priority u ∨ _ ∧ σ'.priority w ≤ _ ∧ _ ≤ σ'.priority u
    rw [(hwake.priorities w).1, (hwake.priorities u).1]
    by_cases hx : x = c.xQueue
    · subst hx
      exact Or.inl (hw.taken hinv hmutex₁ htake hreleased hwake)
    · have hold : WaitsFor k w x u := (waitsFor_of_transfer hreleased hwake hx).mp hw
      rcases hold.given hinv hqueue hmutex₁ hholder₁ (boosts_accounted hreach).base_le hgive
        hreleased hx with hle | hroom
      · exact Or.inl hle
      · exact Or.inr ⟨hold, hroom⟩
  | @enlisted t c q σ₁ σ' hcur hrun hstage hqueue hboosted hblocked =>
    refine h.of_step fun w x u hw => ?_
    change σ'.priority w ≤ σ'.priority u ∨ _ ∧ σ'.priority w ≤ _ ∧ _ ≤ σ'.priority u
    rw [(hblocked.priorities w).1, (hblocked.priorities u).1]
    obtain ⟨⟨q', hq', hmutex, hholder⟩, hwaits⟩ := hw
    have hwaits : σ'.eventList w = some (xTasksWaitingToReceive x) := hwaits
    have hq' : k.queue x = some q' := hq'
    by_cases hwt : w = t
    · subst hwt
      have hlist := Option.some.inj (hblocked.event.symm.trans hwaits)
      have hcall : c.isSend = false ∧ x = c.xQueue := by
        cases c with
        | prvSend => simp [Call.waitList] at hlist
        | xQueueReceive => exact ⟨rfl, by simpa [Call.waitList, Call.xQueue] using hlist.symm⟩
      obtain ⟨hreceive, rfl⟩ := hcall
      cases hqueue.symm.trans hq'
      exact Or.inl (hboosted.priority_le hon hreceive hmutex hholder)
    · have hold : WaitsFor k w x u := by
        refine ⟨⟨q', hq', hmutex, hholder⟩, ?_⟩
        rw [← hboosted.frame.event w, ← hwaits]
        simp only [Sched.eventList, (hblocked.other w hwt).2]
      rcases hold.boosted hinv (hkeeps.block hcur hrun hstage hqueue) hboosted with hle | hroom
      · exact Or.inl hle
      · exact Or.inr ⟨hold, hroom⟩

/-! ### A step that does not meet it loses the bound -/

theorem giveKeeps_of_transfer {k : Kernel} {t : TaskId} {c : Call} {q q₁ : Queue} {y : Bool}
    {σ₁ σ' : Sched} {yielding : TaskId → Bool} {stage : TaskId → Stage} {log : List Event}
    (hsend : c.isSend = true) (hmutex₁ : q₁.ucIsMutex = q.ucIsMutex)
    (hholder₁ : q₁.pxMutexHolder = q.pxMutexHolder)
    (hreleased : Released c q₁ k.sched σ₁) (hwake : EventWake c.wakeList σ₁ y σ')
    (h' : Inherited ⟨σ', Function.update k.queue c.xQueue (some (c.settled t q₁)), k.uxQueues,
      stage, yielding, log⟩) : GiveKeeps k c.xQueue q := by
  rintro hmutex h hholder w _ x _ ⟨hx, hwh, hwait⟩
  have hle : σ'.priority w ≤ σ'.priority h :=
    h' w x h ((waitsFor_of_transfer hreleased hwake hx).mpr hwait)
  have hrestored := (hreleased.priority h).2.2 hsend (hmutex₁.trans hmutex)
    (hholder₁.trans hholder)
  have hkept : σ₁.priority w = k.sched.priority w := by
    refine hreleased.priority_of_ne ?_
    rw [hholder₁]
    intro heq
    exact hwh (Option.some.inj (heq.symm.trans hholder))
  rwa [(hwake.priorities w).1, (hwake.priorities h).1, hkept, hrestored] at hle

theorem takeKeeps_of_transfer {k : Kernel} {t : TaskId} {c : Call} {q q₁ : Queue} {y : Bool}
    {σ₁ σ' : Sched} {yielding : TaskId → Bool} {stage : TaskId → Stage} {log : List Event}
    (hreceive : c.isSend = false) (hmutex₁ : q₁.ucIsMutex = q.ucIsMutex)
    (hreleased : Released c q₁ k.sched σ₁) (hwake : EventWake c.wakeList σ₁ y σ')
    (h' : Inherited ⟨σ', Function.update k.queue c.xQueue (some (c.settled t q₁)), k.uxQueues,
      stage, yielding, log⟩) : TakeKeeps k t c.xQueue q := by
  intro hmutex w _ hwait
  have hσ := hreleased.priority_of_receive hreceive
  subst hσ
  have hmutex := hmutex₁.trans hmutex
  -- a receive wakes senders only, so the waiter is still there
  have hother : k.sched.eventList w ≠ some c.wakeList := by
    rw [hwait]
    cases c with
    | prvSend => cases hreceive
    | xQueueReceive => simp [Call.wakeList]
  have hle : σ'.priority w ≤ σ'.priority t := by
    refine h' w c.xQueue t ⟨⟨c.settled t q₁, by simp, ?_, ?_⟩, ?_⟩
    · rw [Call.settled_ucIsMutex, hmutex]
    · rw [Call.settled_pxMutexHolder _ _ _ hmutex, hreceive]
      rfl
    · exact (hwake.eventList_of_ne hother).trans hwait
  rwa [(hwake.priorities w).1, (hwake.priorities t).1] at hle

theorem blockKeeps_of_enlist {k : Kernel} {t : TaskId} {c : Call} {q : Queue} {σ₁ σ' : Sched}
    {yielding : TaskId → Bool} {stage : TaskId → Stage} {log : List Event}
    (hon : k.sched.xInheritEnabled = true) (hreceive : c.isSend = false)
    (hboosted : Boosted c q t k.sched σ₁) (hblocked : Blocked t c.waitList c.xTicksToWait σ₁ σ')
    (h' : Inherited ⟨σ', k.queue, k.uxQueues, stage, yielding, log⟩) : BlockKeeps k t q := by
  rintro hmutex h hholder hlow x _ u _ ⟨huh, hwait⟩
  have hne : h ≠ t := by
    rintro rfl
    exact Nat.lt_irrefl _ hlow
  cases hboosted with
  | kept hhigh => exact absurd hlow (hhigh hreceive hmutex h hholder hon)
  | @raised g _ _ _ hholder' _ _ hre =>
    cases hholder'.symm.trans hholder
    have hwaits : σ'.eventList h = some (xTasksWaitingToReceive x) := by
      rw [← hwait.waits, ← hre.eventList h]
      simp only [Sched.eventList, (hblocked.other h hne).2]
    have hle : σ'.priority h ≤ σ'.priority u := h' h x u ⟨hwait.held, hwaits⟩
    rwa [(hblocked.priorities h).1, (hblocked.priorities u).1, hre.priority h, hre.priority u,
      if_pos rfl, if_neg huh] at hle

/-- A section that transfers nothing asks for nothing. -/
theorem sectionKeeps_of_refused {k : Kernel} {t : TaskId} {stage : Stage} {c : Call} {q : Queue}
    (h : stage = .enter c ∨ stage = .wait c) (hqueue : k.queue c.xQueue = some q)
    (hpossible : c.possible q = false) : SectionKeeps k t stage := by
  rw [sectionKeeps_look h]
  intro q' hq' hpossible'
  cases hqueue.symm.trans hq'
  rw [hpossible] at hpossible'
  cases hpossible'

theorem keepsInheritance_of_step {k : Kernel} (hon : k.sched.xInheritEnabled = true)
    (hon' : k'.sched.xInheritEnabled = true) (h' : Inherited k') (hstep : kernel.Step k a k')
    (heffect : KernelEffect k a k') : KeepsInheritance k a := by
  cases a with
  | vTaskSetMutexInheritance b =>
    obtain ⟨_, hexec⟩ := hstep
    cases hexec
    exact hon'
  | resume =>
    intro t hcur hrun
    cases heffect with
    | quiet _ _ hyield =>
      rw [hyield rfl t hcur] at hrun
      cases hrun
    | opened hnew => cases hnew
    | transferred hcur' _ hstage hqueue _ hcopy hreleased hwake =>
      cases hcur.symm.trans hcur'
      rw [sectionKeeps_look hstage]
      intro q' hq' _
      cases hqueue.symm.trans hq'
      obtain ⟨_, _, hmutex, hholder, _⟩ := Call.copy_fields hcopy
      exact ⟨fun hsend => giveKeeps_of_transfer hsend hmutex hholder hreleased hwake h',
        fun hreceive => takeKeeps_of_transfer hreceive hmutex hreleased hwake h'⟩
    | refused hcur' _ hstage hqueue hpossible =>
      cases hcur.symm.trans hcur'
      exact sectionKeeps_of_refused (hstage.imp_left And.left) hqueue hpossible
    | declined hcur' _ hstage _ hqueue hpossible =>
      cases hcur.symm.trans hcur'
      exact sectionKeeps_of_refused (Or.inl hstage) hqueue hpossible
    | enlisted hcur' _ hstage hqueue hboosted hblocked =>
      cases hcur.symm.trans hcur'
      rw [hstage]
      intro q' hq' hreceive
      cases hqueue.symm.trans hq'
      exact blockKeeps_of_enlist hon hreceive hboosted hblocked h'
    | returned hcur' _ hstage =>
      cases hcur.symm.trans hcur'
      rw [hstage]
      exact trivial
  | xTaskCreate | vTaskStartScheduler | xQueueCreate | xQueueCreateCounting | xQueueCreateMutex
  | vQueueDelete | call | vTaskDelay | taskYIELD | tick => exact trivial

/-! ### Every run -/

theorem KernelEffect.inheritance {k : Kernel} (h : KernelEffect k a k') :
    k'.sched.xInheritEnabled = k.sched.xInheritEnabled ∨
      a = .vTaskSetMutexInheritance k'.sched.xInheritEnabled := by
  cases h with
  | quiet _ hinherit => exact hinherit
  | opened _ _ hinherit => exact Or.inl hinherit
  | transferred _ _ _ _ _ _ hreleased hwake =>
    obtain ⟨top, lists, rfl⟩ := hwake.frame
    exact Or.inl hreleased.frame.inherit
  | enlisted _ _ _ _ hboosted hblocked =>
    obtain ⟨lists, rfl⟩ := hblocked.frame
    exact Or.inl hboosted.frame.inherit
  | ticked hwoke =>
    obtain ⟨top, lists, rfl⟩ := hwoke.frame
    exact Or.inl rfl
  | deleted | called | refused | declined | returned => exact Or.inl rfl

theorem inherited_of_reach {k : Kernel} (h : (kernel.restrict KeepsInheritance).Reach k) :
    k.sched.xInheritEnabled = true ∧ Inherited k := by
  refine kernel_invariant (P := fun k => k.sched.xInheritEnabled = true ∧ Inherited k) ?_ ?_ h
  · refine ⟨rfl, ?_⟩
    rintro w x h ⟨⟨q, hq, _⟩, _⟩
    cases hq
  · rintro k a k' hreach ⟨hon, ih⟩ hkeeps heffect
    refine ⟨?_, inherited_step hreach.of_restrict hon ih hkeeps heffect⟩
    rcases heffect.inheritance with hsame | rfl
    · exact hsame.trans hon
    · exact hkeeps

/-- **Inheritance bounds inversion exactly along the runs that keep it.**  While
    every step meets the condition the holder of a mutex runs at least at the
    priority of each of its waiters; and the first step that does not meet it,
    with inheritance still on, leads to a state in which a holder runs below one. -/
theorem inheritance_bounds_inversion {k : Kernel}
    (h : (kernel.restrict KeepsInheritance).Reach k) :
    Inherited k ∧ ∀ a k', kernel.Step k a k' → k'.sched.xInheritEnabled = true →
      (Inherited k' ↔ KeepsInheritance k a) := by
  obtain ⟨hon, hinherited⟩ := inherited_of_reach h
  refine ⟨hinherited, ?_⟩
  intro a k' hstep hon'
  have heffect := kernel_effect h.of_restrict hstep
  constructor
  · intro h'
    exact keepsInheritance_of_step hon hon' h' hstep heffect
  · intro hkeeps
    exact inherited_step h.of_restrict hon hinherited hkeeps heffect

theorem inheritance_bounds_inversion_lent :
    ∃ k, (kernel.restrict KeepsInheritance).Reach k ∧ WaitsFor k 1 0 0 ∧
      k.sched.basePriority 0 = 1 ∧ k.sched.priority 1 = 3 ∧ 3 ≤ k.sched.priority 0 := by
  obtain ⟨k, hreach, hk⟩ := (kernel.restrict KeepsInheritance).exists_reach lentSchedule
    (fun k => WaitsFor k 1 0 0 ∧ k.sched.basePriority 0 = 1 ∧ k.sched.priority 1 = 3)
    (by decide +kernel)
  obtain ⟨hwait, hbase, hprio⟩ := of_decide_eq_true hk
  refine ⟨k, hreach, hwait, hbase, hprio, ?_⟩
  have hle := (inheritance_bounds_inversion hreach).1 1 0 0 hwait
  rwa [hprio] at hle

/-- Task 0, of priority 1, takes two mutexes and is boosted by task 1, of priority
    3, which blocks on the first; then it gives the second. -/
def nestedSchedule : List Action :=
  [.xTaskCreate ⟨true, true⟩ 1, .xTaskCreate ⟨true, true⟩ 3, .vTaskStartScheduler ⟨true, true⟩,
    .xQueueCreateMutex (some 0), .xQueueCreateMutex (some 0),
    .call (xSemaphoreTake 0 portMaxDelay), .resume, .resume,
    .call (xSemaphoreTake 1 portMaxDelay), .resume, .resume,
    .tick, .call (xSemaphoreTake 0 portMaxDelay), .resume, .resume, .resume,
    .call (xSemaphoreGive 1), .resume]

/-- The give takes the whole boost back, although task 1 still waits for the
    mutex that task 0 still holds. -/
theorem nested_give_drops_boost :
    ∃ k, kernel.Run kernel.init nestedSchedule k ∧ k.sched.xInheritEnabled = true ∧
      WaitsFor k 1 0 0 ∧ k.sched.priority 0 = 1 ∧ k.sched.priority 1 = 3 ∧ ¬ Inherited k := by
  obtain ⟨k, hrun, hk⟩ := kernel.exists_run nestedSchedule
    (fun k => k.sched.xInheritEnabled = true ∧ WaitsFor k 1 0 0 ∧ k.sched.priority 0 = 1 ∧
      k.sched.priority 1 = 3) (by decide +kernel)
  obtain ⟨hon, hwait, hholder, hwaiter⟩ := of_decide_eq_true hk
  refine ⟨k, hrun, hon, hwait, hholder, hwaiter, ?_⟩
  intro h
  have hle := h 1 0 0 hwait
  rw [hholder, hwaiter] at hle
  exact absurd hle (by decide)

end FlintRTOS
