import FlintRTOS.KernelInvariant

/-!
# Histories

The log of a run tells, for every task, the calls it made, the transfers those
calls carried out and what they returned.  `session` reads the events of one task
as a sequence of calls and rejects anything but: a call, at most one transfer for
it, and its return; success is returned with the item of the transfer, failure
only without one.

`Kernel.Reach` never leaves that shape, whatever the interleaving.
-/

namespace FlintRTOS

/-- Where a task stands between two of its events: outside a call, in a call that
    has transferred nothing yet, in a call that has transferred `item`. -/
inductive Session where
  | idle
  | pending (c : Call)
  | carried (c : Call) (item : Item)
deriving DecidableEq, Repr

/-- The session of `t` after the logged events, newest first; `none` when they
    are not a sequence of calls. -/
def session (t : TaskId) : List Event → Option Session
  | [] => some .idle
  | .call u c :: log =>
      if u = t then if session t log = some .idle then some (.pending c) else none
      else session t log
  | .transfer u c item :: log =>
      if u = t then if session t log = some (.pending c) then some (.carried c item) else none
      else session t log
  | .ret u c r item :: log =>
      if u = t then
        if r = pdPass then if session t log = some (.carried c item) then some .idle else none
        else if session t log = some (.pending c) ∧ r = c.failure ∧ item = [] then some .idle
        else none
      else session t log
  | .tick :: log => session t log
  | .create _ _ :: log => session t log
  | .delete _ :: log => session t log

/-- The session a stage belongs to. -/
def Stage.session : Stage → Session
  | .app => .idle
  | .enter c => .pending c
  | .block c => .pending c
  | .wait c => .pending c
  | .done c r item => if r = pdPass then .carried c item else .pending c

/-- A result is success, or the failure of the call without an item. -/
def Stage.WellEnded : Stage → Prop
  | .done c r item => r = pdPass ∨ r = c.failure ∧ item = []
  | _ => True

theorem Call.failure_ne_pdPass (c : Call) : c.failure ≠ pdPass := by
  cases c with
  | prvSend => simp [failure, errQueueFull, pdPass]
  | xQueueReceive => simp [failure, errQueueEmpty, pdPass]

/-- One task comes to another stage: its session moves with it, and the others
    stay. -/
theorem session_update {stages : TaskId → Stage} {log log' : List Event} {u : TaskId}
    {stage : Stage}
    (h : ∀ t, session t log = some (stages t).session ∧ (stages t).WellEnded)
    (hown : session u log' = some stage.session) (hended : stage.WellEnded)
    (hother : ∀ t, t ≠ u → session t log' = session t log) (t : TaskId) :
    session t log' = some (Function.update stages u stage t).session ∧
      (Function.update stages u stage t).WellEnded := by
  by_cases ht : t = u
  · subst ht
    rw [Function.update_self]
    exact ⟨hown, hended⟩
  · rw [Function.update_of_ne ht, hother t ht]
    exact h t

theorem Stage.session_of_look {stage : Stage} {c : Call}
    (h : stage = .enter c ∨ stage = .wait c) : stage.session = .pending c := by
  rcases h with rfl | rfl
  · rfl
  · rfl

variable {k : Kernel} {t : TaskId}

/-- **Every interleaving is, task by task, a sequence of calls.** -/
theorem session_of_reach (h : kernel.Reach k) :
    ∀ t, session t k.log = some (k.stage t).session ∧ (k.stage t).WellEnded := by
  refine h.invariant
    (P := fun k => ∀ t, session t k.log = some (k.stage t).session ∧ (k.stage t).WellEnded) ?_ ?_
  · intro t
    exact ⟨rfl, trivial⟩
  intro k a k' hreach ih hstep
  cases kernel_effect hreach hstep with
  | quiet | opened | deleted | ticked => exact ih
  | @called u c _ _ hstage =>
    have hidle := (ih u).1
    rw [hstage] at hidle
    refine session_update ih ?_ trivial ?_
    · simp [session, hidle, Stage.session]
    · intro t ht
      simp [session, Ne.symm ht]
  | @transferred u c q q₁ item y σ₁ σ' _ _ hstage =>
    have hpending := (ih u).1
    rw [Stage.session_of_look hstage] at hpending
    refine session_update ih ?_ (Or.inl rfl) ?_
    · simp [session, hpending, Stage.session]
    · intro t ht
      simp [session, Ne.symm ht]
  | @refused u c q _ _ hstage =>
    have hpending := (ih u).1
    rw [Stage.session_of_look (hstage.imp_left And.left)] at hpending
    refine session_update ih ?_ (Or.inr ⟨rfl, rfl⟩) fun _ _ => rfl
    simp [hpending, Stage.session, c.failure_ne_pdPass]
  | @declined u c q _ _ hstage | @enlisted u c q σ₁ σ' _ _ hstage =>
    have hpending := (ih u).1
    rw [hstage] at hpending
    exact session_update ih hpending trivial fun _ _ => rfl
  | @returned u c r item _ _ hstage =>
    obtain ⟨hsession, hended⟩ := ih u
    rw [hstage] at hsession hended
    refine session_update ih ?_ trivial ?_
    · by_cases hr : r = pdPass
      · simp only [Stage.session, hr, if_true] at hsession
        simp [session, hr, hsession, Stage.session]
      · simp only [Stage.session, hr, if_false] at hsession
        have hfail : r = c.failure ∧ item = [] := hended.resolve_left hr
        simp [session, hsession, Stage.session, hfail, c.failure_ne_pdPass]
    · intro t ht
      simp [session, Ne.symm ht]

/-- A send transfers the item it was given. -/
theorem transfer_item (h : kernel.Reach k) {x : QueueId} {pvItem : Option Item} {n : TickType}
    {xToFront : Bool} {item : Item} (he : .transfer t (.prvSend x pvItem n xToFront) item ∈ k.log) :
    item = pvItem.getD [] := by
  refine kernel_invariant (P := fun k => ∀ t x pvItem n xToFront item,
    .transfer t (.prvSend x pvItem n xToFront) item ∈ k.log → item = pvItem.getD []) ?_ ?_
      h.restrict_true t x pvItem n xToFront item he
  · intro t x pvItem n xToFront item he
    cases he
  intro k a k' _ ih _ heffect t x pvItem n xToFront item he
  cases heffect with
  | quiet | refused | declined | enlisted => exact ih t x pvItem n xToFront item he
  | opened | deleted | called | returned | ticked =>
    refine ih t x pvItem n xToFront item ?_
    simpa using he
  | @transferred u c q q₁ item' _ _ _ _ _ _ _ _ hcopy =>
    rcases List.mem_cons.mp he with heq | he
    · cases heq
      obtain ⟨_, _, heq⟩ := Option.map_eq_some_iff.mp hcopy
      exact (Prod.ext_iff.mp heq).1.symm
    · exact ih t x pvItem n xToFront item he

theorem session_tail {e : Event} {log : List Event} (h : session t (e :: log) ≠ none) :
    session t log ≠ none := by
  intro hnone
  apply h
  cases e with
  | call u c => simp [session, hnone]
  | transfer u c item => simp [session, hnone]
  | ret u c r item => simp [session, hnone]
  | tick | create | delete => exact hnone

/-- A return closes the call that its task is in: a success one that has
    transferred the returned item, a failure one that has transferred nothing. -/
theorem session_of_ret (h : kernel.Reach k) {c : Call} {r : BaseType} {item : Item} {l : List Event}
    (hl : .ret t c r item :: l <:+ k.log) :
    r = pdPass ∧ session t l = some (.carried c item) ∨
      r = c.failure ∧ session t l = some (.pending c) := by
  obtain ⟨l', hl'⟩ := hl
  have hsome : session t (l' ++ .ret t c r item :: l) ≠ none := by
    rw [hl', (session_of_reach h t).1]
    simp
  have hret : session t (.ret t c r item :: l) ≠ none := by
    clear hl'
    induction l' with
    | nil => exact hsome
    | cons e l' ih => exact ih (session_tail hsome)
  by_cases hr : r = pdPass
  · left
    by_contra hne
    simp only [hr, true_and] at hne
    simp [session, hr, hne] at hret
  · right
    by_contra hne
    rw [not_and_or] at hne
    apply hret
    simp only [session, if_true, hr, if_false]
    refine if_neg ?_
    rintro ⟨hpending, hfailure, _⟩
    rcases hne with hne | hne
    · exact hne hfailure
    · exact hne hpending

end FlintRTOS
