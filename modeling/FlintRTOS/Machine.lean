import Mathlib.Data.List.Basic

/-!
# Guarded machines

A machine is a set of atomic actions over one state.  `guard` says when an
action may be taken: it holds the discipline of the environment and of the
callers.  `exec` is the code of the action and returns `none` where the code's
behaviour is undefined, so a machine whose reachable states never fault is a
safety theorem about the code and not a restriction on the schedules.

Runs are schedules: finite sequences of guarded actions in any order.
-/

/-- Atomic actions `A` over states `S`. -/
structure Machine (S A : Type) where
  init : S
  guard : S → A → Prop
  exec : S → A → Option S

namespace Machine

variable {S A T B : Type}

/-- One guarded action that does not fault. -/
def Step (M : Machine S A) (s : S) (a : A) (s' : S) : Prop :=
  M.guard s a ∧ M.exec s a = some s'

/-- A schedule `as` that leads from `s` to `s'`. -/
inductive Run (M : Machine S A) (s : S) : List A → S → Prop where
  | refl : Run M s [] s
  | tail {as : List A} {s' s'' : S} {a : A} :
      Run M s as s' → M.Step s' a s'' → Run M s (as ++ [a]) s''

/-- States some schedule leads to. -/
inductive Reach (M : Machine S A) : S → Prop where
  | init : Reach M M.init
  | step {s s' : S} {a : A} : Reach M s → M.Step s a s' → Reach M s'

/-- No action the guards admit is undefined in `s`. -/
def Safe (M : Machine S A) (s : S) : Prop :=
  ∀ a, M.guard s a → ∃ s', M.exec s a = some s'

/-- Only the schedules whose every action also meets `P`. -/
def restrict (M : Machine S A) (P : S → A → Prop) : Machine S A where
  init := M.init
  guard s a := M.guard s a ∧ P s a
  exec := M.exec

instance (M : Machine S A) (P : S → A → Prop) (s : S) (a : A) [Decidable (M.guard s a)]
    [Decidable (P s a)] : Decidable ((M.restrict P).guard s a) :=
  inferInstanceAs (Decidable (_ ∧ _))

variable {M : Machine S A} {s s' : S} {a : A} {as : List A}

theorem restrict_step {P : S → A → Prop} : (M.restrict P).Step s a s' ↔ M.Step s a s' ∧ P s a := by
  constructor
  · rintro ⟨⟨hguard, hp⟩, hexec⟩
    exact ⟨⟨hguard, hexec⟩, hp⟩
  · rintro ⟨⟨hguard, hexec⟩, hp⟩
    exact ⟨⟨hguard, hp⟩, hexec⟩

/-- The invariant rule: what holds initially and is kept by every step from a
    reachable state holds in every reachable state. -/
theorem Reach.invariant {P : S → Prop} (hinit : P M.init)
    (hstep : ∀ s a s', M.Reach s → P s → M.Step s a s' → P s') {s : S} (h : M.Reach s) : P s := by
  induction h with
  | init => exact hinit
  | step hreach hst ih => exact hstep _ _ _ hreach ih hst

theorem Reach.of_restrict {P : S → A → Prop} (h : (M.restrict P).Reach s) : M.Reach s := by
  induction h with
  | init => exact Reach.init
  | step _ hst ih => exact ih.step (restrict_step.mp hst).1

theorem Reach.restrict_true (h : M.Reach s) : (M.restrict fun _ _ => True).Reach s := by
  induction h with
  | init => exact Reach.init
  | step _ hst ih => exact ih.step (restrict_step.mpr ⟨hst, trivial⟩)

/-! ### A record beside the state -/

/-- The machine with a record of its past that no action reads: `note` says what
    an action adds to it. -/
def ghost {G : Type} (M : Machine S A) (g₀ : G) (note : G → S → A → G) : Machine (S × G) A where
  init := (M.init, g₀)
  guard x a := M.guard x.1 a
  exec x a := (M.exec x.1 a).map fun s' => (s', note x.2 x.1 a)

instance {G : Type} (M : Machine S A) (g₀ : G) (note : G → S → A → G) (x : S × G) (a : A)
    [Decidable (M.guard x.1 a)] : Decidable ((M.ghost g₀ note).guard x a) :=
  inferInstanceAs (Decidable (M.guard x.1 a))

theorem ghost_step {G : Type} {g₀ : G} {note : G → S → A → G} {x y : S × G} :
    (M.ghost g₀ note).Step x a y ↔ M.Step x.1 a y.1 ∧ y.2 = note x.2 x.1 a := by
  constructor
  · rintro ⟨hguard, hexec⟩
    obtain ⟨s', hs', rfl⟩ := Option.map_eq_some_iff.mp hexec
    exact ⟨⟨hguard, hs'⟩, rfl⟩
  · rintro ⟨⟨hguard, hexec⟩, hnote⟩
    refine ⟨hguard, ?_⟩
    change (M.exec x.1 a).map _ = _
    rw [hexec, Option.map_some, ← hnote]

theorem Reach.of_ghost {G : Type} {g₀ : G} {note : G → S → A → G} {x : S × G}
    (h : (M.ghost g₀ note).Reach x) : M.Reach x.1 := by
  induction h with
  | init => exact Reach.init
  | step _ hst ih => exact ih.step (ghost_step.mp hst).1

/-- Every schedule has its record. -/
theorem Reach.exists_ghost {G : Type} (h : M.Reach s) (g₀ : G) (note : G → S → A → G) :
    ∃ g, (M.ghost g₀ note).Reach (s, g) := by
  induction h with
  | init => exact ⟨g₀, Reach.init⟩
  | @step s s' a _ hst ih =>
    obtain ⟨g, hg⟩ := ih
    exact ⟨note g s a, hg.step (ghost_step.mpr ⟨hst, rfl⟩)⟩

theorem Reach.run (h : M.Reach s) (hrun : M.Run s as s') : M.Reach s' := by
  induction hrun with
  | refl => exact h
  | tail _ hst ih => exact ih.step hst

theorem Reach.exists_run (h : M.Reach s) : ∃ as, M.Run M.init as s := by
  induction h with
  | init => exact ⟨[], Run.refl⟩
  | step _ hst ih =>
    obtain ⟨as, hrun⟩ := ih
    exact ⟨_, hrun.tail hst⟩

theorem Run.append {s'' : S} {bs : List A} (h : M.Run s as s') (h' : M.Run s' bs s'') :
    M.Run s (as ++ bs) s'' := by
  induction h' with
  | refl => simpa using h
  | tail _ hst ih =>
    rw [← List.append_assoc]
    exact ih.tail hst

theorem Run.single (h : M.Step s a s') : M.Run s [a] s' := by
  simpa using (Run.refl (M := M) (s := s)).tail h

theorem Run.eq_of_nil (h : M.Run s [] s') : s' = s := by
  generalize hl : ([] : List A) = l at h
  cases h with
  | refl => rfl
  | tail => simp at hl

/-- The first action of a schedule. -/
theorem Run.head {s'' : S} (h : M.Run s (a :: as) s'') : ∃ s', M.Step s a s' ∧ M.Run s' as s'' := by
  generalize hl : a :: as = l at h
  induction h generalizing as with
  | refl => cases hl
  | @tail bs s₁ s₂ b hrun hst ih =>
    cases bs with
    | nil =>
      cases hl
      obtain rfl := hrun.eq_of_nil
      exact ⟨s₂, hst, Run.refl⟩
    | cons c bs =>
      cases hl
      obtain ⟨s', hfirst, hrest⟩ := ih rfl
      exact ⟨s', hfirst, hrest.tail hst⟩

/-- The invariant rule for one schedule, whose actions may be known. -/
theorem Run.invariant {P : S → Prop} (h : M.Run s as s') (hinit : P s)
    (hstep : ∀ s a s', a ∈ as → P s → M.Step s a s' → P s') : P s' := by
  induction h with
  | refl => exact hinit
  | @tail as s₁ s₂ a _ hst ih =>
    refine hstep _ a _ (by simp) (ih ?_) hst
    intro t b t' hb
    exact hstep t b t' (List.mem_append_left _ hb)

/-! ### Simulation -/

/-- The simulation rule: when every step of `M` from a reachable state is matched
    by a schedule of `N` under `R`, so is every schedule of `M`. -/
theorem Run.simulate {N : Machine T B} {R : S → T → Prop}
    (hstep : ∀ s a s' t, M.Reach s → R s t → M.Step s a s' → ∃ bs t', N.Run t bs t' ∧ R s' t')
    {t : T} (h : M.Reach s) (hrel : R s t) (hrun : M.Run s as s') :
    ∃ bs t', N.Run t bs t' ∧ R s' t' := by
  induction hrun with
  | refl => exact ⟨[], t, Run.refl, hrel⟩
  | tail hrun hst ih =>
    obtain ⟨bs, t₁, hruns, hrel₁⟩ := ih
    obtain ⟨bs', t₂, hruns', hrel₂⟩ := hstep _ _ _ t₁ (h.run hrun) hrel₁ hst
    exact ⟨bs ++ bs', t₂, hruns.append hruns', hrel₂⟩

/-! ### Executing a schedule -/

/-- Run a schedule when every guard admits it and nothing faults. -/
def runList (M : Machine S A) [∀ s a, Decidable (M.guard s a)] : S → List A → Option S
  | s, [] => some s
  | s, a :: as => if M.guard s a then (M.exec s a).bind fun s' => runList M s' as else none

theorem run_of_runList [∀ s a, Decidable (M.guard s a)] :
    ∀ {s s' : S}, M.runList s as = some s' → M.Run s as s' := by
  induction as with
  | nil =>
    intro s s' h
    cases h
    exact Run.refl
  | cons a as ih =>
    intro s s' h
    rw [runList] at h
    split at h
    · rename_i hguard
      obtain ⟨s₁, hexec, hrest⟩ := Option.bind_eq_some_iff.mp h
      exact (Run.single ⟨hguard, hexec⟩).append (ih hrest)
    · cases h

/-- A schedule that runs from the initial state, with a check of its end state. -/
theorem exists_run (M : Machine S A) [∀ s a, Decidable (M.guard s a)] (as : List A)
    (p : S → Bool) (h : (M.runList M.init as).any p = true) :
    ∃ s, M.Run M.init as s ∧ p s = true := by
  obtain ⟨s, hrun, hp⟩ := (Option.any_eq_true _ _).mp h
  exact ⟨s, run_of_runList hrun, hp⟩

theorem exists_reach (M : Machine S A) [∀ s a, Decidable (M.guard s a)] (as : List A)
    (p : S → Bool) (h : (M.runList M.init as).any p = true) :
    ∃ s, M.Reach s ∧ p s = true := by
  obtain ⟨s, hrun, hp⟩ := M.exists_run as p h
  exact ⟨s, Reach.init.run hrun, hp⟩

theorem exists_step {p : S → Bool} (hguard : M.guard s a) (h : (M.exec s a).any p = true) :
    ∃ s', M.Step s a s' ∧ p s' = true := by
  obtain ⟨s', hexec, hp⟩ := (Option.any_eq_true _ _).mp h
  exact ⟨s', ⟨hguard, hexec⟩, hp⟩

end Machine
