import Mathlib.Data.List.Basic
import Mathlib.Data.List.Infix

/-!
# Histories

A history is a list of events, newest first.  `Latest stops e h` says that `e` is in
it and that no event since then is one that stops it.
-/

namespace History

variable {α : Type}

/-- `e` happened, and nothing since then stops it. -/
def Latest (stops : α → Bool) (e : α) (h : List α) : Prop :=
  ∃ since before, h = since ++ e :: before ∧ ∀ x ∈ since, stops x = false

variable {stops : α → Bool} {e x : α} {h : List α}

theorem Latest.here : Latest stops e (e :: h) :=
  ⟨[], h, rfl, fun _ hx => absurd hx List.not_mem_nil⟩

theorem Latest.cons (hlatest : Latest stops e h) (hx : stops x = false) :
    Latest stops e (x :: h) := by
  obtain ⟨since, before, rfl, hsince⟩ := hlatest
  refine ⟨x :: since, before, rfl, fun y hy => ?_⟩
  rcases List.mem_cons.mp hy with rfl | hy
  · exact hx
  · exact hsince y hy

/-- What is not stopped by `x` happened after it. -/
theorem Latest.since {h₁ h₂ : List α} (hlatest : Latest stops e (h₁ ++ x :: h₂))
    (hx : stops x = true) (hne : e ≠ x) : Latest stops e h₁ := by
  obtain ⟨since, before, heq, hsince⟩ := hlatest
  rcases List.append_eq_append_iff.mp heq with ⟨mid, rfl, hmid⟩ | ⟨mid, rfl, hmid⟩
  · -- the event would be at `x` or before it
    cases mid with
    | nil =>
      cases hmid
      exact absurd rfl hne
    | cons y mid =>
      cases hmid
      have hfalse := hsince x (by simp)
      rw [hx] at hfalse
      cases hfalse
  · cases mid with
    | nil =>
      cases hmid
      exact absurd rfl hne
    | cons y mid =>
      cases hmid
      exact ⟨since, mid, rfl, hsince⟩

/-- A property of each event and its past, after one more event. -/
theorem forall_suffix_cons {P : α → List α → Prop}
    (hpast : ∀ e past, (e :: past) <:+ h → P e past) (hnew : P x h) :
    ∀ e past, (e :: past) <:+ (x :: h) → P e past := by
  intro e past hsuffix
  rcases List.suffix_cons_iff.mp hsuffix with heq | hsuffix
  · cases heq
    exact hnew
  · exact hpast e past hsuffix

end History
