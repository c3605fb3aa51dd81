import Mathlib.Data.List.GetD
import Mathlib.Data.List.Sort
import Mathlib.Order.Basic

/-!
# The last items of a sequence

A ring of slots that are overwritten in turn holds the last items of a sequence, as many
as it has slots.  `Holds` says so of a list of slots, of which the first `count` are
filled and `next` is overwritten next, and of the items so far, newest first.  Read from
`next` on the slots are the items in their order (`unroll`); read in the order of the
slots they are a permutation (`Holds.perm`), which is all that a statistic needs.

The median is such a statistic: it is the middle of any sorted permutation.  Its sign is
decided by how many of the items are negative.
-/

namespace SlidingWindow

variable {α : Type}

/-! ### The ring -/

/-- A ring read from slot `i` on. -/
def unroll (l : List α) (i : Nat) : List α := l.drop i ++ l.take i

theorem unroll_perm (l : List α) (i : Nat) : (unroll l i).Perm l := by
  have h : (l.drop i ++ l.take i).Perm (l.take i ++ l.drop i) := List.perm_append_comm
  rwa [List.take_append_drop] at h

/-- A ring read from its first slot on, or from behind its last. -/
theorem unroll_eq_self {l : List α} {i : Nat} (h : i = 0 ∨ i = l.length) : unroll l i = l := by
  rcases h with rfl | rfl <;> simp [unroll]

/-- The slots hold the last items of `past`. -/
structure Holds (slots : List α) (count next : Nat) (past : List α) : Prop where
  count_eq : count = min past.length slots.length
  next_lt : next < slots.length
  filling : count < slots.length → next = count
  items : unroll (slots.take count) next = (past.take slots.length).reverse

variable {slots : List α} {l s : List Int}

theorem Holds.empty (h : 0 < slots.length) : Holds slots 0 0 [] :=
  ⟨by simp, h, fun _ => rfl, by simp [unroll]⟩

/-- The filled slots are the last items in some order. -/
theorem Holds.perm {past : List α} {count next : Nat} (h : Holds slots count next past) :
    (slots.take count).Perm (past.take slots.length) := by
  have hperm := (unroll_perm (slots.take count) next).symm
  rw [h.items] at hperm
  exact hperm.trans (List.reverse_perm _)

theorem unroll_set {l : List α} {i : Nat} (hi : i < l.length) (x : α) :
    unroll (l.set i x) ((i + 1) % l.length) = (unroll l i).tail ++ [x] := by
  have hnext : unroll (l.set i x) (i + 1) = (unroll l i).tail ++ [x] := by
    have hdrop : (l.set i x).drop (i + 1) = l.drop (i + 1) := List.drop_set_of_lt (Nat.lt_succ_self i)
    have htake : (l.set i x).take (i + 1) = l.take i ++ [x] := by
      rw [List.take_succ_eq_append_getElem (by simpa using hi), List.getElem_set_self,
        List.take_set_of_le (Nat.le_refl i)]
    rw [unroll, unroll, hdrop, htake, List.drop_eq_getElem_cons hi, List.cons_append, List.tail_cons,
      List.append_assoc]
  by_cases hwrap : i + 1 = l.length
  · rw [hwrap, Nat.mod_self, unroll_eq_self (Or.inl rfl), ← hnext,
      unroll_eq_self (Or.inr (by simpa using hwrap))]
  · rw [Nat.mod_eq_of_lt (by omega), hnext]

theorem Holds.push {past : List α} {count next : Nat} (h : Holds slots count next past) (x : α) :
    Holds (slots.set next x) (if count < slots.length then count + 1 else count)
      ((next + 1) % slots.length) (x :: past) := by
  obtain ⟨hcount, hnext, hfilling, hitems⟩ := h
  by_cases hopen : count < slots.length
  · -- the items so far fill the slots before `next`
    obtain rfl := hfilling hopen
    have hlen : past.length = next := by omega
    have hall : past.take slots.length = past := List.take_of_length_le (by omega)
    rw [unroll_eq_self (Or.inr (by simp; omega)), hall] at hitems
    have htake : (slots.set next x).take (next + 1) = (x :: past).reverse := by
      rw [List.take_succ_eq_append_getElem (by simpa using hnext), List.getElem_set_self,
        List.take_set_of_le (Nat.le_refl next), hitems, List.reverse_cons]
    rw [if_pos hopen]
    refine ⟨by simp; omega, ?_, ?_, ?_⟩
    · rw [List.length_set]
      exact Nat.mod_lt _ (by omega)
    · rw [List.length_set]
      intro hlt
      exact Nat.mod_eq_of_lt hlt
    · rw [htake, List.length_set, List.take_of_length_le (by simp; omega)]
      apply unroll_eq_self
      rcases Nat.lt_or_ge (next + 1) slots.length with hlt | hge
      · right
        rw [Nat.mod_eq_of_lt hlt]
        simp [hlen]
      · left
        rw [show next + 1 = slots.length by omega, Nat.mod_self]
  · have hfull : count = slots.length := by omega
    subst hfull
    rw [List.take_length] at hitems
    rw [if_neg (Nat.lt_irrefl _)]
    refine ⟨by simp; omega, ?_, ?_, ?_⟩
    · rw [List.length_set]
      exact Nat.mod_lt _ (by omega)
    · rw [List.length_set]
      exact fun hlt => absurd hlt (Nat.lt_irrefl _)
    · have hnewest : (x :: past).take slots.length = x :: past.take (slots.length - 1) := by
        rw [← List.take_succ_cons, Nat.sub_add_cancel (by omega)]
      have holdest : (past.take slots.length).dropLast = past.take (slots.length - 1) := by
        rw [List.dropLast_eq_take, List.take_take, List.length_take]
        congr 1
        omega
      rw [List.length_set, List.take_of_length_le (by simp), unroll_set hnext, hitems,
        List.tail_reverse, holdest, hnewest, List.reverse_cons]

/-! ### The median -/

/-- The middle of a sorted list: of an even number of items the mean of the two in the
    middle, rounded towards zero. -/
def middle (s : List Int) : Int :=
  if s.length % 2 = 1 then s.getD (s.length / 2) 0
  else (s.getD (s.length / 2 - 1) 0 + s.getD (s.length / 2) 0).tdiv 2

def median (l : List Int) : Int := middle (l.insertionSort (· ≤ ·))

/-- The median is the middle of any sorted permutation. -/
theorem median_eq_middle (hperm : s.Perm l) (hsorted : s.Pairwise (· ≤ ·)) :
    median l = middle s := by
  have hsort : (l.insertionSort (· ≤ ·)).Perm s :=
    (List.perm_insertionSort _ l).trans hperm.symm
  rw [median, hsort.eq_of_pairwise' (List.pairwise_insertionSort _ l) hsorted]

/-! ### Its sign -/

/-- Less than half of the items are negative; or half of them are, and the largest of these
    is at most one further from zero than the smallest of the others. -/
def FewNegative (l : List Int) : Prop :=
  2 * l.countP (· < 0) < l.length ∨
    2 * l.countP (· < 0) = l.length ∧ ∃ x ∈ l, x < 0 ∧ ∀ y ∈ l, 0 ≤ y → -1 ≤ x + y

instance (l : List Int) : Decidable (FewNegative l) := inferInstanceAs (Decidable (_ ∨ _))

theorem FewNegative.perm (h : l.Perm s) : FewNegative l ↔ FewNegative s := by
  simp only [FewNegative, h.countP_eq, h.length_eq, h.mem_iff]

theorem getElem_neg_iff (h : s.Pairwise (· ≤ ·)) (i : Nat) (hi : i < s.length) :
    s[i] < 0 ↔ i < s.countP (· < 0) := by
  induction s generalizing i with
  | nil => cases hi
  | cons x xs ih =>
    obtain ⟨hx, hxs⟩ := List.pairwise_cons.mp h
    by_cases hneg : x < 0
    · rw [List.countP_cons_of_pos (by simpa using hneg)]
      cases i with
      | zero => simpa using hneg
      | succ i =>
        rw [List.getElem_cons_succ, ih hxs i (Nat.lt_of_succ_lt_succ hi)]
        omega
    · have hall : ∀ y ∈ x :: xs, ¬ y < 0 := by
        intro y hy
        rcases List.mem_cons.mp hy with rfl | hy
        · exact hneg
        · have := hx y hy
          omega
      have hnone : (x :: xs).countP (· < 0) = 0 :=
        List.countP_eq_zero.mpr fun y hy => by simpa using hall y hy
      rw [hnone]
      exact iff_of_false (hall _ (List.getElem_mem hi)) (Nat.not_lt_zero i)

theorem tdiv_two_nonneg_iff (a : Int) : 0 ≤ a.tdiv 2 ↔ -1 ≤ a := by
  rcases Int.le_total 0 a with h | h
  · exact iff_of_true (Int.tdiv_nonneg h (by decide)) (by omega)
  · have hdiv := Int.tdiv_eq_ediv_of_nonneg (b := 2) (Int.neg_nonneg.mpr h)
    rw [Int.neg_tdiv] at hdiv
    omega

/-- The sign of the middle, by the number of the negative items. -/
theorem middle_nonneg_iff (hsorted : s.Pairwise (· ≤ ·)) (hne : s ≠ []) :
    0 ≤ middle s ↔ FewNegative s := by
  have hpos := List.length_pos_iff.mpr hne
  have hsign := getElem_neg_iff hsorted
  have hmono : ∀ i j (hi : i < s.length) (hj : j < s.length), i ≤ j → s[i] ≤ s[j] := by
    intro i j hi hj hij
    rcases Nat.eq_or_lt_of_le hij with rfl | hlt
    · exact Int.le_refl _
    · exact List.pairwise_iff_getElem.mp hsorted i j hi hj hlt
  have hupper : s.length / 2 < s.length := by omega
  unfold middle FewNegative
  rw [List.getD_eq_getElem _ _ hupper]
  split
  · have := hsign _ hupper
    omega
  · have hlower : s.length / 2 - 1 < s.length := by omega
    rw [List.getD_eq_getElem _ _ hlower, tdiv_two_nonneg_iff]
    have hlow := hsign _ hlower
    have hhigh := hsign _ hupper
    by_cases hhalf : 2 * s.countP (· < 0) = s.length
    · -- the middle is between the last negative item and the first of the others
      refine ⟨fun hsum => .inr ⟨hhalf, s[s.length / 2 - 1], List.getElem_mem _, by omega, ?_⟩, ?_⟩
      · intro y hy hy0
        obtain ⟨j, hj, rfl⟩ := List.getElem_of_mem hy
        have hge := hsign j hj
        have := hmono _ j hupper hj (by omega)
        omega
      · rintro (hless | ⟨-, x, hx, hneg, hothers⟩)
        · omega
        · obtain ⟨i, hi, rfl⟩ := List.getElem_of_mem hx
          have hlt := hsign i hi
          have := hmono i _ hi hlower (by omega)
          have := hothers _ (List.getElem_mem hupper) (by omega)
          omega
    · have : ¬ (2 * s.countP (· < 0) = s.length ∧
          ∃ x ∈ s, x < 0 ∧ ∀ y ∈ s, 0 ≤ y → -1 ≤ x + y) := fun h => hhalf h.1
      omega

theorem median_nonneg_iff (hne : l ≠ []) : 0 ≤ median l ↔ FewNegative l := by
  have hperm := List.perm_insertionSort (· ≤ ·) l
  rw [median, middle_nonneg_iff (List.pairwise_insertionSort _ l), FewNegative.perm hperm]
  intro hnil
  exact hne (List.nil_perm.mp (hnil ▸ hperm))
end SlidingWindow
