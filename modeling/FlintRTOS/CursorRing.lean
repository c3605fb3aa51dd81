import Mathlib.Data.List.Nodup
import Mathlib.Data.List.TakeWhile

/-!
# Cursor rings

A ring is a finite sequence without repetition that closes through one sentinel,
together with a walk cursor that rests on an element or on the sentinel.  It is
the sequence view of a circular doubly linked list: `items` is the forward
traversal from the sentinel, `index` the cursor, and `none` the sentinel itself.

Both well-formedness facts, that no element occurs twice and that the cursor
rests on an element of the ring, are fields of the structure, so every operation
below carries its own proof that it keeps them.
-/

namespace CursorRing

/-- A sequence without repetition and a cursor; `index = none` is the sentinel. -/
structure RingList (α : Type) where
  items : List α
  index : Option α
  nodup : items.Nodup
  index_mem : ∀ x, index = some x → x ∈ items

variable {α : Type}

/-- The ring that holds no element, its cursor on the sentinel. -/
def RingList.empty : RingList α := ⟨[], none, List.nodup_nil, by simp⟩

@[simp] theorem RingList.items_empty : (RingList.empty : RingList α).items = [] := rfl

/-- A ring without elements has its cursor on the sentinel. -/
theorem RingList.eq_empty {r : RingList α} (h : r.items = []) : r = RingList.empty := by
  obtain ⟨items, index, nodup, index_mem⟩ := r
  cases h
  cases index with
  | none => rfl
  | some x => exact absurd (index_mem x rfl) (by simp)

/-! ### Insertion

Every insertion walks from the sentinel while a test holds and links the new
element where the walk stops; only the test differs. -/

/-- The sequence with `x` linked after the longest prefix that satisfies `p`. -/
def insertAfter (p : α → Bool) (x : α) (items : List α) : List α :=
  items.takeWhile p ++ x :: items.dropWhile p

variable {p : α → Bool} {items pre post : List α} {R : α → α → Prop}

@[simp] theorem mem_insertAfter {x y : α} : y ∈ insertAfter p x items ↔ y = x ∨ y ∈ items := by
  have hsplit : y ∈ items ↔ y ∈ items.takeWhile p ∨ y ∈ items.dropWhile p := by
    rw [← List.mem_append, List.takeWhile_append_dropWhile]
  rw [insertAfter, List.mem_append, List.mem_cons, hsplit]
  tauto

theorem insertAfter_perm (p : α → Bool) (x : α) (items : List α) :
    (insertAfter p x items).Perm (x :: items) := by
  unfold insertAfter
  refine List.perm_middle.trans ?_
  rw [List.takeWhile_append_dropWhile]

theorem nodup_insertAfter {x : α} (hnodup : items.Nodup) (hx : x ∉ items) :
    (insertAfter p x items).Nodup :=
  (insertAfter_perm p x items).nodup_iff.mpr (List.nodup_cons.mpr ⟨hx, hnodup⟩)

/-- In a sequence that `R` orders, the walk stops before all that fail a test which
    `R` inherits downwards. -/
theorem test_of_mem_dropWhile (hsorted : items.Pairwise R)
    (hclosed : ∀ y ∈ items, ∀ z ∈ items, R y z → p z = true → p y = true) :
    ∀ z ∈ items.dropWhile p, p z = false := by
  induction items with
  | nil => simp
  | cons y items ih =>
    obtain ⟨hy, htail⟩ := List.pairwise_cons.mp hsorted
    intro z hz
    cases hpy : p y with
    | true =>
      rw [List.dropWhile_cons_of_pos hpy] at hz
      apply ih htail _ z hz
      intro v hv w hw
      exact hclosed v (List.mem_cons_of_mem _ hv) w (List.mem_cons_of_mem _ hw)
    | false =>
      rw [List.dropWhile_cons_of_neg (Bool.eq_false_iff.mp hpy)] at hz
      rcases List.mem_cons.mp hz with rfl | hz'
      · exact hpy
      · cases hpz : p z with
        | false => rfl
        | true =>
          have hpy' := hclosed y List.mem_cons_self z hz (hy z hz') hpz
          rw [hpy] at hpy'
          cases hpy'

/-- Linking keeps a sequence in the order `R` when the walk steps over the
    elements that `R` puts before the new one and stops at those it puts behind. -/
theorem pairwise_insertAfter {x : α} (hsorted : items.Pairwise R)
    (hbefore : ∀ y ∈ items, p y = true → R y x) (hbehind : ∀ y ∈ items, p y = false → R x y)
    (hclosed : ∀ y ∈ items, ∀ z ∈ items, R y z → p z = true → p y = true) :
    (insertAfter p x items).Pairwise R := by
  have hfront : ∀ y ∈ items.takeWhile p, R y x := by
    intro y hy
    exact hbefore y ((List.takeWhile_prefix p).subset hy) (List.mem_takeWhile_imp hy)
  have hback : ∀ z ∈ items.dropWhile p, R x z := by
    intro z hz
    exact hbehind z ((List.dropWhile_suffix p).subset hz) (test_of_mem_dropWhile hsorted hclosed z hz)
  have hparts := hsorted
  rw [← List.takeWhile_append_dropWhile (p := p) (l := items), List.pairwise_append] at hparts
  obtain ⟨htake, hdrop, hacross⟩ := hparts
  rw [insertAfter, List.pairwise_append, List.pairwise_cons]
  refine ⟨htake, ⟨hback, hdrop⟩, ?_⟩
  intro y hy z hz
  rcases List.mem_cons.mp hz with rfl | hz
  · exact hfront y hy
  · exact hacross y hy z hz

/-- Link `x` after the longest prefix that satisfies `p`; the cursor stays. -/
def RingList.insertAfter (r : RingList α) (p : α → Bool) (x : α) (hx : x ∉ r.items) : RingList α where
  items := CursorRing.insertAfter p x r.items
  index := r.index
  nodup := nodup_insertAfter r.nodup hx
  index_mem := fun y hy => mem_insertAfter.mpr (Or.inr (r.index_mem y hy))

variable [DecidableEq α]

/-! ### Removal -/

/-- The element before `x`, the sentinel when `x` comes first. -/
def pred (x : α) (items : List α) : Option α :=
  (items.takeWhile fun y => decide (y ≠ x)).getLast?

theorem pred_mem {x y : α} (h : pred x items = some y) : y ∈ items ∧ y ≠ x := by
  have hmem : y ∈ items.takeWhile fun z => decide (z ≠ x) := List.mem_of_getLast? h
  have hne := List.mem_takeWhile_imp hmem
  exact ⟨(List.takeWhile_prefix _).subset hmem, of_decide_eq_true hne⟩

/-- Unlink `x`; a cursor that rested on it steps back. -/
def RingList.remove (r : RingList α) (x : α) : RingList α where
  items := r.items.erase x
  index := if r.index = some x then pred x r.items else r.index
  nodup := r.nodup.erase x
  index_mem := by
    intro y hy
    split at hy
    · obtain ⟨hmem, hne⟩ := pred_mem hy
      exact (List.mem_erase_of_ne hne).mpr hmem
    · rename_i hindex
      have hne : y ≠ x := by
        intro heq
        exact hindex (heq ▸ hy)
      exact (List.mem_erase_of_ne hne).mpr (r.index_mem y hy)

@[simp] theorem RingList.mem_remove {r : RingList α} {x y : α} :
    y ∈ (r.remove x).items ↔ y ≠ x ∧ y ∈ r.items :=
  r.nodup.mem_erase_iff

theorem RingList.pairwise_remove {r : RingList α} {x : α} (h : r.items.Pairwise R) :
    (r.remove x).items.Pairwise R :=
  h.sublist List.erase_sublist

/-! ### The round-robin walk -/

/-- The node after the cursor position `i`; from the sentinel it is the head. -/
def succ (items : List α) : Option α → Option α
  | none => items.head?
  | some x => (items.dropWhile fun y => decide (y ≠ x)).tail.head?

/-- One round-robin step: the next node, stepping over the sentinel once. -/
def next (items : List α) (index : Option α) : Option α :=
  match succ items index with
  | none => succ items none
  | some x => some x

theorem succ_mem {i : Option α} {x : α} (h : succ items i = some x) : x ∈ items := by
  cases i with
  | none => exact List.mem_of_mem_head? h
  | some y =>
    have htail : x ∈ (items.dropWhile fun z => decide (z ≠ y)).tail :=
      List.mem_of_mem_head? h
    exact (List.dropWhile_suffix _).subset (List.mem_of_mem_tail htail)

theorem next_mem {i : Option α} {x : α} (h : next items i = some x) : x ∈ items := by
  unfold next at h
  split at h
  · exact succ_mem h
  · rename_i y hy
    cases h
    exact succ_mem hy

@[simp] theorem next_nil (i : Option α) : next [] i = none := by
  cases i <;> rfl

/-- On a non-empty ring the walk always lands on an element. -/
theorem exists_next (h : items ≠ []) (i : Option α) : ∃ x ∈ items, next items i = some x := by
  have hsome : ∃ x, next items i = some x := by
    unfold next
    split
    · exact ⟨items.head h, List.head?_eq_some_head h⟩
    · exact ⟨_, rfl⟩
  obtain ⟨x, hx⟩ := hsome
  exact ⟨x, next_mem hx, hx⟩

/-- Move the cursor one round-robin step. -/
def RingList.advance (r : RingList α) : RingList α where
  items := r.items
  index := next r.items r.index
  nodup := r.nodup
  index_mem := fun _ hx => next_mem hx

@[simp] theorem RingList.items_advance (r : RingList α) : r.advance.items = r.items := rfl

/-! ### The order of selection

`orbit` lists the elements in the order in which the walk will reach them: those
behind the cursor, then those before it, the cursor's own element last.  On this
sequence the walk is a rotation and removal an erasure. -/

def RingList.orbit (r : RingList α) : List α :=
  match r.index with
  | none => r.items
  | some x => (r.items.dropWhile fun y => decide (y ≠ x)).tail ++
      (r.items.takeWhile fun y => decide (y ≠ x)) ++ [x]

theorem takeWhile_ne_append {x : α} (hx : x ∉ pre) :
    (pre ++ x :: post).takeWhile (fun y => decide (y ≠ x)) = pre := by
  rw [List.takeWhile_append_of_pos]
  · simp
  · intro y hy
    have hne : y ≠ x := by
      rintro rfl
      exact hx hy
    exact decide_eq_true hne

theorem dropWhile_ne_append {x : α} (hx : x ∉ pre) :
    (pre ++ x :: post).dropWhile (fun y => decide (y ≠ x)) = x :: post := by
  rw [List.dropWhile_append_of_pos]
  · simp
  · intro y hy
    have hne : y ≠ x := by
      rintro rfl
      exact hx hy
    exact decide_eq_true hne

theorem succ_append {x : α} (hx : x ∉ pre) : succ (pre ++ x :: post) (some x) = post.head? := by
  rw [succ, dropWhile_ne_append hx, List.tail_cons]

omit [DecidableEq α] in
theorem RingList.exists_cut_of_mem {r : RingList α} {x : α} (hmem : x ∈ r.items) :
    ∃ pre post, r.items = pre ++ x :: post ∧ x ∉ pre ∧ x ∉ post := by
  obtain ⟨pre, post, hitems⟩ := List.append_of_mem hmem
  have hnodup := r.nodup
  rw [hitems, List.nodup_middle, List.nodup_cons, List.mem_append, not_or] at hnodup
  exact ⟨pre, post, hitems, hnodup.1⟩

omit [DecidableEq α] in
theorem RingList.exists_cut {r : RingList α} {x : α} (hindex : r.index = some x) :
    ∃ pre post, r.items = pre ++ x :: post ∧ x ∉ pre ∧ x ∉ post :=
  exists_cut_of_mem (r.index_mem x hindex)

/-- What follows the elements before the cursor is the cursor. -/
theorem RingList.head?_dropWhile_index (r : RingList α) :
    (r.items.dropWhile fun y => decide (some y ≠ r.index)).head? = r.index := by
  cases hindex : r.index with
  | none => simp
  | some x =>
    obtain ⟨pre, post, hitems, hx, -⟩ := r.exists_cut hindex
    have htest : (fun y => decide (some y ≠ some x)) = fun y => decide (y ≠ x) := by
      simp
    rw [htest, hitems, dropWhile_ne_append hx, List.head?_cons]

theorem RingList.orbit_of_none {r : RingList α} (hindex : r.index = none) :
    r.orbit = r.items := by
  simp [orbit, hindex]

theorem RingList.orbit_of_cut {r : RingList α} {x : α} (hindex : r.index = some x)
    (hitems : r.items = pre ++ x :: post) (hx : x ∉ pre) : r.orbit = post ++ pre ++ [x] := by
  simp only [orbit, hindex, hitems, takeWhile_ne_append hx, dropWhile_ne_append hx,
    List.tail_cons]

theorem RingList.orbit_perm (r : RingList α) : r.orbit.Perm r.items := by
  cases hindex : r.index with
  | none => rw [orbit_of_none hindex]
  | some x =>
    obtain ⟨pre, post, hitems, hx, -⟩ := r.exists_cut hindex
    rw [orbit_of_cut hindex hitems hx, hitems, List.append_assoc]
    exact List.perm_append_comm.trans (by simp)

theorem RingList.nodup_orbit (r : RingList α) : r.orbit.Nodup :=
  r.orbit_perm.nodup_iff.mpr r.nodup

/-- The walk selects the head of the orbit and puts it last. -/
theorem RingList.orbit_advance {r : RingList α} {y : α} {rest : List α}
    (horbit : r.orbit = y :: rest) :
    r.advance.index = some y ∧ r.advance.orbit = rest ++ [y] := by
  cases hindex : r.index with
  | none =>
    rw [orbit_of_none hindex] at horbit
    have hnext : r.advance.index = some y := by
      simp [advance, next, succ, hindex, horbit]
    have hcut : r.advance.items = [] ++ y :: rest := horbit
    refine ⟨hnext, ?_⟩
    rw [orbit_of_cut hnext hcut (by simp), List.append_nil]
  | some x =>
    obtain ⟨pre, post, hitems, hx, hx'⟩ := r.exists_cut hindex
    rw [orbit_of_cut hindex hitems hx] at horbit
    cases post with
    | cons z post =>
      -- the cursor steps forward
      cases horbit
      have hnext : r.advance.index = some y := by
        simp only [advance, next, hindex, hitems, succ_append hx, List.head?_cons]
      have hy : y ∉ pre ++ [x] := by
        have hnodup := r.nodup
        rw [hitems] at hnodup
        intro hmem
        have hsplit : ((pre ++ [x]) ++ y :: post).Nodup := by simpa using hnodup
        exact List.disjoint_of_nodup_append hsplit hmem List.mem_cons_self
      have hcut : r.advance.items = (pre ++ [x]) ++ y :: post := by simp [hitems]
      refine ⟨hnext, ?_⟩
      rw [orbit_of_cut hnext hcut hy]
      simp
    | nil =>
      -- the cursor was on the last element and steps over the sentinel
      have hhead : r.items = y :: rest := by simpa [hitems] using horbit
      have hnext : r.advance.index = some y := by
        have hend : succ r.items (some x) = none := by
          rw [hitems, succ_append hx, List.head?_nil]
        have hstart : succ r.items none = some y := by
          rw [hhead, succ, List.head?_cons]
        simp only [advance, next, hindex, hend, hstart]
      have hcut : r.advance.items = [] ++ y :: rest := hhead
      refine ⟨hnext, ?_⟩
      rw [orbit_of_cut hnext hcut (by simp), List.append_nil]

/-- Removal takes the element out of the orbit; where the cursor rested does not
    matter. -/
theorem RingList.orbit_remove (r : RingList α) (y : α) : (r.remove y).orbit = r.orbit.erase y := by
  cases hindex : r.index with
  | none =>
    have hindex' : (r.remove y).index = none := by simp [remove, hindex]
    rw [orbit_of_none hindex, orbit_of_none hindex']
    rfl
  | some x =>
    obtain ⟨pre, post, hitems, hx, hx'⟩ := r.exists_cut hindex
    rw [orbit_of_cut hindex hitems hx]
    by_cases hy : y = x
    · -- the cursor steps back to the end of `pre`
      subst hy
      have hitems' : (r.remove y).items = pre ++ post := by
        simp [remove, hitems, List.erase_append_right _ hx]
      have hindex' : (r.remove y).index = pre.getLast? := by
        simp only [remove, hindex, if_true, pred, hitems, takeWhile_ne_append hx]
      have herase : (post ++ pre ++ [y]).erase y = post ++ pre := by
        rw [List.erase_append_right _ (by simp [hx, hx'])]
        simp
      rw [herase]
      rcases pre.eq_nil_or_concat with rfl | ⟨pre', w, rfl⟩
      · rw [orbit_of_none hindex', hitems']
        simp
      · have hw : w ∉ pre' := by
          have hnodup := r.nodup
          rw [hitems, List.concat_eq_append, List.append_assoc] at hnodup
          intro hmem
          exact List.disjoint_of_nodup_append hnodup hmem (by simp)
        have hcut : (r.remove y).items = pre' ++ w :: post := by simpa using hitems'
        rw [orbit_of_cut (by simpa using hindex') hcut hw]
        simp
    · have hindex' : (r.remove y).index = some x := by
        have hne : ¬ some x = some y := fun heq => hy (Option.some.inj heq).symm
        simp only [remove, hindex, if_neg hne]
      have hxy : x ≠ y := Ne.symm hy
      by_cases hpre : y ∈ pre
      · have hnodup := r.nodup
        have hpost : y ∉ post := by
          rw [hitems] at hnodup
          intro hmem
          exact List.disjoint_of_nodup_append hnodup hpre (List.mem_cons_of_mem _ hmem)
        have hitems' : (r.remove y).items = pre.erase y ++ x :: post := by
          simp [remove, hitems, List.erase_append_left _ hpre]
        rw [orbit_of_cut hindex' hitems' (fun hmem => hx (List.mem_of_mem_erase hmem)),
          List.append_assoc, List.append_assoc, List.erase_append_right _ hpost,
          List.erase_append_left _ hpre]
      · have hitems' : (r.remove y).items = pre ++ x :: post.erase y := by
          simp only [remove, hitems, List.erase_append_right _ hpre]
          rw [List.erase_cons_tail (by simpa using hxy)]
        rw [orbit_of_cut hindex' hitems' hx]
        by_cases hpost : y ∈ post
        · rw [List.append_assoc, List.append_assoc, List.erase_append_left _ hpost]
        · rw [List.erase_of_not_mem hpost, List.erase_of_not_mem]
          simp [hpre, hpost, hy]

/-- An element linked while the cursor rests on the sentinel comes last. -/
theorem RingList.orbit_insertAfter_none {r : RingList α} {y : α} (hy : y ∉ r.items)
    (hindex : r.index = none) :
    (r.insertAfter (fun z => decide (some z ≠ r.index)) y hy).orbit = r.orbit ++ [y] := by
  have hall : ∀ z ∈ r.items, decide (some z ≠ r.index) = true := by
    simp [hindex]
  have hitems : (r.insertAfter (fun z => decide (some z ≠ r.index)) y hy).items =
      r.items ++ [y] := by
    simp only [insertAfter, CursorRing.insertAfter, List.takeWhile_eq_self_iff.mpr hall,
      List.dropWhile_eq_nil_iff.mpr hall]
  have hindex' : (r.insertAfter (fun z => decide (some z ≠ r.index)) y hy).index = none := hindex
  rw [orbit_of_none hindex', orbit_of_none hindex, hitems]

/-- An element linked just before the cursor comes last but for the cursor's own. -/
theorem RingList.orbit_insertAfter_some {r : RingList α} {x y : α} (hy : y ∉ r.items)
    (hindex : r.index = some x) :
    ∃ front, r.orbit = front ++ [x] ∧
      (r.insertAfter (fun z => decide (some z ≠ r.index)) y hy).orbit = front ++ [y, x] := by
  obtain ⟨pre, post, hitems, hx, -⟩ := r.exists_cut hindex
  have htest : (fun z => decide (some z ≠ r.index)) = fun z => decide (z ≠ x) := by
    simp [hindex]
  have hitems' : (r.insertAfter (fun z => decide (some z ≠ r.index)) y hy).items =
      (pre ++ [y]) ++ x :: post := by
    simp only [insertAfter, CursorRing.insertAfter, htest, hitems, takeWhile_ne_append hx,
      dropWhile_ne_append hx]
    simp
  have hne : x ≠ y := by
    rintro rfl
    exact hy (r.index_mem x hindex)
  have hindex' : (r.insertAfter (fun z => decide (some z ≠ r.index)) y hy).index = some x := hindex
  refine ⟨post ++ pre, orbit_of_cut hindex hitems hx, ?_⟩
  rw [orbit_of_cut hindex' hitems' (by simp [hx, hne])]
  simp

/-- Linking an element does not change the order of the others. -/
theorem RingList.orbit_sublist_insertAfter {r : RingList α} {y : α} (hy : y ∉ r.items) :
    r.orbit.Sublist
      (r.insertAfter (fun z => decide (some z ≠ r.index)) y hy).orbit := by
  cases hindex : r.index with
  | none =>
    simp only [← hindex]
    rw [orbit_insertAfter_none hy hindex]
    exact List.sublist_append_left _ _
  | some x =>
    obtain ⟨front, horbit, horbit'⟩ := orbit_insertAfter_some hy hindex
    simp only [← hindex]
    rw [horbit, horbit']
    exact List.Sublist.append_left (List.sublist_append_right [y] [x]) _

/-! ### Fairness -/

/-- One operation on a ring, with the element it selects. -/
inductive RingList.Step (r : RingList α) : Option α → RingList α → Prop where
  | keep : Step r none r
  | insert (y : α) (hy : y ∉ r.items) :
      Step r none (r.insertAfter (fun z => decide (some z ≠ r.index)) y hy)
  | remove (y : α) : Step r none (r.remove y)
  | select : Step r r.advance.index r.advance

/-- The walk reaches `y` before it reaches `x`. -/
def RingList.Ahead (r : RingList α) (y x : α) : Prop := [y, x].Sublist r.orbit

section Ahead

variable {r r' : RingList α} {x y : α}

/-- Where `y` is ahead of `x`, the walk does not select `x`. -/
theorem RingList.Ahead.advance_ne (h : r.Ahead y x) (hne : x ≠ y) : r.advance.index ≠ some x := by
  intro hindex
  unfold Ahead at h
  have hnodup := r.nodup_orbit
  cases horbit : r.orbit with
  | nil =>
    rw [horbit] at h
    cases h
  | cons z rest =>
    have hz : z = x := Option.some.inj ((orbit_advance horbit).1.symm.trans hindex)
    rw [horbit, hz] at h hnodup
    have hmem : x ∈ rest := by
      cases h with
      | cons _ h => exact h.subset (by simp)
      | cons_cons _ h => exact absurd rfl hne
    exact (List.nodup_cons.mp hnodup).1 hmem

/-- Once `x` is selected every other element is ahead of it. -/
theorem RingList.ahead_advance (hindex : r.advance.index = some x) (hy : y ∈ r.items)
    (hne : x ≠ y) : r.advance.Ahead y x := by
  have hmem : y ∈ r.orbit := r.orbit_perm.mem_iff.mpr hy
  cases horbit : r.orbit with
  | nil =>
    rw [horbit] at hmem
    cases hmem
  | cons z rest =>
    obtain ⟨hnext, horbit'⟩ := orbit_advance horbit
    have hz : z = x := Option.some.inj (hnext.symm.trans hindex)
    rw [horbit, hz, List.mem_cons] at hmem
    have hrest : y ∈ rest := hmem.resolve_left (Ne.symm hne)
    rw [Ahead, horbit', hz]
    exact (List.singleton_sublist.mpr hrest).append (List.Sublist.refl [x])

/-- An operation that neither selects `y` nor takes one of the two out of the ring
    keeps `y` ahead of `x`. -/
theorem RingList.Ahead.step {sel : Option α} (h : r.Ahead y x) (hstep : r.Step sel r')
    (hsel : sel ≠ some y) (hx : x ∈ r'.items) (hy : y ∈ r'.items) : r'.Ahead y x := by
  unfold Ahead at h ⊢
  cases hstep with
  | keep => exact h
  | insert z hz => exact h.trans (orbit_sublist_insertAfter hz)
  | remove z =>
    have hkeep : [y, x].erase z = [y, x] := by
      refine List.erase_of_not_mem ?_
      simp only [List.mem_cons, List.not_mem_nil, or_false, not_or]
      exact ⟨fun heq => (mem_remove.mp hy).1 heq.symm, fun heq => (mem_remove.mp hx).1 heq.symm⟩
    rw [orbit_remove, ← hkeep]
    exact h.erase z
  | select =>
    cases horbit : r.orbit with
    | nil =>
      rw [horbit] at h
      cases h
    | cons z rest =>
      obtain ⟨hnext, horbit'⟩ := orbit_advance horbit
      rw [horbit] at h
      rw [horbit']
      cases h with
      | cons _ h => exact h.trans (List.sublist_append_left _ _)
      | cons_cons _ h => exact absurd hnext hsel

end Ahead

/-- What `n` steps of the walk select. -/
def RingList.selections (r : RingList α) : Nat → List (Option α)
  | 0 => []
  | n + 1 => r.advance.index :: r.advance.selections n

theorem RingList.selections_of_orbit :
    ∀ {r : RingList α}, r.orbit = pre ++ post → r.selections pre.length = pre.map some := by
  induction pre generalizing post with
  | nil =>
    intro r _
    rfl
  | cons z pre ih =>
    intro r horbit
    obtain ⟨hnext, horbit'⟩ := orbit_advance horbit
    have hsplit : r.advance.orbit = pre ++ (post ++ [z]) := by simpa using horbit'
    have hrest := ih hsplit
    simp only [List.length_cons, selections, List.map_cons, hnext, hrest]

/-- One round selects every element once. -/
theorem RingList.selections_perm (r : RingList α) :
    (r.selections r.items.length).Perm (r.items.map some) := by
  have hround : r.selections r.orbit.length = r.orbit.map some :=
    selections_of_orbit (List.append_nil _).symm
  rw [← r.orbit_perm.length_eq, hround]
  exact r.orbit_perm.map some

end CursorRing
