import FlintRTOS.CursorRing

/-!
# Waiting on a cursor ring

How many steps of the walk an element waits for its turn while others are linked and unlinked
around it.  An element linked at the cursor comes behind everything that waits, except where
the cursor rests on the waiting element itself.  That happens when an element after it is
unlinked under the cursor, and there are only so many of those before the walk comes round:
every other element has its turn at most twice.
-/

namespace CursorRing

variable {α : Type} [DecidableEq α]

/-- What the walk meets before it comes round. -/
def RingList.rest (r : RingList α) : List α :=
  match r.index with
  | none => r.items
  | some x => (r.items.dropWhile fun y => decide (y ≠ x)).tail

/-- A bound on the steps until the walk reaches `x`, with at most `m` other elements. -/
def RingList.wait (m : Nat) (r : RingList α) (x : α) : Nat :=
  if x ∈ r.rest then (r.rest.takeWhile fun y => decide (y ≠ x)).length + 1
  else r.rest.length + m + 1

section rest

variable {r : RingList α} {x y : α}

theorem RingList.rest_of_none (hindex : r.index = none) : r.rest = r.items := by
  simp only [rest, hindex]

theorem RingList.rest_of_cut {pre post : List α} (hindex : r.index = some x)
    (hitems : r.items = pre ++ x :: post) (hx : x ∉ pre) : r.rest = post := by
  simp only [rest, hindex, hitems, dropWhile_ne_append hx, List.tail_cons]

theorem RingList.rest_sublist (r : RingList α) : r.rest.Sublist r.items := by
  unfold rest
  split
  · exact List.Sublist.refl _
  · exact (List.tail_sublist _).trans (List.dropWhile_sublist _)

/-- An element linked at the cursor is not met before the walk comes round, unless the cursor
    rests on the sentinel. -/
theorem RingList.rest_insertAfter (hy : y ∉ r.items) :
    (r.insertAfter (fun z => decide (some z ≠ r.index)) y hy).rest =
      if r.index = none then r.rest ++ [y] else r.rest := by
  cases hindex : r.index with
  | none =>
    have hall : ∀ z ∈ r.items, decide (some z ≠ (none : Option α)) = true := fun _ _ => rfl
    rw [if_pos rfl, rest_of_none hindex, rest_of_none (by exact hindex)]
    change CursorRing.insertAfter _ y r.items = _
    rw [CursorRing.insertAfter, List.takeWhile_eq_self_iff.mpr hall,
      List.dropWhile_eq_nil_iff.mpr hall]
  | some x =>
    obtain ⟨pre, post, hitems, hx, -⟩ := r.exists_cut hindex
    have htest : (fun z => decide (some z ≠ some x)) = fun z => decide (z ≠ x) := by simp
    have hitems' : CursorRing.insertAfter (fun z => decide (some z ≠ some x)) y r.items =
        (pre ++ [y]) ++ x :: post := by
      rw [htest, CursorRing.insertAfter, hitems, takeWhile_ne_append hx, dropWhile_ne_append hx]
      simp
    have hx' : x ∉ pre ++ [y] := by
      rw [List.mem_append, List.mem_singleton, not_or]
      refine ⟨hx, ?_⟩
      rintro rfl
      exact hy (r.index_mem x hindex)
    rw [if_neg (by simp), rest_of_cut hindex hitems hx]
    exact rest_of_cut hindex hitems' hx'

theorem RingList.rest_remove (r : RingList α) (y : α) : (r.remove y).rest = r.rest.erase y := by
  cases hindex : r.index with
  | none =>
    have hindex' : (r.remove y).index = none := by simp [remove, hindex]
    rw [rest_of_none hindex, rest_of_none hindex']
    rfl
  | some x =>
    obtain ⟨pre, post, hitems, hx, hx'⟩ := r.exists_cut hindex
    rw [rest_of_cut hindex hitems hx]
    by_cases hxy : x = y
    · -- the cursor steps back, and meets the same elements from there
      subst hxy
      have hremoved : (r.remove x).items = pre ++ post := by
        change r.items.erase x = pre ++ post
        rw [hitems, List.erase_append_right _ hx, List.erase_cons_head]
      have hback : (r.remove x).index = pre.getLast? := by
        change (if r.index = some x then pred x r.items else r.index) = _
        rw [if_pos hindex, pred, hitems, takeWhile_ne_append hx]
      rw [List.erase_of_not_mem hx']
      rcases List.eq_nil_or_concat' pre with rfl | ⟨pre', z, rfl⟩
      · rw [rest_of_none hback, hremoved, List.nil_append]
      · rw [List.getLast?_concat] at hback
        have hz : z ∉ pre' := by
          have hnodup := r.nodup
          rw [hitems] at hnodup
          have hpre := hnodup.of_append_left
          rw [List.nodup_append] at hpre
          exact fun hmem => hpre.2.2 z hmem z (by simp) rfl
        refine rest_of_cut hback ?_ hz
        rw [hremoved, List.append_assoc, List.singleton_append]
    · have hindex' : (r.remove y).index = some x := by
        change (if r.index = some y then pred y r.items else r.index) = _
        rw [hindex, if_neg fun heq => hxy (Option.some.inj heq)]
      have hremoved : (r.remove y).items = pre.erase y ++ x :: post.erase y := by
        change r.items.erase y = _
        have hnodup := r.nodup
        rw [hitems] at hnodup ⊢
        by_cases hpre : y ∈ pre
        · have hpost : y ∉ post := fun hmem =>
            (List.nodup_append.mp hnodup).2.2 y hpre y (List.mem_cons_of_mem x hmem) rfl
          rw [List.erase_append_left _ hpre, List.erase_of_not_mem hpost]
        · rw [List.erase_append_right _ hpre, List.erase_of_not_mem hpre,
            List.erase_cons_tail (by simpa using hxy)]
      exact rest_of_cut hindex' hremoved fun hmem => hx (List.mem_of_mem_erase hmem)

theorem RingList.rest_advance_of_cons {zs : List α} (hrest : r.rest = y :: zs) :
    r.advance.index = some y ∧ r.advance.rest = zs := by
  cases hindex : r.index with
  | none =>
    rw [rest_of_none hindex] at hrest
    have hnext : r.advance.index = some y := by simp [advance, next, succ, hindex, hrest]
    have hcut : r.advance.items = [] ++ y :: zs := hrest
    exact ⟨hnext, rest_of_cut hnext hcut List.not_mem_nil⟩
  | some x =>
    obtain ⟨pre, post, hitems, hx, -⟩ := r.exists_cut hindex
    rw [rest_of_cut hindex hitems hx] at hrest
    subst hrest
    have hnext : r.advance.index = some y := by
      simp [advance, next, hindex, hitems, succ_append hx]
    have hnodup := r.nodup
    have hsplit : r.items = (pre ++ [x]) ++ y :: zs := by rw [hitems]; simp
    rw [hsplit] at hnodup
    have hy : y ∉ pre ++ [x] := fun hmem =>
      (List.nodup_append.mp hnodup).2.2 y hmem y List.mem_cons_self rfl
    exact ⟨hnext, rest_of_cut hnext hsplit hy⟩

theorem RingList.rest_advance_of_nil {zs : List α} (hrest : r.rest = [])
    (hitems : r.items = y :: zs) : r.advance.index = some y ∧ r.advance.rest = zs := by
  have hnext : r.advance.index = some y := by
    cases hindex : r.index with
    | none =>
      rw [rest_of_none hindex, hitems] at hrest
      cases hrest
    | some x =>
      obtain ⟨pre, post, hcut, hx, -⟩ := r.exists_cut hindex
      rw [rest_of_cut hindex hcut hx] at hrest
      subst hrest
      have hlast : succ r.items (some x) = none := by rw [hcut, succ_append hx]; rfl
      change next r.items r.index = some y
      rw [hindex, next, hlast]
      change r.items.head? = some y
      rw [hitems, List.head?_cons]
  have hcut : r.advance.items = [] ++ y :: zs := hitems
  exact ⟨hnext, rest_of_cut hnext hcut List.not_mem_nil⟩

end rest

/-! ### The bound along operations -/

section wait

variable {r r' : RingList α} {x y : α} {m : Nat}

theorem takeWhile_ne_cons {z : α} (hne : z ≠ x) (l : List α) :
    ((z :: l).takeWhile fun y => decide (y ≠ x)) = z :: l.takeWhile fun y => decide (y ≠ x) := by
  simp [hne]

theorem takeWhile_ne_lt {l : List α} (hx : x ∈ l) :
    (l.takeWhile fun y => decide (y ≠ x)).length < l.length := by
  obtain ⟨pre, post, rfl, hpre⟩ := List.eq_append_cons_of_mem hx
  rw [takeWhile_ne_append hpre, List.length_append, List.length_cons]
  omega

theorem RingList.wait_pos (m : Nat) (r : RingList α) (x : α) : 0 < r.wait m x := by
  unfold wait
  split <;> omega

/-- At most two turns for each of the others. -/
theorem RingList.wait_le (hx : x ∈ r.items) (hsize : r.items.length ≤ m + 1) :
    r.wait m x ≤ 2 * m + 1 := by
  have hrest := r.rest_sublist.length_le
  unfold wait
  split
  · next hmem =>
    have hlt := takeWhile_ne_lt hmem
    omega
  · next hmem =>
    -- `x` itself is not among the rest
    have hlt : r.rest.length < r.items.length := by
      refine Nat.lt_of_le_of_ne hrest fun heq => hmem ?_
      rwa [r.rest_sublist.eq_of_length heq]
    omega

/-- One operation on another element than `x`. -/
inductive RingList.Around (x : α) (r : RingList α) : RingList α → Prop where
  | keep : Around x r r
  | insert (y : α) (hy : y ∉ r.items) (hne : y ≠ x) :
      Around x r (r.insertAfter (fun z => decide (some z ≠ r.index)) y hy)
  | remove (y : α) (hne : y ≠ x) : Around x r (r.remove y)

theorem takeWhile_erase_le {l : List α} (hx : x ∈ l) (hne : y ≠ x) :
    ((l.erase y).takeWhile fun z => decide (z ≠ x)).length ≤
      (l.takeWhile fun z => decide (z ≠ x)).length := by
  induction l with
  | nil => cases hx
  | cons z l ih =>
    by_cases hzx : z = x
    · subst hzx
      rw [List.erase_cons_tail (by simpa using Ne.symm hne)]
      simp
    · have hmem : x ∈ l := (List.mem_cons.mp hx).resolve_left (Ne.symm hzx)
      by_cases hzy : z = y
      · subst hzy
        rw [List.erase_cons_head, takeWhile_ne_cons hzx, List.length_cons]
        exact Nat.le_succ _
      · rw [List.erase_cons_tail (by simpa using hzy), takeWhile_ne_cons hzx, takeWhile_ne_cons hzx,
          List.length_cons, List.length_cons]
        exact Nat.succ_le_succ (ih hmem)

theorem RingList.Around.wait_le (h : r.Around x r') (hx : x ∈ r.items) :
    x ∈ r'.items ∧ r'.wait m x ≤ r.wait m x := by
  cases h with
  | keep => exact ⟨hx, Nat.le_refl _⟩
  | insert y hy hne =>
    refine ⟨mem_insertAfter.mpr (Or.inr hx), ?_⟩
    rw [wait, wait, rest_insertAfter hy]
    split
    · next hindex =>
      have hmem : x ∈ r.rest := by rwa [rest_of_none hindex]
      have htake : ((r.rest ++ [y]).takeWhile fun z => decide (z ≠ x)) =
          r.rest.takeWhile fun z => decide (z ≠ x) := by
        obtain ⟨pre, post, hcut, hpre⟩ := List.eq_append_cons_of_mem hmem
        rw [hcut, List.append_assoc, List.cons_append, takeWhile_ne_append hpre,
          takeWhile_ne_append hpre]
      rw [if_pos (List.mem_append_left _ hmem), if_pos hmem, htake]
    · exact Nat.le_refl _
  | remove y hne =>
    refine ⟨mem_remove.mpr ⟨Ne.symm hne, hx⟩, ?_⟩
    have hiff : x ∈ r.rest.erase y ↔ x ∈ r.rest := List.mem_erase_of_ne (Ne.symm hne)
    rw [wait, wait, rest_remove]
    by_cases hmem : x ∈ r.rest
    · rw [if_pos (hiff.mpr hmem), if_pos hmem]
      exact Nat.succ_le_succ (takeWhile_erase_le hmem hne)
    · rw [if_neg fun h => hmem (hiff.mp h), if_neg hmem]
      have hle := (List.erase_sublist (l := r.rest) (a := y)).length_le
      omega

theorem RingList.wait_advance_lt (hx : x ∈ r.items) (hsize : r.items.length ≤ m + 1)
    (hother : r.advance.index ≠ some x) : r.advance.wait m x < r.wait m x := by
  cases hrest : r.rest with
  | cons z zs =>
    obtain ⟨hnext, hzs⟩ := rest_advance_of_cons hrest
    have hzx : z ≠ x := by
      rintro rfl
      exact hother hnext
    have hiff : x ∈ z :: zs ↔ x ∈ zs := by
      rw [List.mem_cons]
      exact or_iff_right (Ne.symm hzx)
    rw [wait, wait, hzs, hrest]
    by_cases hmem : x ∈ zs
    · rw [if_pos hmem, if_pos (hiff.mpr hmem), takeWhile_ne_cons hzx, List.length_cons]
      omega
    · rw [if_neg hmem, if_neg fun h => hmem (hiff.mp h), List.length_cons]
      omega
  | nil =>
    cases hitems : r.items with
    | nil =>
      rw [hitems] at hx
      cases hx
    | cons z zs =>
      obtain ⟨hnext, hzs⟩ := rest_advance_of_nil hrest hitems
      have hzx : z ≠ x := by
        rintro rfl
        exact hother hnext
      rw [hitems] at hx hsize
      have hmem : x ∈ zs := (List.mem_cons.mp hx).resolve_left (Ne.symm hzx)
      have hlt := takeWhile_ne_lt hmem
      rw [wait, wait, hzs, hrest, if_pos hmem, if_neg List.not_mem_nil]
      rw [List.length_cons] at hsize
      simp only [List.length_nil]
      omega

end wait

end CursorRing
