import FlintRTOS.KernelList

/-!
# Round-robin selection

The scheduler shares the processor among the tasks of one priority with
`listGET_OWNER_OF_NEXT_ENTRY`, while tasks are linked and unlinked in between.
On the ring of a list each operation is one `RingList.Step`; the walk is fair
because an operation keeps the order in which the walk will reach two items that
stay.

Insertion before the cursor is first come, first served only where the cursor
rests on the sentinel or on the item selected last.  Removing the cursor's item
takes the cursor back to an item that may not have had its turn.
-/

namespace FlintRTOS

open CursorRing

/-- The operations on ready lists. -/
inductive ListOp (L I : Type) where
  | vListInsertEnd (l : L) (i : I)
  | uxListRemove (i : I)
  | listGetOwnerOfNextEntry (l : L)
deriving DecidableEq, Repr

namespace ListStore

variable {L I O : Type} [DecidableEq L] [DecidableEq I]

def execOp (st : ListStore L I O) : ListOp L I → Option (ListStore L I O)
  | .vListInsertEnd l i => st.vListInsertEnd l i
  | .uxListRemove i => st.uxListRemove i
  | .listGetOwnerOfNextEntry l => some (st.listGetOwnerOfNextEntry l).2

/-- The item of `l` that an operation leaves the cursor on as the one selected. -/
def selectedOn (l : L) (st : ListStore L I O) : ListOp L I → Option I
  | .listGetOwnerOfNextEntry l' => if l' = l then (st.list l).advance.index else none
  | _ => none

/-- Run a sequence of operations and collect what is selected on `l`. -/
def walk (l : L) : ListStore L I O → List (ListOp L I) → Option (List I × ListStore L I O)
  | st, [] => some ([], st)
  | st, op :: ops => do
      let st' ← st.execOp op
      let (sel, st'') ← walk l st' ops
      some ((st.selectedOn l op).toList ++ sel, st'')

/-- The owners that `n` selections in a row return. -/
def nextOwners (l : L) : ListStore L I O → Nat → List (Option O)
  | _, 0 => []
  | st, n + 1 =>
      let (owner, st') := st.listGetOwnerOfNextEntry l
      owner :: nextOwners l st' n

/-- `i` is in the list `l` before and after every operation. -/
def Stays (l : L) (i : I) : ListStore L I O → List (ListOp L I) → Prop
  | st, [] => i ∈ (st.list l).items
  | st, op :: ops => i ∈ (st.list l).items ∧ ∀ st' ∈ st.execOp op, Stays l i st' ops

instance decidableStays (l : L) (i : I) :
    ∀ (st : ListStore L I O) (ops : List (ListOp L I)), Decidable (Stays l i st ops)
  | st, [] => inferInstanceAs (Decidable (i ∈ (st.list l).items))
  | st, op :: ops =>
      have : ∀ st', Decidable (Stays l i st' ops) := fun st' => decidableStays l i st' ops
      inferInstanceAs (Decidable (i ∈ (st.list l).items ∧ ∀ st' ∈ st.execOp op, Stays l i st' ops))

section

variable {l : L} {st st' : ListStore L I O} {op : ListOp L I} {ops : List (ListOp L I)} {x y : I}

theorem Stays.mem (h : Stays l x st ops) : x ∈ (st.list l).items := by
  cases ops with
  | nil => exact h
  | cons op ops => exact h.1

theorem ring_step (hexec : st.execOp op = some st') :
    (st.list l).Step (st.selectedOn l op) (st'.list l) := by
  cases op with
  | vListInsertEnd l' i =>
    simp only [execOp, vListInsertEnd] at hexec
    split at hexec
    · rename_i hfree
      cases hexec
      by_cases hl : l = l'
      · subst hl
        have hi : i ∉ (st.list l).items := by
          rw [st.linked, hfree]
          simp
        simpa [selectedOn, link] using RingList.Step.insert i hi
      · simpa [selectedOn, link, Function.update_of_ne hl] using RingList.Step.keep
    · cases hexec
  | uxListRemove i =>
    simp only [execOp, uxListRemove] at hexec
    split at hexec
    · cases hexec
    · rename_i l' hin
      cases hexec
      by_cases hl : l = l'
      · subst hl
        simpa [selectedOn, unlink] using RingList.Step.remove i
      · simpa [selectedOn, unlink, Function.update_of_ne hl] using RingList.Step.keep
  | listGetOwnerOfNextEntry l' =>
    cases hexec
    by_cases hl : l' = l
    · subst hl
      simpa [selectedOn, listGetOwnerOfNextEntry] using RingList.Step.select
    · simpa [selectedOn, listGetOwnerOfNextEntry, hl, Function.update_of_ne (Ne.symm hl)]
        using RingList.Step.keep

/-- What is selected is where the walk takes the cursor. -/
theorem selected_eq {i : I} (hsel : st.selectedOn l op = some i)
    (hexec : st.execOp op = some st') :
    (st.list l).advance.index = some i ∧ st'.list l = (st.list l).advance := by
  cases op with
  | vListInsertEnd => cases hsel
  | uxListRemove => cases hsel
  | listGetOwnerOfNextEntry l' =>
    cases hexec
    by_cases hl : l' = l
    · subst hl
      simp only [selectedOn, if_true] at hsel
      exact ⟨hsel, by simp [listGetOwnerOfNextEntry]⟩
    · simp [selectedOn, hl] at hsel

variable {sel : List I} {st'' : ListStore L I O}

/-- A walk splits into its first operation and the rest. -/
theorem walk_cons (h : st.walk l (op :: ops) = some (sel, st'')) :
    ∃ st' sel', st.execOp op = some st' ∧ st'.walk l ops = some (sel', st'') ∧
      sel = (st.selectedOn l op).toList ++ sel' := by
  obtain ⟨st', hexec, h⟩ := Option.bind_eq_some_iff.mp h
  obtain ⟨⟨sel', _⟩, hwalk, h⟩ := Option.bind_eq_some_iff.mp h
  cases h
  exact ⟨st', sel', hexec, hwalk, rfl⟩

/-- While `y` is ahead of `x`, the walk selects `y` before `x`. -/
theorem mem_of_ahead (hne : x ≠ y) {b c : List I} :
    ∀ {st : ListStore L I O} {ops : List (ListOp L I)}, (st.list l).Ahead y x →
      Stays l x st ops → Stays l y st ops → st.walk l ops = some (sel, st'') →
      sel = b ++ x :: c → y ∈ b := by
  intro st ops
  induction ops generalizing st sel b with
  | nil =>
    intro _ _ _ hwalk hsel
    cases hwalk
    simp at hsel
  | cons op ops ih =>
    intro hahead hx hy hwalk hsel
    obtain ⟨st', sel', hexec, hwalk', rfl⟩ := walk_cons hwalk
    obtain ⟨-, hx⟩ := hx
    obtain ⟨-, hy⟩ := hy
    have hstays := hx st' hexec
    have hstays' := hy st' hexec
    have hstep := ring_step (l := l) hexec
    cases hselected : st.selectedOn l op with
    | none =>
      rw [hselected] at hstep hsel
      exact ih (hahead.step hstep (by simp) hstays.mem hstays'.mem) hstays hstays' hwalk' hsel
    | some z =>
      rw [hselected] at hstep hsel
      have hzx : z ≠ x := by
        rintro rfl
        exact hahead.advance_ne hne (selected_eq hselected hexec).1
      cases b with
      | nil =>
        cases hsel
        exact absurd rfl hzx
      | cons w b =>
        cases hsel
        by_cases hzy : z = y
        · rw [hzy]
          exact List.mem_cons_self
        · have hahead' := hahead.step hstep (by simpa using hzy) hstays.mem hstays'.mem
          exact List.mem_cons_of_mem _ (ih hahead' hstays hstays' hwalk' rfl)

/-- Between two selections of `x` the walk selects `y`. -/
theorem mem_of_walk (hne : x ≠ y) {a b c : List I} :
    ∀ {st : ListStore L I O} {ops : List (ListOp L I)}, Stays l x st ops → Stays l y st ops →
      st.walk l ops = some (sel, st'') → sel = a ++ x :: (b ++ x :: c) → y ∈ b := by
  intro st ops
  induction ops generalizing st sel a with
  | nil =>
    intro _ _ hwalk hsel
    cases hwalk
    simp at hsel
  | cons op ops ih =>
    intro hx hy hwalk hsel
    obtain ⟨st', sel', hexec, hwalk', rfl⟩ := walk_cons hwalk
    obtain ⟨-, hx⟩ := hx
    obtain ⟨hmem, hy⟩ := hy
    have hstays := hx st' hexec
    have hstays' := hy st' hexec
    cases hselected : st.selectedOn l op with
    | none =>
      rw [hselected] at hsel
      exact ih hstays hstays' hwalk' hsel
    | some z =>
      rw [hselected] at hsel
      cases a with
      | nil =>
        cases hsel
        obtain ⟨hindex, hlist⟩ := selected_eq hselected hexec
        have hahead : (st'.list l).Ahead y x := by
          rw [hlist]
          exact RingList.ahead_advance hindex hmem hne
        exact mem_of_ahead hne hahead hstays hstays' hwalk' rfl
      | cons w a =>
        cases hsel
        exact ih hstays hstays' hwalk' rfl

end

/-- The owners returned are those of the items selected. -/
theorem nextOwners_eq (l : L) (n : Nat) (st : ListStore L I O) :
    st.nextOwners l n =
      ((st.list l).selections n).map fun i => i.bind fun i => (st.item i).pvOwner := by
  induction n generalizing st with
  | zero => rfl
  | succ n ih =>
    have hlist : (st.listGetOwnerOfNextEntry l).2.list l = (st.list l).advance := by
      simp [listGetOwnerOfNextEntry]
    simp only [nextOwners, RingList.selections, List.map_cons, ih, hlist,
      item_listGetOwnerOfNextEntry]
    rfl

/-- **Round-robin fairness**: between two selections of `x` on `l` every other item
    that stays in `l` is selected, whatever is linked and unlinked meanwhile; and
    as many selections in a row as the list has items return every owner once. -/
theorem round_robin_fair (l : L) (st : ListStore L I O) :
    (∀ ops sel st', st.walk l ops = some (sel, st') → ∀ x y, x ≠ y →
      Stays l x st ops → Stays l y st ops →
      ∀ a b c, sel = a ++ x :: (b ++ x :: c) → y ∈ b) ∧
    (st.nextOwners l (st.list l).items.length).Perm
      ((st.list l).items.map fun i => (st.item i).pvOwner) := by
  constructor
  · intro ops sel st' hwalk x y hne hx hy a b c hsel
    exact mem_of_walk hne hx hy hwalk hsel
  · rw [nextOwners_eq]
    have hperm := (st.list l).selections_perm.map fun i => i.bind fun i => (st.item i).pvOwner
    rw [List.map_map] at hperm
    exact hperm

/-- Items `0` and `1` are linked, `2` is free. -/
def twoItems : ListStore Unit (Fin 3) Nat where
  list _ := ⟨[0, 1], none, by decide, by simp⟩
  item i := ⟨0, some (10 + i.val), if i = 2 then none else some ()⟩
  linked := fun () => by decide

/-- An item is linked behind the cursor and unlinked again between the selections. -/
theorem round_robin_fair_two :
    let ops := [.listGetOwnerOfNextEntry (), .vListInsertEnd () 2, .listGetOwnerOfNextEntry (),
      .uxListRemove 2, .listGetOwnerOfNextEntry ()]
    (twoItems.walk () ops).map Prod.fst = some [0, 1, 0] ∧
      (1 : Fin 3) ∈ [(1 : Fin 3)] ∧ (twoItems.nextOwners () 2).Perm [some 10, some 11] := by
  intro ops
  have hwalk : (twoItems.walk () ops).map Prod.fst = some [0, 1, 0] := by decide
  obtain ⟨⟨sel, st'⟩, hrun, rfl⟩ := Option.map_eq_some_iff.mp hwalk
  refine ⟨hwalk, ?_, (round_robin_fair () twoItems).2⟩
  exact (round_robin_fair () twoItems).1 ops _ st' hrun 0 1 (by decide) (by decide) (by decide)
    [] [1] [] rfl

/-! ### First come, first served -/

/-- The item `y`, inserted in `st`, is not selected before every item that was in
    the list at that time and stays, other than the one selected `last`. -/
def FirstComeFirstServed (l : L) (last : Option I) (y : I) (st : ListStore L I O) : Prop :=
  ∀ st₁, st.vListInsertEnd l y = some st₁ →
    ∀ ops sel st₂, st₁.walk l ops = some (sel, st₂) → Stays l y st₁ ops →
      ∀ x ∈ (st.list l).items, some x ≠ last → Stays l x st₁ ops →
        ∀ b c, sel = b ++ y :: c → x ∈ b

section

variable {l : L} {st st₁ : ListStore L I O} {y : I}

theorem list_vListInsertEnd (h : st.vListInsertEnd l y = some st₁) :
    ∃ hy : y ∉ (st.list l).items, st₁.list l =
      (st.list l).insertAfter (fun z => decide (some z ≠ (st.list l).index)) y hy := by
  unfold vListInsertEnd at h
  split at h
  · rename_i hfree
    cases h
    have hy : y ∉ (st.list l).items := by
      rw [st.linked, hfree]
      simp
    exact ⟨hy, by simp [link]⟩
  · cases h

/-- Selections in a row select the items in the order of the orbit. -/
theorem walk_selections {pre : List I} : ∀ (st : ListStore L I O) (post : List I),
    (st.list l).orbit = pre ++ post →
    ∃ st', st.walk l (List.replicate pre.length (.listGetOwnerOfNextEntry l)) =
      some (pre, st') := by
  induction pre with
  | nil => exact fun st _ _ => ⟨st, rfl⟩
  | cons z pre ih =>
    intro st post horbit
    obtain ⟨hnext, horbit'⟩ := RingList.orbit_advance horbit
    have hlist : (st.listGetOwnerOfNextEntry l).2.list l = (st.list l).advance := by
      simp [listGetOwnerOfNextEntry]
    obtain ⟨st', hwalk⟩ := ih (st.listGetOwnerOfNextEntry l).2 (post ++ [z])
      (by rw [hlist]; simpa using horbit')
    refine ⟨st', ?_⟩
    simp [List.replicate_succ, walk, execOp, hwalk, selectedOn, hnext]

theorem stays_selections {x : I} (n : Nat) : ∀ {st : ListStore L I O}, x ∈ (st.list l).items →
    Stays l x st (List.replicate n (.listGetOwnerOfNextEntry l)) := by
  induction n with
  | zero => exact fun hx => hx
  | succ n ih =>
    intro st hx
    refine ⟨hx, ?_⟩
    rintro st' hst'
    cases hst'
    exact ih (by simpa using hx)

/-- Whoever is ahead of the new item has its turn first. -/
theorem firstComeFirstServed_of_ahead {last : Option I}
    (h : ∀ st₁, st.vListInsertEnd l y = some st₁ →
      ∀ x ∈ (st.list l).items, some x ≠ last → (st₁.list l).Ahead x y) :
    FirstComeFirstServed l last y st := by
  intro st₁ hinsert ops sel st₂ hwalk hy x hx hlast hstays b c hsel
  obtain ⟨hnew, _⟩ := list_vListInsertEnd hinsert
  have hne : y ≠ x := by
    rintro rfl
    exact hnew hx
  exact mem_of_ahead hne (h st₁ hinsert x hx hlast) hy hstays hwalk hsel

/-- Where the cursor rests on an item that was not selected last, one round
    selects the new item before it. -/
theorem not_firstComeFirstServed {last : Option I} {x : I}
    (hfree : (st.item y).pxContainer = none) (hindex : (st.list l).index = some x)
    (hlast : some x ≠ last) : ¬ FirstComeFirstServed l last y st := by
  intro hfcfs
  obtain ⟨st₁, hinsert, _⟩ := vListInsertEnd_spec l hfree
  obtain ⟨hy, hlist⟩ := list_vListInsertEnd hinsert
  obtain ⟨front, horbit, horbit'⟩ := RingList.orbit_insertAfter_some hy hindex
  rw [← hlist] at horbit'
  have hnodup := (st₁.list l).nodup_orbit
  rw [horbit'] at hnodup
  have hx : x ∈ (st.list l).items := (st.list l).index_mem x hindex
  have hmem : ∀ z, z ∈ (st₁.list l).items ↔ z = y ∨ z ∈ (st.list l).items := by
    intro z
    rw [hlist]
    exact mem_insertAfter
  -- `front` and the new item have their turn, and the cursor's item waits
  have hsplit : (st₁.list l).orbit = (front ++ [y]) ++ [x] := by simpa using horbit'
  obtain ⟨st₂, hwalk⟩ := walk_selections st₁ [x] hsplit
  have hfront := hfcfs st₁ hinsert _ _ st₂ hwalk
    (stays_selections _ ((hmem y).mpr (Or.inl rfl))) x hx hlast
    (stays_selections _ ((hmem x).mpr (Or.inr hx))) front [] rfl
  exact List.disjoint_of_nodup_append hnodup hfront (by simp)

end

/-- An insertion is first come, first served exactly when the cursor rests on the
    sentinel or on the item most recently selected. -/
theorem first_come_first_served_iff (l : L) (st₀ : ListStore L I O) (ops : List (ListOp L I)) :
    ∀ sel st, st₀.walk l ops = some (sel, st) → ∀ y, (st.item y).pxContainer = none →
      (FirstComeFirstServed l sel.getLast? y st ↔
        (st.list l).index = none ∨ (st.list l).index = sel.getLast?) := by
  intro sel st _ y hfree
  constructor
  · intro h
    cases hindex : (st.list l).index with
    | none => exact Or.inl rfl
    | some x =>
      right
      by_contra hlast
      exact not_firstComeFirstServed hfree hindex hlast h
  · intro h
    refine firstComeFirstServed_of_ahead fun st₁ hinsert x hx hlast => ?_
    obtain ⟨hy, hlist⟩ := list_vListInsertEnd hinsert
    have hx : x ∈ (st.list l).orbit := (st.list l).orbit_perm.mem_iff.mpr hx
    cases hindex : (st.list l).index with
    | none =>
      rw [RingList.Ahead, hlist, RingList.orbit_insertAfter_none hy hindex]
      exact (List.singleton_sublist.mpr hx).append (List.Sublist.refl [y])
    | some c =>
      obtain ⟨front, horbit, horbit'⟩ := RingList.orbit_insertAfter_some hy hindex
      have hc : some c = sel.getLast? := by
        rcases h with h | h
        · rw [hindex] at h
          cases h
        · rw [← h, hindex]
      have hfront : x ∈ front := by
        rw [horbit, List.mem_append, List.mem_singleton] at hx
        exact hx.resolve_right fun heq => hlast (heq ▸ hc)
      rw [RingList.Ahead, hlist, horbit']
      exact (List.singleton_sublist.mpr hfront).append (by simp)

/-- While item `0`, selected last, stays, the next insertion waits for item `1`. -/
theorem first_come_first_served_running :
    ∃ st, (empty : ListStore Unit (Fin 3) Nat).walk () [.vListInsertEnd () 0,
        .listGetOwnerOfNextEntry (), .vListInsertEnd () 1] = some ([0], st) ∧
      FirstComeFirstServed () (some 0) 2 st := by
  have hwalk : ((empty : ListStore Unit (Fin 3) Nat).walk () [.vListInsertEnd () 0,
      .listGetOwnerOfNextEntry (), .vListInsertEnd () 1]).any (fun x => x.1 = [0] ∧
        (x.2.list ()).index = some 0 ∧ (x.2.item 2).pxContainer = none) = true := by decide
  obtain ⟨⟨sel, st⟩, hrun, hx⟩ := (Option.any_eq_true _ _).mp hwalk
  obtain ⟨rfl, hindex, hfree⟩ := of_decide_eq_true hx
  exact ⟨st, hrun, (first_come_first_served_iff () empty _ _ st hrun 2 hfree).mpr (Or.inr hindex)⟩

/-- Item `0` is linked, selected and, with `1` linked before it, removed; the
    cursor steps back to `1`.  Item `2`, linked next, is selected before `1`. -/
theorem removal_breaks_first_come :
    ∃ st, (empty : ListStore Unit (Fin 3) Nat).walk () [.vListInsertEnd () 0,
        .listGetOwnerOfNextEntry (), .vListInsertEnd () 1, .uxListRemove 0] = some ([0], st) ∧
      (st.list ()).items = [1] ∧
      (st.walk () [.vListInsertEnd () 2, .listGetOwnerOfNextEntry ()]).map Prod.fst = some [2] ∧
      ¬ FirstComeFirstServed () (some 0) 2 st := by
  have hwalk : ((empty : ListStore Unit (Fin 3) Nat).walk () [.vListInsertEnd () 0,
      .listGetOwnerOfNextEntry (), .vListInsertEnd () 1, .uxListRemove 0]).any (fun x => x.1 = [0] ∧
        (x.2.list ()).index = some 1 ∧ (x.2.item 2).pxContainer = none ∧
        (x.2.list ()).items = [1] ∧
        (x.2.walk () [.vListInsertEnd () 2, .listGetOwnerOfNextEntry ()]).map Prod.fst =
          some [2]) = true := by decide
  obtain ⟨⟨sel, st⟩, hrun, hx⟩ := (Option.any_eq_true _ _).mp hwalk
  obtain ⟨rfl, hindex, hfree, hitems, hselected⟩ := of_decide_eq_true hx
  exact ⟨st, hrun, hitems, hselected, not_firstComeFirstServed hfree hindex (by decide)⟩

end ListStore

end FlintRTOS
