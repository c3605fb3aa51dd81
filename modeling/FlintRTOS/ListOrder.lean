import FlintRTOS.ListCalls

/-!
# Insertion in order (`vListInsert`)

A list that is entered only with `vListInsert`, and whose items keep their values
while they are linked, is sorted by ascending value, and equal values stand in the
order in which they were inserted.  The order of insertion is not part of the memory;
`Arrivals` records it beside the state.
-/

namespace FlintRTOS

open CursorRing ListMem

variable {L I O : Type} [DecidableEq L] [DecidableEq I]

/-! ### One insertion -/

/-- The new item goes behind the values that do not exceed its own and before those
    that do. -/
theorem ListMem.Represents.vListInsert_sorted {m : ListMem L I O} {l : L} {r : RingList I} {i : I}
    (h : m.Represents l r)
    (hsorted : r.items.Pairwise fun j k => m.xItemValue (.item j) ≤ m.xItemValue (.item k))
    (hi : i ∉ r.items) :
    ∃ m' r' pre post, m.vListInsert l i = some m' ∧ m'.Represents l r' ∧
      r.items = pre ++ post ∧ r'.items = pre ++ i :: post ∧ r'.index = r.index ∧
      (∀ j ∈ pre, m.xItemValue (.item j) ≤ m.xItemValue (.item i)) ∧
      (∀ j ∈ post, m.xItemValue (.item i) < m.xItemValue (.item j)) ∧
      m'.xItemValue = m.xItemValue ∧ m'.pxContainer i = some l := by
  refine ⟨_, r.insertAfter (fun j => decide (m.xItemValue (.item j) ≤ m.xItemValue (.item i))) i hi,
    _, _, h.vListInsert hi, ?_, List.takeWhile_append_dropWhile.symm, rfl, rfl, ?_, ?_, rfl,
    Function.update_self ..⟩
  · exact h.linkBetween hi List.takeWhile_append_dropWhile.symm rfl rfl
  · intro j hj
    have hpass := List.mem_takeWhile_imp hj
    exact of_decide_eq_true hpass
  · intro j hj
    have hfail := test_of_mem_dropWhile hsorted ?_ j hj
    · exact UInt32.not_le.mp (of_decide_eq_false hfail)
    · intro j _ k _ hjk hk
      exact decide_eq_true (UInt32.le_trans hjk (of_decide_eq_true hk))

/-! ### Any sequence of insertions and removals -/

/-- The order of insertion: how many insertions there were, and the number of the last
    one of an item. -/
structure Arrivals (I : Type) where
  count : Nat
  arrival : I → Nat

def Arrivals.note (g : Arrivals I) (_ : ListSys L I O) : ListCall L I O → Arrivals I
  | .vListInsert _ i => ⟨g.count + 1, Function.update g.arrival i g.count⟩
  | _ => g

/-- `l` is entered with `vListInsert` only, and its items keep their values. -/
def EntersInOrder (l : L) (x : ListSys L I O) : ListCall L I O → Prop
  | .vListInsertEnd k _ => k ≠ l
  | .listSetListItemValue i _ => x.container i ≠ some l
  | _ => True

/-- Any sequence of calls that enters `l` in order, with the order of insertion. -/
def orderedCalls (m₀ : ListMem L I O) (l : L) :
    Machine (ListSys L I O × Arrivals I) (ListCall L I O) :=
  (((listCalls m₀).restrict Tidy).restrict (EntersInOrder l)).ghost ⟨0, fun _ => 0⟩ Arrivals.note

/-- `i` stands before `j`: by its value, or by its insertion where the values are
    equal. -/
def Arrivals.Before (g : Arrivals I) (value : I → TickType) (i j : I) : Prop :=
  value i < value j ∨ value i = value j ∧ g.arrival i < g.arrival j

section Order

variable {l : L} {x x' : ListSys L I O} {st st' : ListStore L I O} {g : Arrivals I}
  {a : ListCall L I O}

/-- A call other than an insertion into `l` at most takes items off `l`, and the items
    of `l` keep their values. -/
theorem thins_of_store (hmodels : x.Models st) (hordered : EntersInOrder l x a)
    (ha : ∀ i, a ≠ .vListInsert l i) (hstore : a.store st = some st') :
    st.Thins (· = l) (fun i => (st.item i).pxContainer = some l) st' := by
  cases a with
  | vListInitialise k => exact ListStore.Thins.vListInitialise hstore
  | vListInitialiseItem i =>
    apply ListStore.Thins.vListInitialiseItem _ hstore
    rw [ListStore.free_of_vListInitialiseItem hstore]
    simp
  | vListInsert k i =>
    apply ListStore.Thins.vListInsert _ hstore
    rintro rfl
    exact ha i rfl
  | vListInsertEnd k i => exact ListStore.Thins.vListInsertEnd hordered hstore
  | uxListRemove i => exact ListStore.Thins.uxListRemove hstore
  | listGetOwnerOfNextEntry k =>
    cases hstore
    exact ListStore.Thins.listGetOwnerOfNextEntry st k
  | listSetListItemValue i xValue =>
    cases hstore
    apply ListStore.Thins.setItem
    rw [hmodels.container]
    exact hordered
  | listSetListItemOwner i pxOwner =>
    cases hstore
    refine ⟨fun _ _ => List.Sublist.refl _, ?_⟩
    intro j _
    by_cases hj : j = i
    · subst hj
      simp [ListStore.listSetListItemOwner, ListStore.setItem]
    · simp [ListStore.listSetListItemOwner, ListStore.setItem, hj]

/-- The items of `l` stand in their order and came before the next insertion. -/
structure InOrder (st : ListStore L I O) (g : Arrivals I) (l : L) : Prop where
  past : ∀ i ∈ (st.list l).items, g.arrival i < g.count
  before : (st.list l).items.Pairwise (g.Before fun i => (st.item i).xItemValue)

omit [DecidableEq L] [DecidableEq I] in
theorem InOrder.thins (h : InOrder st g l)
    (hthins : st.Thins (· = l) (fun i => (st.item i).pxContainer = some l) st') :
    InOrder st' g l := by
  have hsublist := hthins.sublist l rfl
  refine ⟨fun i hi => h.past i (hsublist.subset hi), ?_⟩
  refine (h.before.sublist hsublist).imp_of_mem ?_
  intro i j hi hj hij
  have hvalue := hthins.value i ((st.linked l i).mp (hsublist.subset hi))
  have hvalue' := hthins.value j ((st.linked l j).mp (hsublist.subset hj))
  simpa only [Arrivals.Before, hvalue, hvalue'] using hij

omit [DecidableEq L] in
/-- An insertion into another list gives a number to an item that is not in `l`. -/
theorem InOrder.note (h : InOrder st g l) {i : I} (hi : i ∉ (st.list l).items) :
    InOrder st ⟨g.count + 1, Function.update g.arrival i g.count⟩ l := by
  have hne : ∀ j ∈ (st.list l).items, j ≠ i := by
    rintro j hj rfl
    exact hi hj
  constructor
  · intro j hj
    simpa [hne j hj] using Nat.lt_succ_of_lt (h.past j hj)
  · refine h.before.imp_of_mem ?_
    intro j k hj hk hjk
    simpa [Arrivals.Before, hne j hj, hne k hk] using hjk

/-- The new item comes behind the equal values, and its number is the highest. -/
theorem InOrder.insert (h : InOrder st g l) {i : I} (hfree : (st.item i).pxContainer = none)
    (hstore : st.vListInsert l i = some st') :
    InOrder st' ⟨g.count + 1, Function.update g.arrival i g.count⟩ l := by
  obtain ⟨st₁, hinsert, hitem, hitems, -⟩ := ListStore.vListInsert_eq l hfree
  cases hinsert.symm.trans hstore
  have hi : i ∉ (st.list l).items := by
    rw [st.linked, hfree]
    simp
  have hnote := h.note hi
  have hvalue : (fun j => (st'.item j).xItemValue) = fun j => (st.item j).xItemValue := by
    funext j
    exact ListStore.value_of_relink hitem j
  constructor
  · rw [hitems]
    intro j hj
    rcases mem_insertAfter.mp hj with rfl | hj
    · simp
    · exact hnote.past j hj
  · rw [hitems, hvalue]
    apply pairwise_insertAfter hnote.before
    · intro j hj hle
      rcases UInt32.lt_or_eq_of_le (of_decide_eq_true hle) with hlt | heq
      · exact Or.inl hlt
      · -- the walk passes equal values, and they came earlier
        refine Or.inr ⟨heq, ?_⟩
        have hne : j ≠ i := by
          rintro rfl
          exact hi hj
        simpa [hne] using h.past j hj
    · intro j hj hle
      exact Or.inl (UInt32.not_le.mp (of_decide_eq_false hle))
    · intro j _ k _ hjk hle
      have hle := of_decide_eq_true hle
      apply decide_eq_true
      rcases hjk with hlt | ⟨heq, -⟩
      · exact UInt32.le_trans (UInt32.le_of_lt hlt) hle
      · exact UInt32.le_trans (UInt32.le_of_eq heq) hle

theorem InOrder.step (h : InOrder st g l) (hmodels : x.Models st) (hguard : a.guard x)
    (hordered : EntersInOrder l x a) (hstore : a.store st = some st') : InOrder st' (g.note x a) l := by
  by_cases ha : ∃ i, a = .vListInsert l i
  · obtain ⟨i, rfl⟩ := ha
    exact h.insert ((hmodels.container i).trans hguard.2) hstore
  · have hthins := thins_of_store hmodels hordered (fun i hi => ha ⟨i, hi⟩) hstore
    cases a with
    | vListInsert k i =>
      -- into another list, so the item that gets a new number is not in `l`
      apply (h.thins hthins).note
      intro hi
      exact hmodels.not_mem hguard.2 l ((hthins.sublist l rfl).subset hi)
    | _ => exact h.thins hthins

end Order

theorem inOrder_reach {m₀ : ListMem L I O} {l : L} {y : ListSys L I O × Arrivals I}
    (hreach : (orderedCalls m₀ l).Reach y) : ∃ st, y.1.Models st ∧ InOrder st y.2 l := by
  refine hreach.invariant (P := fun y => ∃ st, y.1.Models st ∧ InOrder st y.2 l)
    ⟨_, m₀.models_store, by simp [ListMem.store], List.Pairwise.nil⟩ ?_
  rintro y a y' - ⟨st, hmodels, horder⟩ hstep
  obtain ⟨hstep, hnote⟩ := Machine.ghost_step.mp hstep
  obtain ⟨⟨⟨hguard, htidy⟩, hordered⟩, hexec⟩ := hstep
  obtain ⟨x', st', hx', hstore, hfollows⟩ := hmodels.step hguard htidy
  obtain rfl := Option.some.inj (hx'.symm.trans hexec)
  rw [hnote]
  exact ⟨st', hfollows.models, horder.step hmodels hguard hordered hstore⟩

/-- `vListInsert` returns on every sorted list and links the new item behind the values
    that do not exceed its own and before those that do, whatever its value; and a list
    entered only in this way is sorted after any sequence of calls, with equal values in
    the order of their insertion. -/
theorem ordered_insertion (m₀ : ListMem L I O) (l : L) :
    (∀ (m : ListMem L I O) (r : RingList I) (i : I), m.Represents l r →
      (r.items.Pairwise fun j k => m.xItemValue (.item j) ≤ m.xItemValue (.item k)) →
      i ∉ r.items →
      ∃ m' r' pre post, m.vListInsert l i = some m' ∧ m'.Represents l r' ∧
        r.items = pre ++ post ∧ r'.items = pre ++ i :: post ∧ r'.index = r.index ∧
        (∀ j ∈ pre, m.xItemValue (.item j) ≤ m.xItemValue (.item i)) ∧
        (∀ j ∈ post, m.xItemValue (.item i) < m.xItemValue (.item j)) ∧
        m'.xItemValue = m.xItemValue ∧ m'.pxContainer i = some l) ∧
      ∀ y, (orderedCalls m₀ l).Reach y → y.1.lists l = true →
        ∃ r, y.1.mem.Represents l r ∧
          r.items.Pairwise (y.2.Before fun i => y.1.mem.xItemValue (.item i)) := by
  refine ⟨fun m r i h hsorted hi => h.vListInsert_sorted hsorted hi, ?_⟩
  intro y hreach hl
  obtain ⟨st, hmodels, horder⟩ := inOrder_reach hreach
  refine ⟨st.list l, hmodels.ring l hl, ?_⟩
  have hvalue : (fun i => (st.item i).xItemValue) = fun i => y.1.mem.xItemValue (.item i) := by
    funext i
    rw [hmodels.item i]
  rw [← hvalue]
  exact horder.before

instance (l : L) (x : ListSys L I O) (a : ListCall L I O) : Decidable (EntersInOrder l x a) :=
  match a with
  | .vListInitialise _ => inferInstanceAs (Decidable True)
  | .vListInitialiseItem _ => inferInstanceAs (Decidable True)
  | .vListInsert _ _ => inferInstanceAs (Decidable True)
  | .vListInsertEnd k _ => inferInstanceAs (Decidable (k ≠ l))
  | .uxListRemove _ => inferInstanceAs (Decidable True)
  | .listGetOwnerOfNextEntry _ => inferInstanceAs (Decidable True)
  | .listSetListItemValue i _ => inferInstanceAs (Decidable (x.container i ≠ some l))
  | .listSetListItemOwner _ _ => inferInstanceAs (Decidable True)

instance (m₀ : ListMem L I O) (l : L) (y : ListSys L I O × Arrivals I) (a : ListCall L I O) :
    Decidable ((orderedCalls m₀ l).guard y a) :=
  inferInstanceAs (Decidable ((((listCalls m₀).restrict Tidy).restrict (EntersInOrder l)).guard y.1 a))

/-- An item of the sentinel's value enters an empty list and one of value 0 goes before
    it; and three items with two equal values end in the order of their insertion. -/
theorem ordered_insertion_max :
    (∃ (m m' m'' : ListMem Unit Bool Unit) (r : RingList Bool),
      m.xItemValue (.item true) = portMaxDelay ∧ m.vListInsert () true = some m' ∧
        m'.vListInsert () false = some m'' ∧ m''.Represents () r ∧ r.items = [false, true]) ∧
      ∃ y, (orderedCalls (clearedMem : ListMem Unit (Fin 3) Unit) ()).Reach y ∧
        y.1.mem.uxNumberOfItems () = 3 ∧
        ∃ r, y.1.mem.Represents () r ∧
          r.items.Pairwise (y.2.Before fun i => y.1.mem.xItemValue (.item i)) := by
  constructor
  · have hinsert := (ordered_insertion (clearedMem : ListMem Unit Bool Unit) ()).1
    have hempty := represents_vListInitialise
      ((clearedMem : ListMem Unit Bool Unit).setValue (.item true) portMaxDelay) ()
    obtain ⟨m', r', pre, post, hfirst, hring, hnil, hitems, -, -, -, hvalue, -⟩ :=
      hinsert _ _ true hempty List.Pairwise.nil (by simp)
    obtain ⟨rfl, rfl⟩ := List.append_eq_nil_iff.mp hnil.symm
    obtain ⟨m'', r'', pre', post', hsecond, hring', hone, hitems', -, hpre, -, -, -⟩ :=
      hinsert m' r' false hring (by simp [hitems]) (by simp [hitems])
    refine ⟨_, m', m'', r'', by decide, hfirst, hsecond, hring', ?_⟩
    rw [hitems] at hone
    cases pre' with
    | nil =>
      cases hone
      exact hitems'
    | cons j pre' =>
      obtain ⟨rfl, -⟩ := List.cons.inj hone
      have hle := hpre true List.mem_cons_self
      rw [hvalue] at hle
      exact absurd hle (by decide)
  · obtain ⟨y, hreach, hy⟩ :=
      (orderedCalls (clearedMem : ListMem Unit (Fin 3) Unit) ()).exists_reach
        [.vListInitialise (), .listSetListItemValue 0 7, .listSetListItemValue 1 portMaxDelay,
          .listSetListItemValue 2 7, .vListInsert () 1, .vListInsert () 2, .vListInsert () 0,
          .uxListRemove 2, .vListInsert () 2]
        (fun y => y.1.lists () && y.1.mem.uxNumberOfItems () == 3) (by decide)
    simp only [Bool.and_eq_true, beq_iff_eq] at hy
    exact ⟨y, hreach, hy.2, (ordered_insertion _ ()).2 y hreach hy.1⟩

end FlintRTOS
