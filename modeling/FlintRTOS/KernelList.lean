import FlintRTOS.CursorRing
import Mathlib.Logic.Function.Basic

/-!
# List management (`kernel/list.c`)

The kernel's lists are intrusive: the items live in the task control blocks, an
item is linked in at most one list, and its `pxContainer` names that list.  This
module embeds the operations of `list.c` over a family of lists `L` and items
`I` whose owners are `O`.

A list is the ring of its items in link order (`CursorRing.RingList`), with the
sentinel `xListEnd` left implicit: `uxNumberOfItems` is the length of that
sequence and `pxIndex` its cursor.  The links `pxNext` and `pxPrevious` are the
neighbours in it; `ListLinks` has the links themselves, and `ListCalls` shows that
the functions do to them what they do to the sequences here.  That the sequences
and the containers agree is a field of the store, so a store in which an item is
linked twice or in which a container points to the wrong list cannot be written
down.

The C functions do not check their preconditions.  Where one is called outside
them (`uxListRemove` on an item in no list, an insertion of an item that is
already linked, an initialisation of a list or item in use) the links are left
inconsistent; the embedding returns `none` there.
-/

namespace FlintRTOS

open CursorRing

/-- `TickType_t`, the 32-bit tick counter and item value. -/
abbrev TickType := UInt32

/-- `portMAX_DELAY`, also the value of every sentinel. -/
def portMaxDelay : TickType := 0xFFFFFFFF

/-- `ListItem_t` without its links. -/
structure ListItem (L O : Type) where
  xItemValue : TickType
  pvOwner : Option O
  pxContainer : Option L

/-- What `vListInitialiseItem` leaves. -/
def ListItem.initial {L O : Type} : ListItem L O := ⟨0, none, none⟩

/-- A family of lists over a family of items. -/
structure ListStore (L I O : Type) where
  list : L → RingList I
  item : I → ListItem L O
  linked : ∀ l i, i ∈ (list l).items ↔ (item i).pxContainer = some l

namespace ListStore

variable {L I O : Type} [DecidableEq L] [DecidableEq I]

/-- No list holds an item. -/
def empty : ListStore L I O where
  list _ := RingList.empty
  item _ := ListItem.initial
  linked _ _ := by simp [ListItem.initial]

/-! ### Accessors -/

def listGetListItemValue (st : ListStore L I O) (i : I) : TickType := (st.item i).xItemValue

def listGetListItemOwner (st : ListStore L I O) (i : I) : Option O := (st.item i).pvOwner

def listGetListItemContainer (st : ListStore L I O) (i : I) : Option L :=
  (st.item i).pxContainer

def listCurrentListLength (st : ListStore L I O) (l : L) : Nat := (st.list l).items.length

def listListIsEmpty (st : ListStore L I O) (l : L) : Bool :=
  decide (st.listCurrentListLength l = 0)

/-- `xListEnd.pxNext`; `none` is the sentinel of an empty list. -/
def listGetHeadEntry (st : ListStore L I O) (l : L) : Option I := (st.list l).items.head?

def listIsContainedWithin (st : ListStore L I O) (l : L) (i : I) : Bool :=
  decide (st.listGetListItemContainer i = some l)

omit [DecidableEq I] in
theorem listIsContainedWithin_iff {st : ListStore L I O} {l : L} {i : I} :
    st.listIsContainedWithin l i = true ↔ (st.item i).pxContainer = some l :=
  decide_eq_true_iff

omit [DecidableEq L] [DecidableEq I] in
theorem listListIsEmpty_iff {st : ListStore L I O} {l : L} :
    st.listListIsEmpty l = true ↔ (st.list l).items = [] := by
  rw [listListIsEmpty, decide_eq_true_iff, listCurrentListLength, List.length_eq_zero_iff]

/-- Overwrite the fields of an item that are not links. -/
def setItem (st : ListStore L I O) (i : I) (value : TickType) (owner : Option O) :
    ListStore L I O where
  list := st.list
  item := Function.update st.item i ⟨value, owner, (st.item i).pxContainer⟩
  linked l j := by
    rw [st.linked l j]
    by_cases h : j = i
    · subst h; simp
    · simp [Function.update_of_ne h]

def listSetListItemValue (st : ListStore L I O) (i : I) (value : TickType) :
    ListStore L I O :=
  st.setItem i value (st.item i).pvOwner

def listSetListItemOwner (st : ListStore L I O) (i : I) (owner : O) : ListStore L I O :=
  st.setItem i (st.item i).xItemValue (some owner)

/-! ### Linking and unlinking -/

/-- Link the free item `i` into `l` where a walk over `p` stops. -/
def link (st : ListStore L I O) (l : L) (p : I → Bool) (i : I)
    (hfree : (st.item i).pxContainer = none) : ListStore L I O where
  list := Function.update st.list l ((st.list l).insertAfter p i (by
    rw [st.linked, hfree]; simp))
  item := Function.update st.item i { st.item i with pxContainer := some l }
  linked l' j := by
    by_cases hl : l' = l
    · subst hl
      by_cases hj : j = i
      · subst hj; simp [RingList.insertAfter]
      · simp [RingList.insertAfter, hj, Function.update_of_ne, st.linked l' j]
    · rw [Function.update_of_ne hl, st.linked l' j]
      by_cases hj : j = i
      · subst hj; simp [hfree, Ne.symm hl]
      · simp [Function.update_of_ne hj]

/-- Unlink `i` from the list `l` that holds it. -/
def unlink (st : ListStore L I O) (l : L) (i : I)
    (hin : (st.item i).pxContainer = some l) : ListStore L I O where
  list := Function.update st.list l ((st.list l).remove i)
  item := Function.update st.item i { st.item i with pxContainer := none }
  linked l' j := by
    by_cases hl : l' = l
    · subst hl
      by_cases hj : j = i
      · subst hj; simp
      · simp [hj, st.linked l' j]
    · rw [Function.update_of_ne hl, st.linked l' j]
      by_cases hj : j = i
      · subst hj; simp [hin, Ne.symm hl]
      · simp [Function.update_of_ne hj]

/-! ### `list.c` -/

/-- `vListInitialise` on a list that holds no item. -/
def vListInitialise (st : ListStore L I O) (l : L) : Option (ListStore L I O) :=
  if hempty : (st.list l).items = [] then
    some { st with
      list := Function.update st.list l RingList.empty
      linked := fun l' i => by
        by_cases hl : l' = l
        · subst hl; rw [← st.linked l' i, hempty]; simp
        · rw [Function.update_of_ne hl, st.linked l' i] }
  else none

/-- `vListInitialiseItem` on an item that is in no list. -/
def vListInitialiseItem (st : ListStore L I O) (i : I) : Option (ListStore L I O) :=
  if (st.item i).pxContainer = none then some (st.setItem i 0 none) else none

/-- `vListInsertEnd`: link immediately before the walk cursor. -/
def vListInsertEnd (st : ListStore L I O) (l : L) (i : I) : Option (ListStore L I O) :=
  if hfree : (st.item i).pxContainer = none then
    some (st.link l (fun j => decide (some j ≠ (st.list l).index)) i hfree)
  else none

/-- `vListInsert`: walk past every value that does not exceed the new one.  The
    sentinel's value stops the walk, except for `portMAX_DELAY` itself, which
    is linked before the sentinel directly. -/
def vListInsert (st : ListStore L I O) (l : L) (i : I) : Option (ListStore L I O) :=
  if hfree : (st.item i).pxContainer = none then
    if (st.item i).xItemValue = portMaxDelay then
      some (st.link l (fun _ => true) i hfree)
    else
      some (st.link l (fun j => decide ((st.item j).xItemValue ≤ (st.item i).xItemValue))
        i hfree)
  else none

/-- `uxListRemove`: unlink the item from the list its container names.  A NULL
    container is dereferenced by the C code. -/
def uxListRemove (st : ListStore L I O) (i : I) : Option (ListStore L I O) :=
  match h : (st.item i).pxContainer with
  | none => none
  | some l => some (st.unlink l i h)

/-- `listGET_OWNER_OF_NEXT_ENTRY`: advance the cursor and read the owner.  On an
    empty list the cursor stays on the sentinel, which has no owner. -/
def listGetOwnerOfNextEntry (st : ListStore L I O) (l : L) : Option O × ListStore L I O :=
  (((st.list l).advance.index).bind fun i => (st.item i).pvOwner,
    { st with
      list := Function.update st.list l (st.list l).advance
      linked := fun l' i => by
        by_cases hl : l' = l
        · subst hl; simp [st.linked l' i]
        · rw [Function.update_of_ne hl, st.linked l' i] })

/-! ### What each operation does to the items and to the order

The item function determines which list holds which item (`linked`), so the
effect of an operation is one equation about `item`, plus what it does to the
order of the lists that are kept ascending. -/

/-- The items of `l` stand in ascending order of their values. -/
def Ascending (st : ListStore L I O) (l : L) : Prop :=
  (st.list l).items.Pairwise fun i j =>
    (st.item i).xItemValue.toNat ≤ (st.item j).xItemValue.toNat

omit [DecidableEq L] in
theorem ascending_setItem {st : ListStore L I O} {l : L} {i : I} {value : TickType}
    {owner : Option O} (hout : (st.item i).pxContainer ≠ some l) (h : st.Ascending l) :
    (st.setItem i value owner).Ascending l := by
  refine List.Pairwise.imp_of_mem ?_ h
  intro a b ha hb hab
  have hne : ∀ j, j ∈ (st.list l).items → j ≠ i := by
    intro j hj heq
    exact hout (heq ▸ (st.linked l j).mp hj)
  simpa [setItem, Function.update_of_ne (hne a ha), Function.update_of_ne (hne b hb)]
    using hab

omit [DecidableEq L] in
theorem value_of_relink {st st' : ListStore L I O} {i : I} {c : Option L}
    (hitem : st'.item = Function.update st.item i { st.item i with pxContainer := c }) (j : I) :
    (st'.item j).xItemValue = (st.item j).xItemValue := by
  rw [hitem]
  by_cases hj : j = i
  · subst hj; simp
  · rw [Function.update_of_ne hj]

omit [DecidableEq L] in
/-- After relinking only the sequence of the list matters. -/
theorem ascending_congr {st st' : ListStore L I O} {l : L} {i : I} {c : Option L}
    (hitem : st'.item = Function.update st.item i { st.item i with pxContainer := c })
    (h : (st'.list l).items.Pairwise fun a b =>
      (st.item a).xItemValue.toNat ≤ (st.item b).xItemValue.toNat) :
    st'.Ascending l := by
  simpa only [Ascending, value_of_relink hitem] using h

theorem uxListRemove_eq {st : ListStore L I O} {i : I} {l : L}
    (hin : (st.item i).pxContainer = some l) : st.uxListRemove i = some (st.unlink l i hin) := by
  unfold uxListRemove
  split
  · rename_i hnone
    rw [hin] at hnone
    cases hnone
  · rename_i l' hsome
    have hl : l' = l := Option.some.inj (hsome.symm.trans hin)
    subst hl
    rfl

theorem uxListRemove_spec {st : ListStore L I O} {i : I} {l : L}
    (hin : (st.item i).pxContainer = some l) :
    ∃ st', st.uxListRemove i = some st' ∧
      st'.item = Function.update st.item i { st.item i with pxContainer := none } ∧
      ∀ l', st.Ascending l' → st'.Ascending l' := by
  refine ⟨st.unlink l i hin, uxListRemove_eq hin, rfl, ?_⟩
  intro l' h
  refine ascending_congr (c := none) rfl ?_
  by_cases hl : l' = l
  · subst hl
    simpa [unlink] using RingList.pairwise_remove h
  · simpa [unlink, Function.update_of_ne hl, Ascending] using h

theorem vListInsertEnd_spec {st : ListStore L I O} {i : I} (l : L)
    (hfree : (st.item i).pxContainer = none) :
    ∃ st', st.vListInsertEnd l i = some st' ∧
      st'.item = Function.update st.item i { st.item i with pxContainer := some l } ∧
      ∀ l', l' ≠ l → st.Ascending l' → st'.Ascending l' := by
  refine ⟨_, dif_pos hfree, rfl, ?_⟩
  intro l' hl h
  refine ascending_congr (c := some l) rfl ?_
  simpa [link, Function.update_of_ne hl, Ascending] using h

/-- The new item goes behind every value that does not exceed its own; for the
    sentinel's value that is the end of the list. -/
theorem vListInsert_eq_link {st : ListStore L I O} {i : I} (l : L)
    (hfree : (st.item i).pxContainer = none) :
    st.vListInsert l i = some (st.link l
      (fun j => decide ((st.item j).xItemValue ≤ (st.item i).xItemValue)) i hfree) := by
  rw [vListInsert, dif_pos hfree]
  split
  · rename_i hmax
    have hall : (fun j => decide ((st.item j).xItemValue ≤ (st.item i).xItemValue)) =
        fun _ => true := by
      funext j
      rw [hmax, decide_eq_true_iff, UInt32.le_iff_toNat_le]
      exact Nat.le_of_lt_succ (UInt32.toNat_lt (st.item j).xItemValue)
    simp only [hall]
  · rfl

theorem vListInsert_eq {st : ListStore L I O} {i : I} (l : L)
    (hfree : (st.item i).pxContainer = none) :
    ∃ st', st.vListInsert l i = some st' ∧
      st'.item = Function.update st.item i { st.item i with pxContainer := some l } ∧
      (st'.list l).items = insertAfter
        (fun j => decide ((st.item j).xItemValue ≤ (st.item i).xItemValue)) i
        (st.list l).items ∧
      ∀ l', l' ≠ l → st'.list l' = st.list l' := by
  refine ⟨_, vListInsert_eq_link l hfree, rfl, ?_, ?_⟩
  · simp [link, RingList.insertAfter]
  · intro l' hl
    simp [link, Function.update_of_ne hl]

theorem free_of_vListInsert {st st' : ListStore L I O} {l : L} {i : I}
    (h : st.vListInsert l i = some st') : (st.item i).pxContainer = none := by
  by_contra hlinked
  simp [vListInsert, hlinked] at h

theorem vListInsert_spec {st : ListStore L I O} {i : I} (l : L)
    (hfree : (st.item i).pxContainer = none) :
    ∃ st', st.vListInsert l i = some st' ∧
      st'.item = Function.update st.item i { st.item i with pxContainer := some l } ∧
      ∀ l', st.Ascending l' → st'.Ascending l' := by
  obtain ⟨st', hinsert, hitem, hitems, hother⟩ := vListInsert_eq l hfree
  refine ⟨st', hinsert, hitem, ?_⟩
  intro l' h
  refine ascending_congr hitem ?_
  by_cases hl : l' = l
  · subst hl
    rw [hitems]
    refine pairwise_insertAfter h ?_ ?_ ?_
    · intro j _ hle
      exact UInt32.le_iff_toNat_le.mp (of_decide_eq_true hle)
    · intro j _ hle
      have hlt := UInt32.not_le.mp (of_decide_eq_false hle)
      exact Nat.le_of_lt (UInt32.lt_iff_toNat_lt.mp hlt)
    · intro j _ j' _ hjj hle
      have hle' := UInt32.le_iff_toNat_le.mp (of_decide_eq_true hle)
      exact decide_eq_true (UInt32.le_iff_toNat_le.mpr (Nat.le_trans hjj hle'))
  · rw [hother l' hl]
    exact h

omit [DecidableEq L] in
theorem free_of_vListInitialiseItem {st st' : ListStore L I O} {i : I}
    (h : st.vListInitialiseItem i = some st') : (st.item i).pxContainer = none := by
  by_contra hlinked
  simp [vListInitialiseItem, hlinked] at h

omit [DecidableEq L] in
theorem vListInitialiseItem_spec {st : ListStore L I O} {i : I}
    (hfree : (st.item i).pxContainer = none) :
    ∃ st', st.vListInitialiseItem i = some st' ∧
      st'.item = Function.update st.item i ListItem.initial ∧
      ∀ l, st.Ascending l → st'.Ascending l := by
  refine ⟨st.setItem i 0 none, if_pos hfree, ?_, ?_⟩
  · simp [setItem, hfree, ListItem.initial]
  · intro l h
    refine ascending_setItem ?_ h
    simp [hfree]

/-! ### Lists that only lose items

Most operations only take items off the lists that a caller watches.  `Thins`
says so for the lists of `P`, and that the items of `Q` keep their values; it
needs no contract, so it composes along any sequence of operations that
returns. -/

structure Thins (P : L → Prop) (Q : I → Prop) (st st' : ListStore L I O) : Prop where
  sublist : ∀ l, P l → (st'.list l).items.Sublist (st.list l).items
  value : ∀ i, Q i → (st'.item i).xItemValue = (st.item i).xItemValue

section Thins

variable {P : L → Prop} {Q : I → Prop} {st st' st'' : ListStore L I O} {l : L} {i : I}

omit [DecidableEq L] [DecidableEq I] in
theorem Thins.refl (st : ListStore L I O) : st.Thins P Q st :=
  ⟨fun _ _ => List.Sublist.refl _, fun _ _ => rfl⟩

omit [DecidableEq L] [DecidableEq I] in
theorem Thins.trans (h : st.Thins P Q st') (h' : st'.Thins P Q st'') : st.Thins P Q st'' :=
  ⟨fun l hl => (h'.sublist l hl).trans (h.sublist l hl),
    fun i hi => (h'.value i hi).trans (h.value i hi)⟩

omit [DecidableEq L] in
theorem Thins.setItem (hi : ¬ Q i) (value : TickType) (owner : Option O) :
    st.Thins P Q (st.setItem i value owner) := by
  refine ⟨fun _ _ => List.Sublist.refl _, ?_⟩
  intro j hj
  have hne : j ≠ i := by
    rintro rfl
    exact hi hj
  simp [ListStore.setItem, Function.update_of_ne hne]

theorem Thins.link {p : I → Bool} (hl : ¬ P l) (hfree : (st.item i).pxContainer = none) :
    st.Thins P Q (st.link l p i hfree) := by
  constructor
  · intro l' hl'
    have hne : l' ≠ l := by
      rintro rfl
      exact hl hl'
    simp [ListStore.link, Function.update_of_ne hne]
  · intro j _
    exact value_of_relink rfl j

theorem Thins.uxListRemove (h : st.uxListRemove i = some st') : st.Thins P Q st' := by
  unfold ListStore.uxListRemove at h
  split at h
  · cases h
  · rename_i l hin
    cases h
    constructor
    · intro l' _
      by_cases hl : l' = l
      · subst hl
        simpa [unlink, RingList.remove] using List.erase_sublist
      · simp [unlink, Function.update_of_ne hl]
    · intro j _
      exact value_of_relink rfl j

theorem Thins.vListInsertEnd (hl : ¬ P l) (h : st.vListInsertEnd l i = some st') :
    st.Thins P Q st' := by
  unfold ListStore.vListInsertEnd at h
  split at h
  · cases h
    exact Thins.link hl _
  · cases h

theorem Thins.vListInsert (hl : ¬ P l) (h : st.vListInsert l i = some st') :
    st.Thins P Q st' := by
  unfold ListStore.vListInsert at h
  split at h
  · split at h
    · cases h
      exact Thins.link hl _
    · cases h
      exact Thins.link hl _
  · cases h

omit [DecidableEq L] in
theorem Thins.vListInitialiseItem (hi : ¬ Q i) (h : st.vListInitialiseItem i = some st') :
    st.Thins P Q st' := by
  unfold ListStore.vListInitialiseItem at h
  split at h
  · cases h
    exact Thins.setItem hi _ _
  · cases h

omit [DecidableEq I] in
theorem Thins.vListInitialise (h : st.vListInitialise l = some st') : st.Thins P Q st' := by
  unfold ListStore.vListInitialise at h
  split at h
  · cases h
    refine ⟨?_, fun _ _ => rfl⟩
    intro l' _
    by_cases hl : l' = l
    · subst hl; simp
    · simp [Function.update_of_ne hl]
  · cases h

theorem Thins.listGetOwnerOfNextEntry (st : ListStore L I O) (l : L) :
    st.Thins P Q (st.listGetOwnerOfNextEntry l).2 := by
  constructor
  · intro l' _
    by_cases hl : l' = l
    · subst hl; simp [ListStore.listGetOwnerOfNextEntry]
    · simp [ListStore.listGetOwnerOfNextEntry, Function.update_of_ne hl]
  · intro j _
    rfl

end Thins

/-! ### Items that are left alone

`KeepsOrder Q` says that every list holds the items of `Q` as before and in the
same order, and that a cursor resting on one of them, or on the sentinel, stays.
It holds of every operation on an item outside `Q`. -/

structure KeepsOrder (Q : I → Bool) (st st' : ListStore L I O) : Prop where
  items : ∀ l, (st'.list l).items.filter Q = (st.list l).items.filter Q
  index : ∀ l, (∀ i, (st.list l).index = some i → Q i = true) →
    (st'.list l).index = (st.list l).index

section KeepsOrder

variable {Q : I → Bool} {st st' st'' : ListStore L I O} {l : L} {i : I}

omit [DecidableEq L] [DecidableEq I] in
theorem KeepsOrder.refl (st : ListStore L I O) : st.KeepsOrder Q st :=
  ⟨fun _ => rfl, fun _ _ => rfl⟩

omit [DecidableEq L] [DecidableEq I] in
theorem KeepsOrder.trans (h : st.KeepsOrder Q st') (h' : st'.KeepsOrder Q st'') :
    st.KeepsOrder Q st'' := by
  refine ⟨fun l => (h'.items l).trans (h.items l), ?_⟩
  intro l hindex
  have hkept := h.index l hindex
  exact (h'.index l (hkept ▸ hindex)).trans hkept

omit [DecidableEq L] in
theorem KeepsOrder.setItem (i : I) (value : TickType) (owner : Option O) :
    st.KeepsOrder Q (st.setItem i value owner) :=
  ⟨fun _ => rfl, fun _ _ => rfl⟩

theorem KeepsOrder.vListInsertEnd (hi : Q i = false) (h : st.vListInsertEnd l i = some st') :
    st.KeepsOrder Q st' := by
  unfold ListStore.vListInsertEnd at h
  split at h
  · cases h
    constructor
    · intro l'
      by_cases hl : l' = l
      · subst hl
        have hskip : ∀ xs ys : List I, (xs ++ i :: ys).filter Q = (xs ++ ys).filter Q := by
          simp [hi]
        simp only [link, Function.update_self, RingList.insertAfter, insertAfter, hskip,
          List.takeWhile_append_dropWhile]
      · simp [link, Function.update_of_ne hl]
    · intro l' _
      by_cases hl : l' = l
      · subst hl; simp [link, RingList.insertAfter]
      · simp [link, Function.update_of_ne hl]
  · cases h

theorem KeepsOrder.uxListRemove (hi : Q i = false) (h : st.uxListRemove i = some st') :
    st.KeepsOrder Q st' := by
  unfold ListStore.uxListRemove at h
  split at h
  · cases h
  · rename_i l hin
    cases h
    constructor
    · intro l'
      by_cases hl : l' = l
      · subst hl
        simp only [unlink, Function.update_self, RingList.remove]
        rw [(st.list l').nodup.erase_eq_filter, List.filter_filter]
        refine List.filter_congr ?_
        intro j _
        by_cases hj : j = i
        · simp [hj, hi]
        · simp [hj]
      · simp [unlink, Function.update_of_ne hl]
    · intro l' hindex
      by_cases hl : l' = l
      · subst hl
        have hne : ¬ (st.list l').index = some i := by
          intro heq
          rw [hindex i heq] at hi
          cases hi
        simp only [unlink, Function.update_self, RingList.remove, if_neg hne]
      · simp [unlink, Function.update_of_ne hl]

end KeepsOrder

omit [DecidableEq I] in
/-- Initialising a list that holds no item changes nothing. -/
theorem vListInitialise_eq {st : ListStore L I O} {l : L}
    (hempty : ∀ i, (st.item i).pxContainer ≠ some l) : st.vListInitialise l = some st := by
  have hitems : (st.list l).items = [] := by
    refine List.eq_nil_iff_forall_not_mem.mpr ?_
    intro i hi
    exact hempty i ((st.linked l i).mp hi)
  have hlist : Function.update st.list l RingList.empty = st.list := by
    rw [← RingList.eq_empty hitems, Function.update_eq_self]
  rw [vListInitialise, dif_pos hitems]
  obtain ⟨list, item, linked⟩ := st
  simp only [hlist]

@[simp] theorem items_listGetOwnerOfNextEntry (st : ListStore L I O) (l l' : L) :
    ((st.listGetOwnerOfNextEntry l).2.list l').items = (st.list l').items := by
  by_cases hl : l' = l
  · subst hl; simp [listGetOwnerOfNextEntry]
  · simp [listGetOwnerOfNextEntry, Function.update_of_ne hl]

@[simp] theorem item_listGetOwnerOfNextEntry (st : ListStore L I O) (l : L) :
    (st.listGetOwnerOfNextEntry l).2.item = st.item := rfl

/-- On a non-empty list the walk returns the owner of one of its items. -/
theorem owner_listGetOwnerOfNextEntry {st : ListStore L I O} {l : L}
    (hne : (st.list l).items ≠ []) :
    ∃ i ∈ (st.list l).items, (st.listGetOwnerOfNextEntry l).1 = (st.item i).pvOwner := by
  obtain ⟨i, hmem, hnext⟩ := exists_next hne (st.list l).index
  refine ⟨i, hmem, ?_⟩
  simp [listGetOwnerOfNextEntry, RingList.advance, hnext]

end ListStore

end FlintRTOS
