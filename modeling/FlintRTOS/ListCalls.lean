import FlintRTOS.ListLinks
import FlintRTOS.Machine

/-!
# Sequences of list calls (`kernel/list.c`, `list.h`)

Any number of lists and items in one memory whose contents at the start are not
known, and any sequence of the calls of `list.c` and the writing macros of
`list.h` on them.  `lists` and `items` record what has been initialised; a call may
use a list only then, and it inserts only an item that is in no list.

`Models` ties such a memory to a `ListStore`: the links of each list are its ring,
and the fields of each item are its own.  Under two more rules of the callers, which
`Tidy` states, every call returns and does to the memory what its namesake does to
the store (`Models.step`).
-/

namespace FlintRTOS

open CursorRing ListMem

/-- The memory of the lists, with the lists and items that have been initialised;
    an insertion makes an item known as well. -/
structure ListSys (L I O : Type) where
  mem : ListMem L I O
  lists : L → Bool
  items : I → Bool

/-- A call of `list.c`, or of a macro of `list.h` that writes. -/
inductive ListCall (L I O : Type) where
  | vListInitialise (l : L)
  | vListInitialiseItem (i : I)
  | vListInsert (l : L) (i : I)
  | vListInsertEnd (l : L) (i : I)
  | uxListRemove (i : I)
  | listGetOwnerOfNextEntry (l : L)
  | listSetListItemValue (i : I) (xValue : TickType)
  | listSetListItemOwner (i : I) (pxOwner : O)

variable {L I O : Type} [DecidableEq L] [DecidableEq I]

namespace ListSys

/-- The list that holds the item. -/
def container (x : ListSys L I O) (i : I) : Option L :=
  if x.items i = true then x.mem.pxContainer i else none

end ListSys

/-- The list that a call works on. -/
def ListCall.list (x : ListSys L I O) : ListCall L I O → Option L
  | .vListInitialise l => some l
  | .vListInitialiseItem i => x.container i
  | .vListInsert l _ => some l
  | .vListInsertEnd l _ => some l
  | .uxListRemove i => x.container i
  | .listGetOwnerOfNextEntry l => some l
  | .listSetListItemValue i _ => x.container i
  | .listSetListItemOwner i _ => x.container i

/-- What the callers owe. -/
def ListCall.guard (x : ListSys L I O) : ListCall L I O → Prop
  | .vListInsert l i => x.lists l = true ∧ x.container i = none
  | .vListInsertEnd l i => x.lists l = true ∧ x.container i = none
  | .uxListRemove i => x.container i ≠ none
  | .listGetOwnerOfNextEntry l => x.lists l = true ∧ x.mem.uxNumberOfItems l ≠ 0
  | _ => True

def ListCall.exec (x : ListSys L I O) : ListCall L I O → Option (ListSys L I O)
  | .vListInitialise l =>
      some { x with mem := x.mem.vListInitialise l, lists := Function.update x.lists l true }
  | .vListInitialiseItem i =>
      some { x with mem := x.mem.vListInitialiseItem i, items := Function.update x.items i true }
  | .vListInsert l i =>
      (x.mem.vListInsert l i).map fun m =>
        { x with mem := m, items := Function.update x.items i true }
  | .vListInsertEnd l i =>
      (x.mem.vListInsertEnd l i).map fun m =>
        { x with mem := m, items := Function.update x.items i true }
  | .uxListRemove i => (x.mem.uxListRemove i).map fun y => { x with mem := y.2 }
  | .listGetOwnerOfNextEntry l =>
      (x.mem.listGetOwnerOfNextEntry l).map fun y => { x with mem := y.2 }
  | .listSetListItemValue i xValue => some { x with mem := x.mem.setValue (.item i) xValue }
  | .listSetListItemOwner i pxOwner => some { x with mem := x.mem.setOwner i (some pxOwner) }

/-- A list is initialised while it holds no item, an item while it is in no list. -/
def Tidy (x : ListSys L I O) : ListCall L I O → Prop
  | .vListInitialise l => x.lists l = true → x.mem.uxNumberOfItems l = 0
  | .vListInitialiseItem i => x.container i = none
  | _ => True

/-- Any sequence of calls, from a memory about which nothing is known. -/
def listCalls (m₀ : ListMem L I O) : Machine (ListSys L I O) (ListCall L I O) where
  init := ⟨m₀, fun _ => false, fun _ => false⟩
  guard x a := a.guard x
  exec x a := a.exec x

/-- What the call does to a store of sequences. -/
def ListCall.store (st : ListStore L I O) : ListCall L I O → Option (ListStore L I O)
  | .vListInitialise l => st.vListInitialise l
  | .vListInitialiseItem i => st.vListInitialiseItem i
  | .vListInsert l i => st.vListInsert l i
  | .vListInsertEnd l i => st.vListInsertEnd l i
  | .uxListRemove i => st.uxListRemove i
  | .listGetOwnerOfNextEntry l => some (st.listGetOwnerOfNextEntry l).2
  | .listSetListItemValue i xValue => some (st.listSetListItemValue i xValue)
  | .listSetListItemOwner i pxOwner => some (st.listSetListItemOwner i pxOwner)

namespace ListSys

/-- The store that the memory holds. -/
structure Models (x : ListSys L I O) (st : ListStore L I O) : Prop where
  ring : ∀ l, x.lists l = true → x.mem.Represents l (st.list l)
  unused : ∀ l, x.lists l = false → (st.list l).items = []
  item : ∀ i, st.item i = ⟨x.mem.xItemValue (.item i), x.mem.pvOwner i, x.container i⟩

section Models

variable {x x' : ListSys L I O} {st st' : ListStore L I O} {l l' : L} {i : I} {p : Ptr L I}

omit [DecidableEq L] [DecidableEq I] in
theorem Models.container (h : x.Models st) (i : I) : (st.item i).pxContainer = x.container i :=
  congrArg ListItem.pxContainer (h.item i)

omit [DecidableEq L] [DecidableEq I] in
theorem not_mem_nodes (hp : p ∈ nodes l (st.list l).items) (hl : l' ≠ l) :
    p ∉ nodes l' (st.list l').items := by
  intro hp'
  cases p with
  | null => simp [nodes] at hp
  | xListEnd k =>
    simp only [nodes, List.mem_cons, Ptr.xListEnd.injEq, List.mem_map, reduceCtorEq, and_false,
      exists_false, or_false] at hp hp'
    exact hl (hp'.symm.trans hp)
  | item i =>
    have hin := (st.linked l i).mp (item_mem_nodes.mp hp)
    have hin' := (st.linked l' i).mp (item_mem_nodes.mp hp')
    exact hl (Option.some.inj (hin'.symm.trans hin))

omit [DecidableEq L] [DecidableEq I] in
theorem item_not_mem_nodes (hi : (st.item i).pxContainer ≠ some l) :
    Ptr.item i ∉ nodes l (st.list l).items := by
  rw [item_mem_nodes, st.linked]
  exact hi

/-- A call on the list `t` brings the memory from `x`, which holds `st`, to `x'`,
    which holds `st'`, and leaves the nodes of the other lists alone. -/
structure Follows (x : ListSys L I O) (st : ListStore L I O) (t : Option L) (x' : ListSys L I O)
    (st' : ListStore L I O) : Prop where
  models : x'.Models st'
  keeps : ∀ k, t ≠ some k → Keeps (· ∈ nodes k (st.list k).items) x.mem x'.mem

omit [DecidableEq I] in
theorem Models.follows (h : x.Models st) {t : Option L}
    (hkeeps : ∀ k, t ≠ some k → Keeps (· ∈ nodes k (st.list k).items) x.mem x'.mem)
    (hsame : ∀ k, t ≠ some k → st'.list k = st.list k ∧ x'.lists k = x.lists k)
    (hring : ∀ k, t = some k → x'.lists k = true ∧ x'.mem.Represents k (st'.list k))
    (hitem : ∀ j, st'.item j = ⟨x'.mem.xItemValue (.item j), x'.mem.pvOwner j, x'.container j⟩) :
    Follows x st t x' st' := by
  refine ⟨⟨?_, ?_, hitem⟩, hkeeps⟩
  · -- the ring of `t` is given, every other one was left alone
    intro k hk
    by_cases ht : t = some k
    · exact (hring k ht).2
    · obtain ⟨hlist, hlists⟩ := hsame k ht
      rw [hlist]
      exact (h.ring k (hlists ▸ hk)).kept (hkeeps k ht)
  · intro k hk
    by_cases ht : t = some k
    · rw [(hring k ht).1] at hk
      cases hk
    · obtain ⟨hlist, hlists⟩ := hsame k ht
      rw [hlist]
      exact h.unused k (hlists ▸ hk)

omit [DecidableEq L] [DecidableEq I] in
theorem known_of_container (hin : x.container i = some l) :
    x.items i = true ∧ x.mem.pxContainer i = some l := by
  unfold ListSys.container at hin
  split at hin
  · rename_i hknown
    exact ⟨hknown, hin⟩
  · cases hin

omit [DecidableEq L] [DecidableEq I] in
theorem Models.lists_of_container (h : x.Models st) (hin : x.container i = some l) :
    x.lists l = true := by
  by_contra hunused
  have hmem : i ∈ (st.list l).items := (st.linked l i).mpr ((h.container i).trans hin)
  rw [h.unused l (Bool.eq_false_iff.mpr hunused)] at hmem
  cases hmem

theorem Models.vListInitialise (h : x.Models st) (hempty : (st.list l).items = []) :
    Follows x st (some l)
      { x with mem := x.mem.vListInitialise l, lists := Function.update x.lists l true } st := by
  apply h.follows
  · intro k hk
    apply Keeps.vListInitialise
    exact not_mem_nodes (List.mem_cons_self ..) (ne_of_apply_ne some hk).symm
  · intro k hk
    exact ⟨rfl, Function.update_of_ne (ne_of_apply_ne some hk).symm ..⟩
  · intro k hk
    cases hk
    rw [RingList.eq_empty hempty]
    exact ⟨Function.update_self .., represents_vListInitialise ..⟩
  · intro j
    have hvalue : (x.mem.vListInitialise l).xItemValue (.item j) = x.mem.xItemValue (.item j) :=
      (Keeps.vListInitialise (K := (· = .item j)) (by simp)).value _ rfl
    rw [h.item j, hvalue]
    rfl

theorem Models.vListInitialiseItem (h : x.Models st) (hfree : x.container i = none) :
    Follows x st none
      { x with mem := x.mem.vListInitialiseItem i, items := Function.update x.items i true }
      (st.setItem i 0 none) := by
  have hfree' := (h.container i).trans hfree
  apply h.follows
  · intro k _
    apply Keeps.vListInitialiseItem
    apply item_not_mem_nodes
    simp [hfree']
  · intro k _
    exact ⟨rfl, rfl⟩
  · intro k hk
    cases hk
  · intro j
    by_cases hj : j = i
    · subst hj
      simp [ListStore.setItem, hfree', ListSys.container, ListMem.vListInitialiseItem, setContainer,
        setOwner, setNext, setPrevious, setValue]
    · simp [ListStore.setItem, hj, h.item j, ListSys.container, ListMem.vListInitialiseItem,
        setContainer, setOwner, setNext, setPrevious, setValue]

theorem Models.link (h : x.Models st) (hl : x.lists l = true) (hfree : (st.item i).pxContainer = none)
    (test : I → Bool) :
    Follows x st (some l)
      { x with
        mem := x.mem.linkBetween l i (place l ((st.list l).items.takeWhile test).getLast?)
          (place l ((st.list l).items.dropWhile test).head?)
        items := Function.update x.items i true }
      (st.link l test i hfree) := by
  have hlast : place l ((st.list l).items.takeWhile test).getLast? ∈ nodes l (st.list l).items := by
    apply place_mem_nodes
    intro j hj
    exact (List.takeWhile_prefix _).subset (List.mem_of_getLast? hj)
  have hhead : place l ((st.list l).items.dropWhile test).head? ∈ nodes l (st.list l).items := by
    apply place_mem_nodes
    intro j hj
    exact (List.dropWhile_suffix _).subset (List.mem_of_head? hj)
  apply h.follows
  · intro k hk
    have hne := (ne_of_apply_ne some hk).symm
    apply Keeps.linkBetween (not_mem_nodes (List.mem_cons_self ..) hne) _ (not_mem_nodes hlast hne)
      (not_mem_nodes hhead hne)
    apply item_not_mem_nodes
    simp [hfree]
  · intro k hk
    exact ⟨Function.update_of_ne (ne_of_apply_ne some hk).symm .., rfl⟩
  · intro k hk
    cases hk
    refine ⟨hl, ?_⟩
    have hi : i ∉ (st.list l).items := by
      rw [st.linked, hfree]
      simp
    have hlist : (st.link l test i hfree).list l = (st.list l).insertAfter test i hi :=
      Function.update_self ..
    rw [hlist]
    exact (h.ring l hl).linkBetween hi List.takeWhile_append_dropWhile.symm rfl rfl
  · intro j
    by_cases hj : j = i
    · subst hj
      simp [ListStore.link, h.item j, ListSys.container, linkBetween, enter, setContainer, setNext,
        setPrevious, setNumber]
    · simp [ListStore.link, hj, h.item j, ListSys.container, linkBetween, enter, setContainer,
        setNext, setPrevious, setNumber]

theorem Models.unlink (h : x.Models st) (hin : (st.item i).pxContainer = some l) :
    ∃ m', x.mem.uxListRemove i = some (x.mem.uxNumberOfItems l - 1, m') ∧
      Follows x st (some l) { x with mem := m' } (st.unlink l i hin) := by
  have hcontainer := (h.container i).symm.trans hin
  have hl := h.lists_of_container hcontainer
  have hring := h.ring l hl
  obtain ⟨pre, post, hitems, hpre, hpost⟩ := RingList.exists_cut_of_mem ((st.linked l i).mpr hin)
  have hlast : place l pre.getLast? ∈ nodes l (st.list l).items := by
    apply place_mem_nodes
    intro j hj
    rw [hitems]
    exact List.mem_append_left _ (List.mem_of_getLast? hj)
  have hhead : place l post.head? ∈ nodes l (st.list l).items := by
    apply place_mem_nodes
    intro j hj
    rw [hitems]
    exact List.mem_append_right _ (List.mem_cons_of_mem _ (List.mem_of_head? hj))
  refine ⟨_, hring.uxListRemove hitems hpost (known_of_container hcontainer).2, ?_⟩
  apply h.follows
  · intro k hk
    have hne := (ne_of_apply_ne some hk).symm
    apply Keeps.unlinkBetween (not_mem_nodes (List.mem_cons_self ..) hne) _
      (not_mem_nodes hlast hne) (not_mem_nodes hhead hne)
    apply item_not_mem_nodes
    rw [hin]
    exact hk
  · intro k hk
    exact ⟨Function.update_of_ne (ne_of_apply_ne some hk).symm .., rfl⟩
  · intro k hk
    cases hk
    refine ⟨hl, ?_⟩
    have hlist : (st.unlink l i hin).list l = (st.list l).remove i := Function.update_self ..
    rw [hlist]
    exact hring.unlinkBetween hitems hpre
  · intro j
    by_cases hj : j = i
    · subst hj
      simp [ListStore.unlink, h.item j, ListSys.container, value_unlinkBetween, owner_unlinkBetween,
        container_unlinkBetween]
    · simp [ListStore.unlink, hj, h.item j, ListSys.container, value_unlinkBetween,
        owner_unlinkBetween, container_unlinkBetween]

theorem Models.advance (h : x.Models st) (hl : x.lists l = true) (hne : (st.list l).items ≠ []) :
    ∃ o m', x.mem.listGetOwnerOfNextEntry l = some (o, m') ∧
      Follows x st (some l) { x with mem := m' } (st.listGetOwnerOfNextEntry l).2 := by
  have hring := h.ring l hl
  obtain ⟨i, -, hindex⟩ := exists_next hne (st.list l).index
  refine ⟨_, _, hring.listGetOwnerOfNextEntry hindex, ?_⟩
  apply h.follows
  · intro k hk
    exact Keeps.setIndex (not_mem_nodes (List.mem_cons_self ..) (ne_of_apply_ne some hk).symm) _
  · intro k hk
    exact ⟨Function.update_of_ne (ne_of_apply_ne some hk).symm .., rfl⟩
  · intro k hk
    cases hk
    refine ⟨hl, ?_⟩
    have hlist : (st.listGetOwnerOfNextEntry l).2.list l = (st.list l).advance :=
      Function.update_self ..
    rw [hlist]
    exact hring.setIndex hindex
  · exact h.item

omit [DecidableEq L] [DecidableEq I] in
theorem Models.not_mem (h : x.Models st) (hfree : x.container i = none) (l : L) :
    i ∉ (st.list l).items := by
  rw [st.linked, h.container, hfree]
  simp

/-- The macros that write an item's value or owner change no link. -/
theorem Models.setItem (h : x.Models st) {m' : ListMem L I O} {value : TickType} {owner : Option O}
    (hkeeps : ∀ K : Ptr L I → Prop, ¬ K (.item i) → Keeps K x.mem m')
    (hrings : ∀ k r, x.mem.Represents k r → m'.Represents k r)
    (hcontainer : m'.pxContainer = x.mem.pxContainer)
    (hvalue : m'.xItemValue (.item i) = value) (howner : m'.pvOwner i = owner) :
    Follows x st (x.container i) { x with mem := m' } (st.setItem i value owner) := by
  apply h.follows
  · intro k hk
    apply hkeeps
    apply item_not_mem_nodes
    rw [h.container]
    exact hk
  · intro k _
    exact ⟨rfl, rfl⟩
  · intro k hk
    have hl := h.lists_of_container hk
    exact ⟨hl, hrings k _ (h.ring k hl)⟩
  · intro j
    by_cases hj : j = i
    · subst hj
      simp [ListStore.setItem, hvalue, howner, h.container, ListSys.container, hcontainer]
    · have hother := hkeeps (· = .item j) (fun heq => hj (Ptr.item.inj heq).symm)
      simp [ListStore.setItem, hj, h.item j, ListSys.container, hcontainer,
        hother.value _ rfl, hother.owner _ rfl]

/-- Every call returns and does to the memory what its namesake does to the store. -/
theorem Models.step (h : x.Models st) {a : ListCall L I O} (hguard : a.guard x) (htidy : Tidy x a) :
    ∃ x' st', a.exec x = some x' ∧ a.store st = some st' ∧ Follows x st (a.list x) x' st' := by
  cases a with
  | vListInitialise l =>
    -- a list that is not in use holds nothing, and one in use is empty by its count
    have hempty : (st.list l).items = [] := by
      cases hl : x.lists l with
      | false => exact h.unused l hl
      | true =>
        have hnumber := (h.ring l hl).number
        rw [htidy hl] at hnumber
        exact List.length_eq_zero_iff.mp hnumber.symm
    refine ⟨_, st, rfl, ListStore.vListInitialise_eq ?_, h.vListInitialise hempty⟩
    intro i hi
    rw [← st.linked, hempty] at hi
    cases hi
  | vListInitialiseItem i =>
    have hfree : x.container i = none := htidy
    refine ⟨_, _, rfl, if_pos ((h.container i).trans hfree), ?_⟩
    rw [ListCall.list, hfree]
    exact h.vListInitialiseItem hfree
  | vListInsert l i =>
    obtain ⟨hl, hfree⟩ := hguard
    have hfree' := (h.container i).trans hfree
    have hinsert := (h.ring l hl).vListInsert (h.not_mem hfree l)
    have hvalue : ∀ j, x.mem.xItemValue (.item j) = (st.item j).xItemValue :=
      fun j => (congrArg ListItem.xItemValue (h.item j)).symm
    simp only [hvalue] at hinsert
    refine ⟨_, _, ?_, ListStore.vListInsert_eq_link l hfree', h.link hl hfree' _⟩
    simp only [ListCall.exec, hinsert, Option.map_some]
  | vListInsertEnd l i =>
    obtain ⟨hl, hfree⟩ := hguard
    have hfree' := (h.container i).trans hfree
    have hinsert := (h.ring l hl).vListInsertEnd (h.not_mem hfree l)
    refine ⟨_, _, ?_, dif_pos hfree', h.link hl hfree' _⟩
    simp only [ListCall.exec, hinsert, Option.map_some]
  | uxListRemove i =>
    obtain ⟨l, hin⟩ := Option.ne_none_iff_exists'.mp hguard
    have hin' := (h.container i).trans hin
    obtain ⟨m', hremove, hfollows⟩ := h.unlink hin'
    refine ⟨{ x with mem := m' }, _, ?_, ListStore.uxListRemove_eq hin', ?_⟩
    · simp only [ListCall.exec, hremove, Option.map_some]
    · rw [ListCall.list, hin]
      exact hfollows
  | listGetOwnerOfNextEntry l =>
    obtain ⟨hl, hnumber⟩ := hguard
    have hne : (st.list l).items ≠ [] := by
      intro hempty
      rw [(h.ring l hl).number, hempty] at hnumber
      exact hnumber rfl
    obtain ⟨o, m', hnext, hfollows⟩ := h.advance hl hne
    refine ⟨_, _, ?_, rfl, hfollows⟩
    simp only [ListCall.exec, hnext, Option.map_some]
  | listSetListItemValue i xValue =>
    refine ⟨_, _, rfl, rfl, h.setItem (fun _ hi => Keeps.setValue hi _) ?_ rfl
      (Function.update_self ..) (congrArg ListItem.pvOwner (h.item i)).symm⟩
    intro k r hring
    have hsentinel : (x.mem.setValue (.item i) xValue).xItemValue (.xListEnd k) =
        x.mem.xItemValue (.xListEnd k) :=
      (Keeps.setValue (K := (· = .xListEnd k)) (by simp) xValue).value _ rfl
    exact ⟨hring.forward, hring.backward, hring.number, hring.index, hsentinel.trans hring.sentinel⟩
  | listSetListItemOwner i pxOwner =>
    refine ⟨_, _, rfl, rfl, h.setItem (fun _ hi => Keeps.setOwner hi _) ?_ rfl
      (congrArg ListItem.xItemValue (h.item i)).symm (Function.update_self ..)⟩
    intro k r hring
    exact ⟨hring.forward, hring.backward, hring.number, hring.index, hring.sentinel⟩

end Models

end ListSys

/-! ### Any sequence of calls -/

/-- Before the first call no list holds an item. -/
def ListMem.store (m₀ : ListMem L I O) : ListStore L I O where
  list _ := RingList.empty
  item i := ⟨m₀.xItemValue (.item i), m₀.pvOwner i, none⟩
  linked _ _ := by simp

omit [DecidableEq L] [DecidableEq I] in
theorem ListMem.models_store (m₀ : ListMem L I O) :
    ListSys.Models ⟨m₀, fun _ => false, fun _ => false⟩ m₀.store :=
  ⟨by simp, fun _ _ => rfl, fun _ => rfl⟩

theorem models_reach {m₀ : ListMem L I O} {x : ListSys L I O}
    (hreach : ((listCalls m₀).restrict Tidy).Reach x) : ∃ st, x.Models st := by
  refine hreach.invariant (P := fun x => ∃ st, x.Models st) ⟨_, m₀.models_store⟩ ?_
  rintro x a x' - ⟨st, hmodels⟩ ⟨⟨hguard, htidy⟩, hexec⟩
  obtain ⟨y, st', hy, -, hfollows⟩ := hmodels.step hguard htidy
  obtain rfl := Option.some.inj (hy.symm.trans hexec)
  exact ⟨st', hfollows.models⟩

/-- After any sequence of calls that initialises no list that holds items and no item
    that is in a list: every call the callers may make returns, and the links of the
    lists are rings.  A list in use is the ring `rings l`, forward and backward, with
    its count and its cursor; an item in use is in the ring its container names and in
    no other; and the next call leaves every list it does not work on as it is. -/
theorem list_links_are_rings (m₀ : ListMem L I O) {x : ListSys L I O}
    (hreach : ((listCalls m₀).restrict Tidy).Reach x) :
    ((listCalls m₀).restrict Tidy).Safe x ∧
      ∃ rings : L → RingList I,
        (∀ l, x.lists l = true → x.mem.Represents l (rings l)) ∧
        (∀ l i, i ∈ (rings l).items → x.lists l = true ∧ x.items i = true) ∧
        (∀ l i, x.items i = true → (i ∈ (rings l).items ↔ x.mem.pxContainer i = some l)) ∧
        ∀ a x', ((listCalls m₀).restrict Tidy).Step x a x' →
          ∀ l, a.list x ≠ some l → Keeps (· ∈ nodes l (rings l).items) x.mem x'.mem := by
  obtain ⟨st, hmodels⟩ := models_reach hreach
  have hstep : ∀ a, ((listCalls m₀).restrict Tidy).guard x a → ∃ x' st', a.exec x = some x' ∧
      x.Follows st (a.list x) x' st' := by
    rintro a ⟨hguard, htidy⟩
    obtain ⟨x', st', hexec, -, hfollows⟩ := hmodels.step hguard htidy
    exact ⟨x', st', hexec, hfollows⟩
  refine ⟨?_, st.list, hmodels.ring, ?_, ?_, ?_⟩
  · intro a hguard
    obtain ⟨x', -, hexec, -⟩ := hstep a hguard
    exact ⟨x', hexec⟩
  · intro l i hi
    rw [st.linked, hmodels.container] at hi
    exact ⟨hmodels.lists_of_container hi, (ListSys.known_of_container hi).1⟩
  · intro l i hi
    rw [st.linked, hmodels.container, ListSys.container, if_pos hi]
  · rintro a x' ⟨hguard, hexec⟩
    obtain ⟨y, st', hy, hfollows⟩ := hstep a hguard
    obtain rfl := Option.some.inj (hy.symm.trans hexec)
    exact hfollows.keeps

instance (m₀ : ListMem L I O) (x : ListSys L I O) (a : ListCall L I O) :
    Decidable ((listCalls m₀).guard x a) :=
  match a with
  | .vListInitialise _ => inferInstanceAs (Decidable True)
  | .vListInitialiseItem _ => inferInstanceAs (Decidable True)
  | .vListInsert l i => inferInstanceAs (Decidable (x.lists l = true ∧ x.container i = none))
  | .vListInsertEnd l i => inferInstanceAs (Decidable (x.lists l = true ∧ x.container i = none))
  | .uxListRemove i => inferInstanceAs (Decidable (x.container i ≠ none))
  | .listGetOwnerOfNextEntry l =>
      inferInstanceAs (Decidable (x.lists l = true ∧ x.mem.uxNumberOfItems l ≠ 0))
  | .listSetListItemValue _ _ => inferInstanceAs (Decidable True)
  | .listSetListItemOwner _ _ => inferInstanceAs (Decidable True)

instance (x : ListSys L I O) (a : ListCall L I O) : Decidable (Tidy x a) :=
  match a with
  | .vListInitialise l =>
      inferInstanceAs (Decidable (x.lists l = true → x.mem.uxNumberOfItems l = 0))
  | .vListInitialiseItem i => inferInstanceAs (Decidable (x.container i = none))
  | .vListInsert _ _ => inferInstanceAs (Decidable True)
  | .vListInsertEnd _ _ => inferInstanceAs (Decidable True)
  | .uxListRemove _ => inferInstanceAs (Decidable True)
  | .listGetOwnerOfNextEntry _ => inferInstanceAs (Decidable True)
  | .listSetListItemValue _ _ => inferInstanceAs (Decidable True)
  | .listSetListItemOwner _ _ => inferInstanceAs (Decidable True)

/-- Memory that is all zero. -/
def clearedMem : ListMem L I O :=
  ⟨fun _ => 0, fun _ => .null, fun _ => .null, fun _ => none, fun _ => none, fun _ => 0,
    fun _ => .null⟩

/-- Two items enter one list, the walk visits one, and it leaves for another list. -/
theorem list_links_are_rings_moved :
    ∃ x, ((listCalls (clearedMem : ListMem Bool Bool Unit)).restrict Tidy).Reach x ∧
      x.mem.uxNumberOfItems false = 1 ∧ x.mem.pxContainer true = some true ∧
      ∃ r r' : RingList Bool, x.mem.Represents false r ∧ x.mem.Represents true r' ∧
        true ∈ r'.items ∧ true ∉ r.items := by
  obtain ⟨x, hreach, hx⟩ :=
    ((listCalls (clearedMem : ListMem Bool Bool Unit)).restrict Tidy).exists_reach
      [.vListInitialise false, .vListInitialise true, .vListInitialiseItem false,
        .vListInitialiseItem true, .listSetListItemValue true 7, .vListInsert false true,
        .vListInsert false false, .listGetOwnerOfNextEntry false, .listGetOwnerOfNextEntry false,
        .uxListRemove true, .vListInsertEnd true true]
      (fun x => x.lists false && x.lists true && x.items true &&
        x.mem.uxNumberOfItems false == 1 && x.mem.pxContainer true == some true) (by decide)
  simp only [Bool.and_eq_true, beq_iff_eq] at hx
  obtain ⟨⟨⟨⟨hfalse, htrue⟩, hitem⟩, hnumber⟩, hcontainer⟩ := hx
  obtain ⟨-, rings, hrings, -, hlinked, -⟩ := list_links_are_rings _ hreach
  refine ⟨x, hreach, hnumber, hcontainer, rings false, rings true, hrings _ hfalse, hrings _ htrue,
    (hlinked _ _ hitem).mpr hcontainer, ?_⟩
  rw [hlinked _ _ hitem, hcontainer]
  simp

/-- Initialising a list that holds an item empties its ring and leaves the item with
    the list as its container. -/
theorem reinitialised_list_forgets_item :
    ∃ x, (listCalls (clearedMem : ListMem Unit Unit Unit)).Run
        (listCalls clearedMem).init
        [.vListInitialise (), .vListInitialiseItem (), .vListInsertEnd () (), .vListInitialise ()] x ∧
      x.mem.uxNumberOfItems () = 0 ∧ x.mem.pxContainer () = some () ∧
      ¬ ∃ rings : Unit → RingList Unit,
        (∀ l, x.lists l = true → x.mem.Represents l (rings l)) ∧
        ∀ l i, x.items i = true → (i ∈ (rings l).items ↔ x.mem.pxContainer i = some l) := by
  obtain ⟨x, hrun, hx⟩ := (listCalls (clearedMem : ListMem Unit Unit Unit)).exists_run
    [.vListInitialise (), .vListInitialiseItem (), .vListInsertEnd () (), .vListInitialise ()]
    (fun x => x.lists () && x.items () && x.mem.uxNumberOfItems () == 0 &&
      x.mem.pxContainer () == some ()) (by decide)
  simp only [Bool.and_eq_true, beq_iff_eq] at hx
  obtain ⟨⟨⟨hlist, hitem⟩, hnumber⟩, hcontainer⟩ := hx
  refine ⟨x, hrun, hnumber, hcontainer, ?_⟩
  rintro ⟨rings, hrings, hlinked⟩
  have hempty := (hrings () hlist).number
  rw [hnumber] at hempty
  have hmem := (hlinked () () hitem).mpr hcontainer
  rw [List.length_eq_zero_iff.mp hempty.symm] at hmem
  cases hmem

end FlintRTOS
