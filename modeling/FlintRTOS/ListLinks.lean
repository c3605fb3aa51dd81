import FlintRTOS.KernelList
import FlintRTOS.LinkedChain

/-!
# The links of the lists (`kernel/list.c`, `list.h`)

The functions of `list.c` with every pointer they read and write.  A `ListItem_t *`
is NULL, the sentinel of a list or an item; memory is a function for each field.
Following a NULL pointer is undefined and returns `none`, and so does the walk of
`vListInsert` when it does not end within the number of items.  The count of a list is
a natural number: it has 64 bits in the source, more than there can be items.

`Represents` says that the links of a list form the ring of a `RingList`: from the
sentinel through the items and back, forward over `pxNext` and, in the opposite
order, over `pxPrevious`.  Each function then does to the links what its namesake
of `ListStore` does to the sequences, which is what the rest of the kernel is
verified over.
-/

namespace FlintRTOS

open CursorRing

/-- A `ListItem_t *`. -/
inductive Ptr (L I : Type) where
  | null
  | xListEnd (l : L)
  | item (i : I)
deriving DecidableEq, Repr

/-- The pointer, when it may be followed. -/
def Ptr.deref {L I : Type} : Ptr L I → Option (Ptr L I)
  | .null => none
  | .xListEnd l => some (.xListEnd l)
  | .item i => some (.item i)

/-- The fields of all lists, sentinels and items. -/
structure ListMem (L I O : Type) where
  xItemValue : Ptr L I → TickType
  pxNext : Ptr L I → Ptr L I
  pxPrevious : Ptr L I → Ptr L I
  pvOwner : I → Option O
  pxContainer : I → Option L
  uxNumberOfItems : L → Nat
  pxIndex : L → Ptr L I

namespace ListMem

variable {L I O : Type} [DecidableEq L] [DecidableEq I]

def setValue (m : ListMem L I O) (p : Ptr L I) (v : TickType) : ListMem L I O :=
  { m with xItemValue := Function.update m.xItemValue p v }

def setNext (m : ListMem L I O) (p v : Ptr L I) : ListMem L I O :=
  { m with pxNext := Function.update m.pxNext p v }

def setPrevious (m : ListMem L I O) (p v : Ptr L I) : ListMem L I O :=
  { m with pxPrevious := Function.update m.pxPrevious p v }

def setOwner (m : ListMem L I O) (i : I) (o : Option O) : ListMem L I O :=
  { m with pvOwner := Function.update m.pvOwner i o }

def setContainer (m : ListMem L I O) (i : I) (l : Option L) : ListMem L I O :=
  { m with pxContainer := Function.update m.pxContainer i l }

def setNumber (m : ListMem L I O) (l : L) (n : Nat) : ListMem L I O :=
  { m with uxNumberOfItems := Function.update m.uxNumberOfItems l n }

def setIndex (m : ListMem L I O) (l : L) (p : Ptr L I) : ListMem L I O :=
  { m with pxIndex := Function.update m.pxIndex l p }

/-! ### `list.c` -/

def vListInitialise (m : ListMem L I O) (l : L) : ListMem L I O :=
  let m := m.setIndex l (.xListEnd l)
  -- the sentinel sorts last so ordered inserts never fall off the end
  let m := m.setValue (.xListEnd l) portMaxDelay
  let m := m.setNext (.xListEnd l) (.xListEnd l)
  let m := m.setPrevious (.xListEnd l) (.xListEnd l)
  m.setNumber l 0

def vListInitialiseItem (m : ListMem L I O) (i : I) : ListMem L I O :=
  let m := m.setContainer i none
  let m := m.setOwner i none
  let m := m.setNext (.item i) .null
  let m := m.setPrevious (.item i) .null
  m.setValue (.item i) 0

/-- The last two assignments of an insertion. -/
def enter (m : ListMem L I O) (l : L) (i : I) : ListMem L I O :=
  (m.setContainer i (some l)).setNumber l (m.uxNumberOfItems l + 1)

def vListInsertEnd (m : ListMem L I O) (l : L) (i : I) : Option (ListMem L I O) := do
  let pxIndex ← (m.pxIndex l).deref
  -- immediately before the current index
  let m := m.setNext (.item i) pxIndex
  let m := m.setPrevious (.item i) (m.pxPrevious pxIndex)
  let pxPrevious ← (m.pxPrevious pxIndex).deref
  let m := m.setNext pxPrevious (.item i)
  let m := m.setPrevious pxIndex (.item i)
  return m.enter l i

/-- The loop of `vListInsert`: from `pxIterator` on while the next value does not
    exceed the one to insert. -/
def walk (m : ListMem L I O) (xValueOfInsertion : TickType) : Nat → Ptr L I → Option (Ptr L I)
  | 0, _ => none
  | fuel + 1, pxIterator => do
      let pxNext ← (m.pxNext pxIterator).deref
      if m.xItemValue pxNext ≤ xValueOfInsertion then m.walk xValueOfInsertion fuel pxNext
      else return pxIterator

/-- Where `vListInsert` links the new item: behind this one. -/
def insertionPoint (m : ListMem L I O) (l : L) (i : I) : Option (Ptr L I) :=
  let xValueOfInsertion := m.xItemValue (.item i)
  if xValueOfInsertion = portMaxDelay then some (m.pxPrevious (.xListEnd l))
  else m.walk xValueOfInsertion (m.uxNumberOfItems l + 1) (.xListEnd l)

def vListInsert (m : ListMem L I O) (l : L) (i : I) : Option (ListMem L I O) := do
  let pxIterator ← m.insertionPoint l i
  let pxIterator ← pxIterator.deref
  let m := m.setNext (.item i) (m.pxNext pxIterator)
  let pxNext ← (m.pxNext (.item i)).deref
  let m := m.setPrevious pxNext (.item i)
  let m := m.setPrevious (.item i) pxIterator
  let m := m.setNext pxIterator (.item i)
  return m.enter l i

/-- Also returns the number of items left. -/
def uxListRemove (m : ListMem L I O) (i : I) : Option (Nat × ListMem L I O) := do
  let pxList ← m.pxContainer i
  let pxNext ← (m.pxNext (.item i)).deref
  let m := m.setPrevious pxNext (m.pxPrevious (.item i))
  let pxPrevious ← (m.pxPrevious (.item i)).deref
  let m := m.setNext pxPrevious (m.pxNext (.item i))
  -- if the walk cursor pointed at this item, step it back
  let m := if m.pxIndex pxList = .item i then m.setIndex pxList (m.pxPrevious (.item i)) else m
  let m := m.setContainer i none
  let m := m.setNumber pxList (m.uxNumberOfItems pxList - 1)
  return (m.uxNumberOfItems pxList, m)

/-- `pvOwner` of the sentinel is outside the object. -/
def ownerAt (m : ListMem L I O) : Ptr L I → Option (Option O)
  | .item i => some (m.pvOwner i)
  | _ => none

/-- `pxIndex = pxIndex->pxNext`. -/
def stepIndex (m : ListMem L I O) (l : L) : Option (ListMem L I O) := do
  let pxIndex ← (m.pxIndex l).deref
  return m.setIndex l (m.pxNext pxIndex)

/-- `listGET_OWNER_OF_NEXT_ENTRY`. -/
def listGetOwnerOfNextEntry (m : ListMem L I O) (l : L) : Option (Option O × ListMem L I O) := do
  let m ← m.stepIndex l
  let m ← if m.pxIndex l = .xListEnd l then m.stepIndex l else some m
  let owner ← m.ownerAt (m.pxIndex l)
  return (owner, m)

/-! ### What a call leaves alone -/

/-- Memory is the same at the nodes `K`, the fields of a list counted to its
    sentinel. -/
structure Keeps (K : Ptr L I → Prop) (m m' : ListMem L I O) : Prop where
  value : ∀ p, K p → m'.xItemValue p = m.xItemValue p
  next : ∀ p, K p → m'.pxNext p = m.pxNext p
  previous : ∀ p, K p → m'.pxPrevious p = m.pxPrevious p
  owner : ∀ i, K (.item i) → m'.pvOwner i = m.pvOwner i
  container : ∀ i, K (.item i) → m'.pxContainer i = m.pxContainer i
  number : ∀ l, K (.xListEnd l) → m'.uxNumberOfItems l = m.uxNumberOfItems l
  index : ∀ l, K (.xListEnd l) → m'.pxIndex l = m.pxIndex l

section Keeps

variable {K : Ptr L I → Prop} {m m' m'' : ListMem L I O}

omit [DecidableEq L] [DecidableEq I] in
theorem Keeps.refl (m : ListMem L I O) : Keeps K m m :=
  ⟨fun _ _ => rfl, fun _ _ => rfl, fun _ _ => rfl, fun _ _ => rfl, fun _ _ => rfl, fun _ _ => rfl,
    fun _ _ => rfl⟩

omit [DecidableEq L] [DecidableEq I] in
theorem Keeps.trans (h : Keeps K m m') (h' : Keeps K m' m'') : Keeps K m m'' :=
  ⟨fun p hp => (h'.value p hp).trans (h.value p hp),
    fun p hp => (h'.next p hp).trans (h.next p hp),
    fun p hp => (h'.previous p hp).trans (h.previous p hp),
    fun i hi => (h'.owner i hi).trans (h.owner i hi),
    fun i hi => (h'.container i hi).trans (h.container i hi),
    fun l hl => (h'.number l hl).trans (h.number l hl),
    fun l hl => (h'.index l hl).trans (h.index l hl)⟩

/-- The written place is not among those that are kept. -/
theorem update_of_not {α β : Type} [DecidableEq α] {P : α → Prop} {f : α → β} {a : α} {b : β}
    (ha : ¬ P a) : ∀ x, P x → Function.update f a b x = f x := by
  intro x hx
  apply Function.update_of_ne
  rintro rfl
  exact ha hx

theorem Keeps.setValue {p : Ptr L I} (hp : ¬ K p) (v : TickType) : Keeps K m (m.setValue p v) :=
  { Keeps.refl m with value := update_of_not hp }

theorem Keeps.setNext {p : Ptr L I} (hp : ¬ K p) (v : Ptr L I) : Keeps K m (m.setNext p v) :=
  { Keeps.refl m with next := update_of_not hp }

theorem Keeps.setPrevious {p : Ptr L I} (hp : ¬ K p) (v : Ptr L I) :
    Keeps K m (m.setPrevious p v) :=
  { Keeps.refl m with previous := update_of_not hp }

omit [DecidableEq L] in
theorem Keeps.setOwner {i : I} (hi : ¬ K (.item i)) (o : Option O) : Keeps K m (m.setOwner i o) :=
  { Keeps.refl m with owner := update_of_not (P := fun j => K (.item j)) hi }

omit [DecidableEq L] in
theorem Keeps.setContainer {i : I} (hi : ¬ K (.item i)) (l : Option L) :
    Keeps K m (m.setContainer i l) :=
  { Keeps.refl m with container := update_of_not (P := fun j => K (.item j)) hi }

omit [DecidableEq I] in
theorem Keeps.setNumber {l : L} (hl : ¬ K (.xListEnd l)) (n : Nat) : Keeps K m (m.setNumber l n) :=
  { Keeps.refl m with number := update_of_not (P := fun k => K (.xListEnd k)) hl }

omit [DecidableEq I] in
theorem Keeps.setIndex {l : L} (hl : ¬ K (.xListEnd l)) (p : Ptr L I) :
    Keeps K m (m.setIndex l p) :=
  { Keeps.refl m with index := update_of_not (P := fun k => K (.xListEnd k)) hl }

theorem Keeps.vListInitialise {l : L} (hl : ¬ K (.xListEnd l)) : Keeps K m (m.vListInitialise l) :=
  ((((Keeps.setIndex hl _).trans (.setValue hl _)).trans (.setNext hl _)).trans
    (.setPrevious hl _)).trans (.setNumber hl _)

theorem Keeps.vListInitialiseItem {i : I} (hi : ¬ K (.item i)) :
    Keeps K m (m.vListInitialiseItem i) :=
  ((((Keeps.setContainer hi _).trans (.setOwner hi _)).trans (.setNext hi _)).trans
    (.setPrevious hi _)).trans (.setValue hi _)

end Keeps

/-! ### What a call writes

Once the places are known between which an item goes or from between which it
comes, a call is one sequence of assignments. -/

/-- `i` is linked into `l` between `p` and `q`. -/
def linkBetween (m : ListMem L I O) (l : L) (i : I) (p q : Ptr L I) : ListMem L I O :=
  ((((m.setNext (.item i) q).setPrevious (.item i) p).setNext p (.item i)).setPrevious q
    (.item i)).enter l i

/-- `i` is unlinked from `l`, where it stands between `p` and `q`. -/
def unlinkBetween (m : ListMem L I O) (l : L) (i : I) (p q : Ptr L I) : ListMem L I O :=
  let m := (m.setPrevious q p).setNext p q
  let m := if m.pxIndex l = .item i then m.setIndex l p else m
  (m.setContainer i none).setNumber l (m.uxNumberOfItems l - 1)

theorem next_unlinkBetween (m : ListMem L I O) (l : L) (i : I) (p q : Ptr L I) :
    (m.unlinkBetween l i p q).pxNext = Function.update m.pxNext p q := by
  simp only [unlinkBetween]
  split <;> rfl

theorem previous_unlinkBetween (m : ListMem L I O) (l : L) (i : I) (p q : Ptr L I) :
    (m.unlinkBetween l i p q).pxPrevious = Function.update m.pxPrevious q p := by
  simp only [unlinkBetween]
  split <;> rfl

theorem index_unlinkBetween (m : ListMem L I O) (l : L) (i : I) (p q : Ptr L I) :
    (m.unlinkBetween l i p q).pxIndex l = if m.pxIndex l = .item i then p else m.pxIndex l := by
  have hsame : ((m.setPrevious q p).setNext p q).pxIndex = m.pxIndex := rfl
  simp only [unlinkBetween, hsame]
  split
  · simp [setIndex, setContainer, setNumber]
  · rfl

theorem number_unlinkBetween (m : ListMem L I O) (l : L) (i : I) (p q : Ptr L I) :
    (m.unlinkBetween l i p q).uxNumberOfItems l = m.uxNumberOfItems l - 1 := by
  simp only [unlinkBetween, setNumber, Function.update_self]
  split <;> rfl

theorem value_unlinkBetween (m : ListMem L I O) (l : L) (i : I) (p q : Ptr L I) :
    (m.unlinkBetween l i p q).xItemValue = m.xItemValue := by
  simp only [unlinkBetween]
  split <;> rfl

theorem owner_unlinkBetween (m : ListMem L I O) (l : L) (i : I) (p q : Ptr L I) :
    (m.unlinkBetween l i p q).pvOwner = m.pvOwner := by
  simp only [unlinkBetween]
  split <;> rfl

theorem container_unlinkBetween (m : ListMem L I O) (l : L) (i : I) (p q : Ptr L I) :
    (m.unlinkBetween l i p q).pxContainer = Function.update m.pxContainer i none := by
  simp only [unlinkBetween]
  split <;> rfl

theorem vListInsertEnd_eq {m : ListMem L I O} {l : L} {i : I} {p q : Ptr L I}
    (hindex : m.pxIndex l = q) (hq : q.deref = some q) (hqi : q ≠ .item i)
    (hprevious : m.pxPrevious q = p) (hp : p.deref = some p) :
    m.vListInsertEnd l i = some (m.linkBetween l i p q) := by
  subst hprevious
  have hkept : ((m.setNext (.item i) q).setPrevious (.item i) (m.pxPrevious q)).pxPrevious q =
      m.pxPrevious q := Function.update_of_ne hqi _ _
  simp only [vListInsertEnd, hindex, hq, Option.bind_eq_bind, Option.bind_some]
  change (Ptr.deref (ListMem.pxPrevious _ q)).bind _ = _
  rw [show (m.setNext (.item i) q).pxPrevious q = m.pxPrevious q from rfl, hkept, hp]
  rfl

theorem vListInsert_eq {m : ListMem L I O} {l : L} {i : I} {p q : Ptr L I}
    (hpoint : m.insertionPoint l i = some p) (hp : p.deref = some p) (hnext : m.pxNext p = q)
    (hq : q.deref = some q) (hqi : q ≠ .item i) :
    m.vListInsert l i = some (m.linkBetween l i p q) := by
  subst hnext
  have hnew : (m.setNext (.item i) (m.pxNext p)).pxNext (.item i) = m.pxNext p :=
    Function.update_self ..
  simp only [vListInsert, hpoint, hp, Option.bind_eq_bind, Option.bind_some, hnew, hq]
  -- the two assignments to `pxPrevious` come in the other order
  simp only [linkBetween, setPrevious, setNext, Function.update_comm hqi]
  rfl

theorem uxListRemove_eq {m : ListMem L I O} {l : L} {i : I} {p q : Ptr L I}
    (hcontainer : m.pxContainer i = some l) (hnext : m.pxNext (.item i) = q)
    (hprevious : m.pxPrevious (.item i) = p) (hp : p.deref = some p) (hq : q.deref = some q)
    (hqi : q ≠ .item i) :
    m.uxListRemove i = some (m.uxNumberOfItems l - 1, m.unlinkBetween l i p q) := by
  subst hnext hprevious
  have hnext : (m.setPrevious (m.pxNext (.item i)) (m.pxPrevious (.item i))).pxNext (.item i) =
      m.pxNext (.item i) := rfl
  have hkept : (m.setPrevious (m.pxNext (.item i)) (m.pxPrevious (.item i))).pxPrevious (.item i) =
      m.pxPrevious (.item i) := Function.update_of_ne hqi.symm _ _
  have hkept' : ((m.setPrevious (m.pxNext (.item i)) (m.pxPrevious (.item i))).setNext
      (m.pxPrevious (.item i)) (m.pxNext (.item i))).pxPrevious (.item i) =
      m.pxPrevious (.item i) := hkept
  simp only [uxListRemove, hcontainer, Option.bind_eq_bind, Option.bind_some, hq, hkept, hp, hnext,
    hkept']
  exact congrArg (fun n => some (n, _)) (number_unlinkBetween ..)

omit [DecidableEq I] in
theorem stepIndex_eq {m : ListMem L I O} {l : L} {p q : Ptr L I} (hindex : m.pxIndex l = p)
    (hp : p.deref = some p) (hnext : m.pxNext p = q) : m.stepIndex l = some (m.setIndex l q) := by
  simp only [stepIndex, hindex, hp, Option.bind_eq_bind, Option.bind_some, hnext]
  rfl

section Keeps

variable {K : Ptr L I → Prop} {m : ListMem L I O} {l : L} {i : I} {p q : Ptr L I}

theorem Keeps.linkBetween (hl : ¬ K (.xListEnd l)) (hi : ¬ K (.item i)) (hp : ¬ K p) (hq : ¬ K q) :
    Keeps K m (m.linkBetween l i p q) :=
  (((((Keeps.setNext hi _).trans (.setPrevious hi _)).trans (.setNext hp _)).trans
    (.setPrevious hq _)).trans (.setContainer hi _)).trans (.setNumber hl _)

theorem Keeps.unlinkBetween (hl : ¬ K (.xListEnd l)) (hi : ¬ K (.item i)) (hp : ¬ K p)
    (hq : ¬ K q) : Keeps K m (m.unlinkBetween l i p q) := by
  have hlinks : Keeps K m ((m.setPrevious q p).setNext p q) :=
    (Keeps.setPrevious hq _).trans (.setNext hp _)
  unfold ListMem.unlinkBetween
  simp only
  split
  · exact ((hlinks.trans (.setIndex hl _)).trans (.setContainer hi _)).trans (.setNumber hl _)
  · exact (hlinks.trans (.setContainer hi _)).trans (.setNumber hl _)

end Keeps

/-! ### Rings -/

/-- The pointer to a place of a ring. -/
def place (l : L) : Option I → Ptr L I
  | none => .xListEnd l
  | some i => .item i

/-- The nodes of a ring. -/
def nodes (l : L) (items : List I) : List (Ptr L I) := .xListEnd l :: items.map .item

/-- The links, the count and the cursor of the list `l` are those of `r`. -/
structure Represents (m : ListMem L I O) (l : L) (r : RingList I) : Prop where
  forward : Leads m.pxNext (.xListEnd l) (r.items.map .item) (.xListEnd l)
  backward : Leads m.pxPrevious (.xListEnd l) (r.items.reverse.map .item) (.xListEnd l)
  number : m.uxNumberOfItems l = r.items.length
  index : m.pxIndex l = place l r.index
  sentinel : m.xItemValue (.xListEnd l) = portMaxDelay

section Represents

omit [DecidableEq L] [DecidableEq I]

variable {m m' : ListMem L I O} {l : L} {r r' : RingList I} {i : I} {items pre post : List I}

@[simp] theorem deref_place (l : L) (x : Option I) : (place l x).deref = some (place l x) := by
  cases x <;> rfl

theorem getLastD_map_item (l : L) (items : List I) :
    (items.map Ptr.item).getLastD (.xListEnd l) = place l items.getLast? := by
  rw [List.getLastD_eq_getLast?, List.getLast?_map]
  cases items.getLast? <;> rfl

theorem headD_map_item (l : L) (items : List I) :
    (items.map Ptr.item).headD (.xListEnd l) = place l items.head? := by
  rw [List.headD_eq_head?_getD, List.head?_map]
  cases items.head? <;> rfl

theorem item_mem_nodes : Ptr.item i ∈ nodes l items ↔ i ∈ items := by
  simp [nodes]

theorem place_mem_nodes {x : Option I} (h : ∀ j, x = some j → j ∈ items) :
    place l x ∈ nodes l items := by
  cases x with
  | none => exact List.mem_cons_self ..
  | some j => exact item_mem_nodes.mpr (h j rfl)

theorem nodup_nodes (l : L) (h : items.Nodup) : (nodes l items).Nodup := by
  refine List.nodup_cons.mpr ⟨by simp, ?_⟩
  refine h.map ?_
  intro i j heq
  exact Ptr.item.inj heq

theorem place_eq_item {x : Option I} : place l x = .item i ↔ x = some i := by
  cases x with
  | none => simp [place]
  | some j => simp [place]

/-- A list whose nodes and own fields were left alone. -/
theorem Represents.kept (h : m.Represents l r) (hkept : Keeps (· ∈ nodes l r.items) m m') :
    m'.Represents l r := by
  have hend : Ptr.xListEnd l ∈ nodes l r.items := List.mem_cons_self ..
  refine ⟨?_, ?_, ?_, ?_, ?_⟩
  · apply h.forward.congr
    exact hkept.next
  · apply h.backward.congr
    intro p hp
    apply hkept.previous p
    simpa [nodes] using hp
  · rw [hkept.number l hend]
    exact h.number
  · rw [hkept.index l hend]
    exact h.index
  · rw [hkept.value _ hend]
    exact h.sentinel

theorem Represents.split (h : m.Represents l r) (hitems : r.items = pre ++ post) :
    m.pxNext (place l pre.getLast?) = place l post.head? ∧
      m.pxPrevious (place l post.head?) = place l pre.getLast? := by
  have hforward := h.forward
  have hbackward := h.backward
  rw [hitems, List.map_append] at hforward
  rw [hitems, List.reverse_append, List.map_append] at hbackward
  have hnext := (leads_append.mp hforward).2.next_head
  have hprevious := (leads_append.mp hbackward).2.next_head
  rw [getLastD_map_item, headD_map_item] at hnext hprevious
  rw [List.getLast?_reverse, List.head?_reverse] at hprevious
  exact ⟨hnext, hprevious⟩

theorem Represents.around (h : m.Represents l r) (hitems : r.items = pre ++ i :: post) :
    m.pxNext (.item i) = place l post.head? ∧ m.pxPrevious (.item i) = place l pre.getLast? := by
  have hcut : r.items = (pre ++ [i]) ++ post := by simp [hitems]
  have hafter := (h.split hcut).1
  have hbefore := (h.split hitems).2
  rw [List.getLast?_append_cons, List.getLast?_singleton] at hafter
  exact ⟨hafter, hbefore⟩

end Represents

variable {m : ListMem L I O} {l : L} {r r' : RingList I} {i : I} {pre post : List I}

theorem represents_vListInitialise (m : ListMem L I O) (l : L) :
    (m.vListInitialise l).Represents l RingList.empty := by
  refine ⟨?_, ?_, ?_, ?_, ?_⟩ <;> exact Function.update_self ..

theorem Represents.linkBetween (h : m.Represents l r) (hi : i ∉ r.items)
    (hitems : r.items = pre ++ post) (hitems' : r'.items = pre ++ i :: post)
    (hindex : r'.index = r.index) :
    (m.linkBetween l i (place l pre.getLast?) (place l post.head?)).Represents l r' := by
  have hlast : place l pre.getLast? ≠ .item i := by
    rw [Ne, place_eq_item]
    intro hlast
    exact hi (hitems ▸ List.mem_append_left _ (List.mem_of_getLast? hlast))
  have hhead : place l post.head? ≠ .item i := by
    rw [Ne, place_eq_item]
    intro hhead
    exact hi (hitems ▸ List.mem_append_right _ (List.mem_of_head? hhead))
  have hnodup := nodup_nodes l r.nodup
  have hnodup' := nodup_nodes l (List.nodup_reverse.mpr r.nodup)
  have hfresh : Ptr.item i ∉ nodes l r.items := fun hmem => hi (item_mem_nodes.mp hmem)
  have hfresh' : Ptr.item i ∉ nodes l r.items.reverse :=
    fun hmem => hi (List.mem_reverse.mp (item_mem_nodes.mp hmem))
  have hforward := h.forward
  have hbackward := h.backward
  rw [hitems, nodes, List.map_append] at hnodup hfresh
  rw [hitems, List.reverse_append, nodes, List.map_append] at hnodup' hfresh'
  rw [hitems, List.map_append] at hforward
  rw [hitems, List.reverse_append, List.map_append] at hbackward
  refine ⟨?_, ?_, ?_, h.index.trans (by rw [hindex]), h.sentinel⟩
  · rw [hitems', List.map_append, List.map_cons]
    apply hforward.insert hnodup hfresh
    · rw [getLastD_map_item]
      exact Function.update_self ..
    · rw [headD_map_item]
      exact (Function.update_of_ne hlast.symm ..).trans (Function.update_self ..)
    · rw [getLastD_map_item]
      intro p hp hp'
      exact (Function.update_of_ne hp' ..).trans (Function.update_of_ne hp ..)
  · -- in the reversed ring the two parts change places
    rw [hitems', List.reverse_append, List.reverse_cons, List.append_assoc, List.singleton_append,
      List.map_append, List.map_cons]
    apply hbackward.insert hnodup' hfresh'
    · rw [getLastD_map_item, List.getLast?_reverse]
      exact Function.update_self ..
    · rw [headD_map_item, List.head?_reverse]
      exact (Function.update_of_ne hhead.symm ..).trans (Function.update_self ..)
    · rw [getLastD_map_item, List.getLast?_reverse]
      intro p hp hp'
      exact (Function.update_of_ne hp' ..).trans (Function.update_of_ne hp ..)
  · have hnumber : (m.linkBetween l i (place l pre.getLast?) (place l post.head?)).uxNumberOfItems l
        = m.uxNumberOfItems l + 1 := Function.update_self ..
    rw [hnumber, h.number, hitems, hitems']
    simp [Nat.add_assoc]

/-- `i` is taken out from between the two parts of the ring. -/
theorem Represents.unlinkBetween (h : m.Represents l r) (hitems : r.items = pre ++ i :: post)
    (hpre : i ∉ pre) :
    (m.unlinkBetween l i (place l pre.getLast?) (place l post.head?)).Represents l (r.remove i) := by
  obtain ⟨hafter, hbefore⟩ := h.around hitems
  have hremove : (r.remove i).items = pre ++ post := by
    change r.items.erase i = _
    rw [hitems, List.erase_append_right _ hpre, List.erase_cons_head]
  have hnodup := nodup_nodes l r.nodup
  have hnodup' := nodup_nodes l (List.nodup_reverse.mpr r.nodup)
  have hreverse : r.items.reverse = post.reverse ++ i :: pre.reverse := by
    rw [hitems]
    simp
  have hforward := h.forward
  have hbackward := h.backward
  rw [hitems, nodes, List.map_append, List.map_cons] at hnodup
  rw [hreverse, nodes, List.map_append, List.map_cons] at hnodup'
  rw [hitems, List.map_append, List.map_cons] at hforward
  rw [hreverse, List.map_append, List.map_cons] at hbackward
  refine ⟨?_, ?_, ?_, ?_, ?_⟩
  · rw [next_unlinkBetween, hremove, List.map_append]
    apply hforward.remove hnodup
    · rw [getLastD_map_item, hafter]
      exact Function.update_self ..
    · rw [getLastD_map_item]
      intro p hp
      exact Function.update_of_ne hp ..
  · rw [previous_unlinkBetween, hremove, List.reverse_append, List.map_append]
    apply hbackward.remove hnodup'
    · rw [getLastD_map_item, List.getLast?_reverse, hbefore]
      exact Function.update_self ..
    · rw [getLastD_map_item, List.getLast?_reverse]
      intro p hp
      exact Function.update_of_ne hp ..
  · rw [number_unlinkBetween, h.number, hremove, hitems]
    simp
  · -- a cursor on the item steps back to its predecessor
    have hpred : pred i r.items = pre.getLast? := by
      rw [pred, hitems, takeWhile_ne_append hpre]
    change _ = place l (if r.index = some i then pred i r.items else r.index)
    rw [index_unlinkBetween, h.index, hpred, apply_ite (place l)]
    simp only [place_eq_item]
  · rw [value_unlinkBetween]
    exact h.sentinel

/-! ### The functions of `list.c` on rings -/

omit [DecidableEq L] [DecidableEq I] in
/-- The walk from behind `pre` stops behind the values that do not exceed `v`. -/
theorem Represents.walk (h : m.Represents l r) {v : TickType} (hv : v ≠ portMaxDelay) :
    ∀ {post pre : List I} {fuel : Nat}, r.items = pre ++ post → post.length < fuel →
      m.walk v fuel (place l pre.getLast?) = some (place l (pre ++
        post.takeWhile fun j => decide (m.xItemValue (.item j) ≤ v)).getLast?) := by
  intro post
  induction post with
  | nil =>
    intro pre fuel hitems hfuel
    obtain ⟨fuel, rfl⟩ := Nat.exists_eq_succ_of_ne_zero (Nat.ne_of_gt hfuel)
    -- the sentinel's value stops the walk
    have hstop : ¬ m.xItemValue (.xListEnd l) ≤ v := by
      rw [h.sentinel, UInt32.le_iff_toNat_le]
      intro hle
      have hlt := UInt32.toNat_lt v
      exact hv (UInt32.toNat_inj.mp (Nat.le_antisymm (Nat.le_of_lt_succ hlt) hle))
    have hnext : m.pxNext (place l pre.getLast?) = .xListEnd l := (h.split hitems).1
    simp [ListMem.walk, hnext, Ptr.deref, hstop]
  | cons j post ih =>
    intro pre fuel hitems hfuel
    obtain ⟨fuel, rfl⟩ := Nat.exists_eq_succ_of_ne_zero (Nat.ne_zero_of_lt hfuel)
    have hnext : m.pxNext (place l pre.getLast?) = .item j := (h.split hitems).1
    by_cases hle : m.xItemValue (.item j) ≤ v
    · have hcut : r.items = (pre ++ [j]) ++ post := by simp [hitems]
      have hrest := ih hcut (Nat.lt_of_succ_lt_succ hfuel)
      rw [List.getLast?_append_cons, List.getLast?_singleton, List.append_assoc] at hrest
      simp only [ListMem.walk, hnext, Ptr.deref, Option.bind_eq_bind, Option.bind_some, if_pos hle,
        List.takeWhile_cons, decide_eq_true hle, if_true]
      exact hrest
    · simp [ListMem.walk, hnext, Ptr.deref, hle]

omit [DecidableEq L] [DecidableEq I] in
/-- `vListInsert` links behind the values that do not exceed the new one.  For
    `portMAX_DELAY` the walk would not stop at the sentinel, and there is none. -/
theorem Represents.insertionPoint (h : m.Represents l r) (i : I) :
    m.insertionPoint l i = some (place l (r.items.takeWhile fun j =>
      decide (m.xItemValue (.item j) ≤ m.xItemValue (.item i))).getLast?) := by
  unfold ListMem.insertionPoint
  simp only
  split
  · -- no value exceeds the sentinel's: the item goes before the sentinel
    rename_i hmax
    have hall : ∀ j ∈ r.items,
        decide (m.xItemValue (.item j) ≤ m.xItemValue (.item i)) = true := by
      intro j _
      rw [hmax, decide_eq_true_iff, UInt32.le_iff_toNat_le]
      exact Nat.le_of_lt_succ (UInt32.toNat_lt _)
    rw [List.takeWhile_eq_self_iff.mpr hall]
    exact congrArg some (h.split (List.append_nil _).symm).2
  · rename_i hmax
    have hfuel : r.items.length < m.uxNumberOfItems l + 1 := by
      rw [h.number]
      exact Nat.lt_succ_self _
    exact h.walk hmax (List.nil_append _).symm hfuel

omit [DecidableEq L] in
theorem Represents.next_place (h : m.Represents l r) {x : Option I}
    (hx : ∀ j, x = some j → j ∈ r.items) : m.pxNext (place l x) = place l (succ r.items x) := by
  cases x with
  | none => exact (h.split (List.nil_append _).symm).1
  | some j =>
    obtain ⟨pre, post, hitems, hj, -⟩ := RingList.exists_cut_of_mem (hx j rfl)
    rw [hitems, succ_append hj]
    exact (h.around hitems).1

/-- The walk links the new item behind the last value that does not exceed its
    own. -/
theorem Represents.vListInsert (h : m.Represents l r) (hi : i ∉ r.items) :
    m.vListInsert l i = some (m.linkBetween l i
      (place l (r.items.takeWhile fun j =>
        decide (m.xItemValue (.item j) ≤ m.xItemValue (.item i))).getLast?)
      (place l (r.items.dropWhile fun j =>
        decide (m.xItemValue (.item j) ≤ m.xItemValue (.item i))).head?)) := by
  have hsplit := h.split (List.takeWhile_append_dropWhile
    (p := fun j => decide (m.xItemValue (.item j) ≤ m.xItemValue (.item i)))).symm
  apply ListMem.vListInsert_eq (h.insertionPoint i) (deref_place ..) hsplit.1 (deref_place ..)
  rw [Ne, place_eq_item]
  intro hhead
  exact hi ((List.dropWhile_suffix _).subset (List.mem_of_head? hhead))

theorem Represents.vListInsertEnd (h : m.Represents l r) (hi : i ∉ r.items) :
    m.vListInsertEnd l i = some (m.linkBetween l i
      (place l (r.items.takeWhile fun j => decide (some j ≠ r.index)).getLast?)
      (place l (r.items.dropWhile fun j => decide (some j ≠ r.index)).head?)) := by
  have hsplit := h.split (List.takeWhile_append_dropWhile
    (p := fun j => decide (some j ≠ r.index))).symm
  rw [r.head?_dropWhile_index] at hsplit ⊢
  apply ListMem.vListInsertEnd_eq h.index (deref_place ..) _ hsplit.2 (deref_place ..)
  rw [Ne, place_eq_item]
  intro hindex
  exact hi (r.index_mem i hindex)

theorem Represents.uxListRemove (h : m.Represents l r) (hitems : r.items = pre ++ i :: post)
    (hpost : i ∉ post) (hcontainer : m.pxContainer i = some l) :
    m.uxListRemove i = some (m.uxNumberOfItems l - 1,
      m.unlinkBetween l i (place l pre.getLast?) (place l post.head?)) := by
  obtain ⟨hafter, hbefore⟩ := h.around hitems
  apply ListMem.uxListRemove_eq hcontainer hafter hbefore (deref_place ..) (deref_place ..)
  rw [Ne, place_eq_item]
  intro hhead
  exact hpost (List.mem_of_head? hhead)

/-- The cursor moves to the next item, stepping over the sentinel once. -/
theorem Represents.listGetOwnerOfNextEntry (h : m.Represents l r)
    (hindex : r.advance.index = some i) :
    m.listGetOwnerOfNextEntry l = some (m.pvOwner i, m.setIndex l (.item i)) := by
  have hstep := stepIndex_eq h.index (deref_place ..) (h.next_place r.index_mem)
  change next r.items r.index = some i at hindex
  unfold next at hindex
  split at hindex
  · -- the first step reached the sentinel
    rename_i hnone
    have hat : (m.setIndex l (.xListEnd l)).pxIndex l = .xListEnd l := Function.update_self ..
    have hnext : (m.setIndex l (.xListEnd l)).pxNext (.xListEnd l) = .item i := by
      have hnext := h.next_place (x := none) (by simp)
      rw [hindex] at hnext
      exact hnext
    have hstep' := stepIndex_eq hat rfl hnext
    rw [hnone] at hstep
    simp only [ListMem.listGetOwnerOfNextEntry, hstep, place, Option.bind_eq_bind, Option.bind_some,
      hat, if_true, hstep']
    simp [setIndex, ownerAt]
  · rename_i j hsome
    cases hindex
    rw [hsome] at hstep
    have hat : (m.setIndex l (.item i)).pxIndex l = .item i := Function.update_self ..
    simp only [ListMem.listGetOwnerOfNextEntry, hstep, place, Option.bind_eq_bind, Option.bind_some,
      hat, reduceCtorEq, if_false, ownerAt]
    rfl

theorem Represents.setIndex (h : m.Represents l r) (hindex : r.advance.index = some i) :
    (m.setIndex l (.item i)).Represents l r.advance :=
  ⟨h.forward, h.backward, h.number, (Function.update_self ..).trans (by rw [hindex]; rfl), h.sentinel⟩

end ListMem

end FlintRTOS
