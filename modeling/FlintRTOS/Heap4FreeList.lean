import FlintRTOS.Heap4
import FlintRTOS.LinkedChain
import FlintRTOS.Tiling

/-!
# The free list of the heap

What the two loops find and what `prvInsertBlockIntoFreeList` makes of the free
list: in memory it does what `Tiling.insertBlock` does to the list of free blocks,
whichever neighbours the block is joined with.
-/

namespace FlintRTOS

namespace Heap4

open Tiling

variable {pool : Pool} {mem : Nat → BlockLink}

/-! ### Headers and `size_t` -/

variable {a p x n b pxEnd : Nat} {l l' : List (Nat × Nat)}

@[simp] theorem setNext_self : setNext mem a p a = { mem a with pxNextFreeBlock := p } :=
  Function.update_self ..

theorem setNext_of_ne (h : x ≠ a) : setNext mem a p x = mem x :=
  Function.update_of_ne h ..

theorem setSize_of_ne (h : x ≠ a) : setSize mem a n x = mem x :=
  Function.update_of_ne h ..

@[simp] theorem setSize_self : setSize mem a n a = { mem a with xBlockSize := n } :=
  Function.update_self ..

@[simp] theorem xBlockSize_setNext : (setNext mem a p x).xBlockSize = (mem x).xBlockSize := by
  by_cases h : x = a
  · subst h
    simp
  · rw [setNext_of_ne h]

@[simp] theorem pxNextFreeBlock_setSize :
    (setSize mem a n x).pxNextFreeBlock = (mem x).pxNextFreeBlock := by
  by_cases h : x = a
  · subst h
    simp
  · rw [setSize_of_ne h]

theorem sizeAdd_eq (h : a + b < 2 ^ 64) : sizeAdd a b = a + b :=
  Nat.mod_eq_of_lt h

theorem sizeSub_eq (hle : b ≤ a) (ha : a < 2 ^ 64) : sizeSub a b = a - b := by
  unfold sizeSub
  omega

/-! ### The list in memory -/

/-- The link of a block. -/
def links (mem : Nat → BlockLink) (a : Nat) : Nat := (mem a).pxNextFreeBlock

@[simp] theorem links_setSize : links (setSize mem a n) = links mem := by
  funext x
  exact pxNextFreeBlock_setSize

theorem links_setNext_of_ne (h : x ≠ a) : links (setNext mem a p) x = links mem x := by
  unfold links
  rw [setNext_of_ne h]

@[simp] theorem links_setNext_self : links (setNext mem a p) a = p := by
  simp [links]

abbrev addresses (l : List (Nat × Nat)) : List Nat := l.map Prod.fst

theorem addresses_append : addresses (l ++ l') = addresses l ++ addresses l' :=
  List.map_append

/-- The free list in memory is `l`, blocks with their sizes, and ends at `pxEnd`. -/
structure FreeList (pool : Pool) (mem : Nat → BlockLink) (pxEnd : Nat) (l : List (Nat × Nat)) :
    Prop where
  linked : Leads (links mem) pool.xStart (addresses l) pxEnd
  sizes : ∀ x ∈ l, (mem x.1).xBlockSize = x.2
  start : (mem pool.xStart).xBlockSize = 0
  ending : mem pxEnd = ⟨0, 0⟩

/-- The list is as it was in a memory that agrees on its headers. -/
theorem FreeList.congr {mem' : Nat → BlockLink} (h : FreeList pool mem pxEnd l)
    (hkept : ∀ x ∈ pool.xStart :: pxEnd :: addresses l, mem' x = mem x) :
    FreeList pool mem' pxEnd l := by
  have hstart : mem' pool.xStart = mem pool.xStart := hkept _ (by simp)
  have hnodes : ∀ x ∈ addresses l, mem' x = mem x := by
    intro x hx
    exact hkept x (List.mem_cons_of_mem _ (List.mem_cons_of_mem _ hx))
  constructor
  · apply h.linked.congr
    intro x hx
    unfold links
    rcases List.mem_cons.mp hx with rfl | hx
    · rw [hstart]
    · rw [hnodes x hx]
  · intro x hx
    rw [hnodes x.1 (List.mem_map_of_mem hx)]
    exact h.sizes x hx
  · rw [hstart]
    exact h.start
  · rw [hkept pxEnd (by simp)]
    exact h.ending

/-! ### Inserting -/

/-- The loop stops at the last block below the one to insert. -/
theorem insertionPoint_spec {e : Nat} {l l' : List Nat} :
    ∀ {fuel p : Nat},
    Leads (links mem) p (l ++ l') e → (∀ x ∈ l, x < b) → b ≤ l'.headD e → l.length < fuel →
    insertionPoint mem b fuel p = some (l.getLastD p) := by
  induction l with
  | nil =>
    intro fuel p hlinked _ hb hfuel
    obtain ⟨fuel, rfl⟩ := Nat.exists_eq_add_of_lt hfuel
    have hnext : (mem p).pxNextFreeBlock = l'.headD e := hlinked.next_head
    rw [insertionPoint, if_neg]
    · rfl
    · omega
  | cons a l ih =>
    intro fuel p hlinked hlt hb hfuel
    cases fuel with
    | zero => exact absurd hfuel (Nat.not_lt_zero _)
    | succ fuel =>
      have hnext : (mem p).pxNextFreeBlock = a := hlinked.1
      have ha : a < b := hlt a (List.mem_cons_self ..)
      rw [insertionPoint, hnext, if_pos ha, List.getLastD_cons]
      apply ih hlinked.2 _ hb
      · simpa using hfuel
      · intro x hx
        exact hlt x (List.mem_cons_of_mem _ hx)

/-- The second half of the insertion: the block `a`, not below the one the loop
    stopped at, is joined with what follows or keeps its size, and its link leads
    on through the rest. -/
theorem coalesceNext_spec {it k : Nat} (hlinked : Leads (links mem) it (addresses l) pxEnd)
    (hsizes : ∀ x ∈ l, (mem x.1).xBlockSize = x.2) (hk : (mem a).xBlockSize = k)
    (hafter : ∀ x ∈ l, a + k ≤ x.1 ∧ x.1 + x.2 ≤ pxEnd) (htop : pxEnd < 2 ^ 64)
    (hnodup : (a :: (addresses l ++ [pxEnd])).Nodup) :
    ∃ k' l', joinBlocks a k l = (a, k') :: l' ∧ l' <:+ l ∧
      (coalesceNext pxEnd mem it a a).xBlockSize = k' ∧
      Leads (links (coalesceNext pxEnd mem it a)) a (addresses l') pxEnd ∧
      ∀ x, x ≠ a → coalesceNext pxEnd mem it a x = mem x := by
  have hnext : (mem it).pxNextFreeBlock = (addresses l).headD pxEnd := hlinked.next_head
  have hnode : ∀ x ∈ addresses l, x ≠ a := by
    rintro x hx rfl
    exact (List.nodup_cons.mp hnodup).1 (List.mem_append_left _ hx)
  obtain ⟨m, l', rfl, hjoin⟩ | ⟨hapart, hjoin⟩ := joinBlocks_cases a k l
  · -- the next block begins where `a` ends
    have hne : a + k ≠ pxEnd := by
      intro heq
      simp [heq] at hnodup
    have hfits : k + m < 2 ^ 64 := by
      have := (hafter (a + k, m) (List.mem_cons_self ..)).2
      simp only at this
      omega
    have hm : (mem (a + k)).xBlockSize = m := hsizes (a + k, m) (List.mem_cons_self ..)
    have hnext' : (mem it).pxNextFreeBlock = a + k := by simpa using hnext
    have hmem : coalesceNext pxEnd mem it a =
        setNext (setSize mem a (k + m)) a (mem (a + k)).pxNextFreeBlock := by
      simp [coalesceNext, hnext', hk, hne, hm, sizeAdd_eq hfits]
    refine ⟨k + m, l', hjoin, List.suffix_cons .., ?_, ?_, ?_⟩
    · simp [hmem]
    · rw [hmem]
      apply hlinked.2.reroot
      · rw [links_setNext_self]
        exact hlinked.2.next_head
      · intro x hx
        rw [links_setNext_of_ne (hnode x (List.mem_cons_of_mem _ hx)), links_setSize]
    · intro x hx
      rw [hmem, setNext_of_ne hx, setSize_of_ne hx]
  · -- it does not, or there is none
    have hmem : coalesceNext pxEnd mem it a = setNext mem a ((addresses l).headD pxEnd) := by
      cases l with
      | nil =>
        simp only [List.map_nil, List.headD_nil] at hnext
        simp [coalesceNext, hnext]
      | cons x l =>
        have hx : a + k ≠ x.1 := hapart x rfl
        simp only [List.map_cons, List.headD_cons] at hnext
        simp [coalesceNext, hnext, hk, hx]
    refine ⟨k, l, hjoin, List.suffix_refl _, ?_, ?_, ?_⟩
    · simp [hmem, hk]
    · rw [hmem]
      apply hlinked.reroot links_setNext_self
      intro x hx
      exact links_setNext_of_ne (hnode x hx)
    · intro x hx
      rw [hmem, setNext_of_ne hx]

/-- Room for the block `(b, n)` between `l` and `l'`. -/
structure Gap (pool : Pool) (pxEnd : Nat) (l : List (Nat × Nat)) (b n : Nat)
    (l' : List (Nat × Nat)) : Prop where
  nodup : (pool.xStart :: addresses l ++ b :: (addresses l' ++ [pxEnd])).Nodup
  before : ∀ x ∈ l, x.1 < b
  after : ∀ x ∈ l', b + n ≤ x.1 ∧ x.1 + x.2 ≤ pxEnd
  top : b + n ≤ pxEnd
  top_lt : pxEnd < 2 ^ 64
  length_lt : l.length < pool.fuel

theorem Gap.insertionPoint (hgap : Gap pool pxEnd l b n l')
    (hlist : FreeList pool mem pxEnd (l ++ l')) :
    insertionPoint mem b pool.fuel pool.xStart = some ((addresses l).getLastD pool.xStart) := by
  have hlinked := hlist.linked
  rw [addresses_append] at hlinked
  apply insertionPoint_spec hlinked
  · intro x hx
    obtain ⟨y, hy, rfl⟩ := List.mem_map.mp hx
    exact hgap.before y hy
  · cases l' with
    | nil => exact (Nat.le_add_right b n).trans hgap.top
    | cons x l' => exact (Nat.le_add_right b n).trans (hgap.after x (List.mem_cons_self ..)).1
  · simpa using hgap.length_lt

/-- A block `a` is linked in after `l`: its own link leads on through `l''`, the
    block before leads to it, and no other header is written. -/
theorem FreeList.place {mem' : Nat → BlockLink} {k : Nat} {l'' : List (Nat × Nat)}
    (hlist : FreeList pool mem pxEnd (l ++ l')) (hsub : l'' ⊆ l')
    (hnodup : (pool.xStart :: addresses l ++ a :: (addresses l'' ++ [pxEnd])).Nodup)
    (hlast : links mem' ((addresses l).getLastD pool.xStart) = a) (hsize : (mem' a).xBlockSize = k)
    (hright : Leads (links mem') a (addresses l'') pxEnd)
    (hsizes : ∀ x, x ≠ a → (mem' x).xBlockSize = (mem x).xBlockSize)
    (hkept : ∀ x, x ≠ a → x ≠ (addresses l).getLastD pool.xStart → mem' x = mem x) :
    FreeList pool mem' pxEnd (l ++ (a, k) :: l'') := by
  obtain ⟨hnodupl, hnodupr, hdisjoint⟩ := List.nodup_append.mp hnodup
  obtain ⟨hafter, -⟩ := List.nodup_cons.mp hnodupr
  have hbefore : ∀ x ∈ pool.xStart :: addresses l, x ≠ a := by
    intro x hx
    exact hdisjoint x hx a (List.mem_cons_self ..)
  constructor
  · have hlinked := hlist.linked
    rw [addresses_append] at hlinked
    rw [addresses_append]
    apply (leads_append.mp hlinked).1.link hnodupl _ hlast hright
    intro x hx hne
    unfold links
    rw [hkept x (hbefore x hx) hne]
  · intro x hx
    rcases List.mem_append.mp hx with hx | hx
    · rw [hsizes x.1 (hbefore x.1 (List.mem_cons_of_mem _ (List.mem_map_of_mem hx)))]
      exact hlist.sizes x (List.mem_append_left _ hx)
    · rcases List.mem_cons.mp hx with rfl | hx
      · exact hsize
      · rw [hsizes]
        · exact hlist.sizes x (List.mem_append_right _ (hsub hx))
        · intro heq
          apply hafter
          rw [← heq]
          exact List.mem_append_left _ (List.mem_map_of_mem hx)
  · rw [hsizes _ (hbefore _ (List.mem_cons_self ..))]
    exact hlist.start
  · rw [hkept]
    · exact hlist.ending
    · rintro rfl
      exact hafter (by simp)
    · exact (hdisjoint _ List.getLastD_mem_cons pxEnd (by simp)).symm

/-- The block before ends where the new one begins: it grows, and may grow over the
    block after as well. -/
theorem FreeList.joinPrevious {m : Nat} (hlist : FreeList pool mem pxEnd (l ++ (a, m) :: l'))
    (hgap : Gap pool pxEnd (l ++ [(a, m)]) b n l') (hb : a + m = b) :
    FreeList pool (coalesceNext pxEnd (setSize mem a (m + n)) a a) pxEnd
        (l ++ joinBlocks a (m + n) l') ∧
      ∀ x, x ≠ a → coalesceNext pxEnd (setSize mem a (m + n)) a a x = mem x := by
  have hnodup : (pool.xStart :: addresses l ++ a :: (addresses l' ++ [pxEnd])).Nodup := by
    refine List.Nodup.sublist ?_ hgap.nodup
    simp [addresses]
  obtain ⟨-, hnodupr, hdisjoint⟩ := List.nodup_append.mp hnodup
  have hnode : ∀ x ∈ l', x.1 ≠ a := by
    rintro x hx rfl
    exact (List.nodup_cons.mp hnodupr).1 (List.mem_append_left _ (List.mem_map_of_mem hx))
  have hlinked := hlist.linked
  rw [addresses_append] at hlinked
  obtain ⟨-, hlast, hright⟩ := leads_append.mp hlinked
  have hright' : Leads (links (setSize mem a (m + n))) a (addresses l') pxEnd := by
    rw [links_setSize]
    exact hright
  have hsizes : ∀ x ∈ l', (setSize mem a (m + n) x.1).xBlockSize = x.2 := by
    intro x hx
    rw [setSize_of_ne (hnode x hx)]
    exact hlist.sizes x (by simp [hx])
  have hgrown : (setSize mem a (m + n) a).xBlockSize = m + n := by simp
  have hafter : ∀ x ∈ l', a + (m + n) ≤ x.1 ∧ x.1 + x.2 ≤ pxEnd := by
    intro x hx
    rw [← Nat.add_assoc, hb]
    exact hgap.after x hx
  obtain ⟨k, l'', hjoin, hsuffix, hsize, hrest, hkept⟩ :=
    coalesceNext_spec hright' hsizes hgrown hafter hgap.top_lt hnodupr
  have hother : ∀ x, x ≠ a → coalesceNext pxEnd (setSize mem a (m + n)) a a x = mem x := by
    intro x hx
    rw [hkept x hx, setSize_of_ne hx]
  refine ⟨?_, hother⟩
  rw [hjoin]
  apply hlist.place
  · exact fun x hx => List.mem_cons_of_mem _ (hsuffix.subset hx)
  · refine List.Nodup.sublist ?_ hnodup
    have hsub := hsuffix.sublist.map Prod.fst
    simp [addresses, hsub]
  · unfold links
    rw [hother _ (hdisjoint _ List.getLastD_mem_cons a (List.mem_cons_self ..))]
    exact hlast
  · exact hsize
  · exact hrest
  · intro x hx
    rw [hother x hx]
  · intro x hx _
    exact hother x hx

/-- The block before does not reach the new one, which is linked in after it. -/
theorem FreeList.linkAfter (hlist : FreeList pool mem pxEnd (l ++ l')) (hb : (mem b).xBlockSize = n)
    (hgap : Gap pool pxEnd l b n l') : let it := (addresses l).getLastD pool.xStart
    FreeList pool (setNext (coalesceNext pxEnd mem it b) it b) pxEnd (l ++ joinBlocks b n l') ∧
      (∀ x, x ≠ b → x ≠ it → setNext (coalesceNext pxEnd mem it b) it b x = mem x) ∧
      ∀ x, x ≠ b → (setNext (coalesceNext pxEnd mem it b) it b x).xBlockSize =
        (mem x).xBlockSize := by
  intro it
  obtain ⟨-, hnodupr, hdisjoint⟩ := List.nodup_append.mp hgap.nodup
  have hlinked := hlist.linked
  rw [addresses_append] at hlinked
  obtain ⟨-, hright⟩ := leads_append.mp hlinked
  have hsizes : ∀ x ∈ l', (mem x.1).xBlockSize = x.2 := by
    intro x hx
    exact hlist.sizes x (List.mem_append_right _ hx)
  obtain ⟨k, l'', hjoin, hsuffix, hsize, hrest, hkept⟩ :=
    coalesceNext_spec hright hsizes hb hgap.after hgap.top_lt hnodupr
  have hit : ∀ x ∈ b :: (addresses l' ++ [pxEnd]), x ≠ it := by
    intro x hx
    exact (hdisjoint it List.getLastD_mem_cons x hx).symm
  have hother : ∀ x, x ≠ b → x ≠ it →
      setNext (coalesceNext pxEnd mem it b) it b x = mem x := by
    intro x hxb hxit
    rw [setNext_of_ne hxit, hkept x hxb]
  have hsame : ∀ x, x ≠ b → (setNext (coalesceNext pxEnd mem it b) it b x).xBlockSize =
      (mem x).xBlockSize := by
    intro x hx
    rw [xBlockSize_setNext, hkept x hx]
  have hrest' : Leads (links (setNext (coalesceNext pxEnd mem it b) it b)) b
      (addresses l'') pxEnd := by
    apply hrest.reroot
    · rw [links_setNext_of_ne (hit b (List.mem_cons_self ..))]
      exact hrest.next_head
    · intro x hx
      apply links_setNext_of_ne
      apply hit
      obtain ⟨y, hy, rfl⟩ := List.mem_map.mp hx
      have hy' : y.1 ∈ addresses l' := List.mem_map_of_mem (hsuffix.subset hy)
      exact List.mem_cons_of_mem _ (List.mem_append_left _ hy')
  refine ⟨?_, hother, hsame⟩
  rw [hjoin]
  apply hlist.place
  · exact fun x hx => hsuffix.subset hx
  · refine List.Nodup.sublist ?_ hgap.nodup
    have hsub := hsuffix.sublist.map Prod.fst
    simp [addresses, hsub]
  · exact links_setNext_self
  · rw [xBlockSize_setNext]
    exact hsize
  · exact hrest'
  · exact hsame
  · exact hother

theorem head_mem_joinBlocks (a n : Nat) (l : List (Nat × Nat)) :
    a ∈ addresses (joinBlocks a n l) := by
  obtain ⟨m, l₁, -, hjoin⟩ | ⟨-, hjoin⟩ := joinBlocks_cases a n l
  · simp [hjoin, addresses]
  · simp [hjoin, addresses]

/-- `prvInsertBlockIntoFreeList` returns, puts the block into the list joined with
    the free blocks it touches, and writes no header but the block's and those of
    the list.  Only blocks that are on the list afterwards change their size. -/
theorem prvInsertBlockIntoFreeList_spec {h : Heap} (hlist : FreeList pool h.mem h.pxEnd (l ++ l'))
    (hb : (h.mem b).xBlockSize = n) (hgap : Gap pool h.pxEnd l b n l') :
    ∃ mem', prvInsertBlockIntoFreeList pool b h = some { h with mem := mem' } ∧
      FreeList pool mem' h.pxEnd (insertBlock l b n l') ∧
      (∀ x, x ≠ b → x ∉ pool.xStart :: addresses l → mem' x = h.mem x) ∧
      ∀ x, x ∉ addresses (insertBlock l b n l') →
        (mem' x).xBlockSize = (h.mem x).xBlockSize := by
  have hpoint := hgap.insertionPoint hlist
  obtain ⟨l₀, a, m, rfl, hab, hinsert⟩ | ⟨hapart, hinsert⟩ := insertBlock_cases l b n l'
  · have hlast : (addresses (l₀ ++ [(a, m)])).getLastD pool.xStart = a := by
      simp [addresses, List.getLastD_eq_getLast?]
    have hlist' : FreeList pool h.mem h.pxEnd (l₀ ++ (a, m) :: l') := by simpa using hlist
    have hm : (h.mem a).xBlockSize = m := hlist'.sizes (a, m) (by simp)
    have hfits : m + n < 2 ^ 64 := by
      have htop := hgap.top
      have htop' := hgap.top_lt
      omega
    obtain ⟨hjoined, hkept⟩ := hlist'.joinPrevious hgap hab
    refine ⟨_, ?_, hinsert ▸ hjoined, ?_, ?_⟩
    · rw [prvInsertBlockIntoFreeList, hpoint, hlast, Option.bind_eq_bind, Option.bind_some,
        coalescePrevious, hm, if_pos hab, hb, sizeAdd_eq hfits]
      dsimp only
      rw [linkBlock, if_neg (not_not.mpr rfl)]
      rfl
    · intro x _ hx
      apply hkept
      rintro rfl
      exact hx (by simp [addresses])
    · intro x hx
      rw [hkept]
      rintro rfl
      rw [hinsert, addresses_append] at hx
      exact hx (List.mem_append_right _ (head_mem_joinBlocks ..))
  · have hne : ∀ x ∈ pool.xStart :: addresses l, x ≠ b := by
      intro x hx
      exact (List.nodup_append.mp hgap.nodup).2.2 x hx b (List.mem_cons_self ..)
    have hit : (addresses l).getLastD pool.xStart ≠ b := hne _ List.getLastD_mem_cons
    have hprev : (addresses l).getLastD pool.xStart +
        (h.mem ((addresses l).getLastD pool.xStart)).xBlockSize ≠ b := by
      rcases List.eq_nil_or_concat l with rfl | ⟨l₀, x, rfl⟩
      · -- `xStart` has size 0 and lies outside the pool
        simpa [addresses, hlist.start] using hit
      · have hx := hlist.sizes x (by simp)
        simpa [addresses, List.getLastD_eq_getLast?, hx] using hapart
    obtain ⟨hlinked, hkept, hsame⟩ := hlist.linkAfter hb hgap
    refine ⟨_, ?_, hinsert ▸ hlinked, ?_, ?_⟩
    · rw [prvInsertBlockIntoFreeList, hpoint, Option.bind_eq_bind, Option.bind_some,
        coalescePrevious, if_neg hprev]
      dsimp only
      rw [linkBlock, if_pos hit]
      rfl
    · intro x hxb hx
      apply hkept x hxb
      rintro rfl
      exact hx List.getLastD_mem_cons
    · intro x hx
      apply hsame
      rintro rfl
      rw [hinsert, addresses_append] at hx
      exact hx (List.mem_append_right _ (head_mem_joinBlocks ..))

/-! ### Searching -/

/-- The loop passes the blocks `l`, too small, and stops at `q`. -/
theorem firstFit_spec {w q : Nat} {l : List Nat} : ∀ {fuel p : Nat},
    Leads (links mem) p l q → (∀ x ∈ l, (mem x).xBlockSize < w ∧ links mem x ≠ 0) →
    ¬((mem q).xBlockSize < w ∧ links mem q ≠ 0) → l.length < fuel →
    firstFit mem w fuel p (links mem p) = some (l.getLastD p, q) := by
  induction l with
  | nil =>
    intro fuel p hlinked _ hq hfuel
    obtain ⟨fuel, rfl⟩ := Nat.exists_eq_add_of_lt hfuel
    rw [leads_nil] at hlinked
    rw [hlinked, firstFit, if_neg]
    · rfl
    · exact hq
  | cons a l ih =>
    intro fuel p hlinked hpass hq hfuel
    cases fuel with
    | zero => exact absurd hfuel (Nat.not_lt_zero _)
    | succ fuel =>
      rw [hlinked.1, firstFit, List.getLastD_cons, if_pos]
      · apply ih hlinked.2 _ hq
        · simpa using hfuel
        · intro x hx
          exact hpass x (List.mem_cons_of_mem _ hx)
      · exact hpass a (List.mem_cons_self ..)

/-- A block is taken out of the list by turning the link before it. -/
theorem FreeList.unlink (hlist : FreeList pool mem pxEnd (l ++ (a, n) :: l'))
    (hnodup : (pool.xStart :: addresses l ++ a :: (addresses l' ++ [pxEnd])).Nodup) :
    FreeList pool (setNext mem ((addresses l).getLastD pool.xStart) (links mem a)) pxEnd
      (l ++ l') := by
  obtain ⟨hnodupl, -, hdisjoint⟩ := List.nodup_append.mp hnodup
  have hne : ∀ x ∈ addresses l' ++ [pxEnd], x ≠ (addresses l).getLastD pool.xStart := by
    intro x hx
    exact (hdisjoint _ List.getLastD_mem_cons x (List.mem_cons_of_mem _ hx)).symm
  constructor
  · have hlinked := hlist.linked
    rw [addresses_append] at hlinked
    rw [addresses_append]
    apply hlinked.unlink hnodupl
    · intro x _ hx
      exact links_setNext_of_ne hx
    · exact links_setNext_self
    · intro x hx
      exact links_setNext_of_ne (hne x (List.mem_append_left _ hx))
  · intro x hx
    rw [xBlockSize_setNext]
    apply hlist.sizes
    rcases List.mem_append.mp hx with hx | hx
    · exact List.mem_append_left _ hx
    · exact List.mem_append_right _ (List.mem_cons_of_mem _ hx)
  · rw [xBlockSize_setNext]
    exact hlist.start
  · rw [setNext_of_ne (hne pxEnd (by simp))]
    exact hlist.ending

end Heap4

end FlintRTOS
