import Mathlib.Data.List.Basic
import Mathlib.Data.List.Chain

/-!
# Tilings of an address range

A range of addresses from `lo` on is covered by tiles laid side by side: a tile
has a size and an owner, and no owner when it is free.  Addresses follow from the
sizes, so there is no gap and no overlap to speak of.  `freeBlocks` and
`heldBlocks` list the free and the owned tiles with their addresses.

`release` gives a tile back and joins it with the free tiles next to it;
`insertBlock` is the same operation on a list of free blocks, which sees
neighbours only through their addresses, and `freeBlocks_release` says that the
two agree.
-/

/-- A tile; `owner = none` when it is free. -/
structure Tile (α : Type) where
  size : Nat
  owner : Option α

namespace Tiling

variable {α : Type} {lo : Nat} {ts pre post : List (Tile α)}

/-- The length of the range the tiles cover. -/
def extent : List (Tile α) → Nat
  | [] => 0
  | t :: ts => t.size + extent ts

/-- Address and size of the free tiles. -/
def freeBlocks : Nat → List (Tile α) → List (Nat × Nat)
  | _, [] => []
  | lo, ⟨n, none⟩ :: ts => (lo, n) :: freeBlocks (lo + n) ts
  | lo, ⟨n, some _⟩ :: ts => freeBlocks (lo + n) ts

/-- Address, size and owner of the other tiles. -/
def heldBlocks : Nat → List (Tile α) → List (Nat × Nat × α)
  | _, [] => []
  | lo, ⟨n, none⟩ :: ts => heldBlocks (lo + n) ts
  | lo, ⟨n, some o⟩ :: ts => (lo, n, o) :: heldBlocks (lo + n) ts

/-- The sizes of the blocks together. -/
def blocksTotal : List (Nat × Nat) → Nat
  | [] => 0
  | x :: l => x.2 + blocksTotal l

/-- No free tile is next to another. -/
def Separated (ts : List (Tile α)) : Prop :=
  ts.IsChain fun s t => s.owner.isSome ∨ t.owner.isSome

@[simp] theorem extent_append : extent (pre ++ post) = extent pre + extent post := by
  induction pre with
  | nil => simp [extent]
  | cons t pre ih => simp [extent, ih, Nat.add_assoc]

variable {t : Tile α} {l l' : List (Nat × Nat)} {a n m slack w : Nat} {o : α}

@[simp] theorem extent_cons : extent (t :: ts) = t.size + extent ts := rfl

@[simp] theorem extent_nil : extent ([] : List (Tile α)) = 0 := rfl

theorem extent_mod {k : Nat} (h : ∀ t ∈ ts, t.size % k = 0) : extent ts % k = 0 := by
  induction ts with
  | nil => exact Nat.zero_mod k
  | cons t ts ih =>
    rw [extent_cons, Nat.add_mod, h t (List.mem_cons_self ..),
      ih fun s hs => h s (List.mem_cons_of_mem _ hs), Nat.zero_mod]

theorem freeBlocks_append :
    freeBlocks lo (pre ++ post) = freeBlocks lo pre ++ freeBlocks (lo + extent pre) post := by
  induction pre generalizing lo with
  | nil => rfl
  | cons t pre ih =>
    obtain ⟨n, o⟩ := t
    cases o with
    | none => simp [freeBlocks, ih, Nat.add_assoc]
    | some o => simp [freeBlocks, ih, Nat.add_assoc]

theorem heldBlocks_append :
    heldBlocks lo (pre ++ post) = heldBlocks lo pre ++ heldBlocks (lo + extent pre) post := by
  induction pre generalizing lo with
  | nil => rfl
  | cons t pre ih =>
    obtain ⟨n, o⟩ := t
    cases o with
    | none => simp [heldBlocks, ih, Nat.add_assoc]
    | some o => simp [heldBlocks, ih, Nat.add_assoc]

@[simp] theorem blocksTotal_nil : blocksTotal [] = 0 := rfl

@[simp] theorem blocksTotal_cons {x : Nat × Nat} : blocksTotal (x :: l) = x.2 + blocksTotal l := rfl

@[simp] theorem blocksTotal_append : blocksTotal (l ++ l') = blocksTotal l + blocksTotal l' := by
  induction l with
  | nil => simp
  | cons x l ih => simp [ih, Nat.add_assoc]

theorem le_blocksTotal {x : Nat × Nat} (h : x ∈ l) : x.2 ≤ blocksTotal l := by
  induction l with
  | nil => cases h
  | cons y l ih =>
    rw [blocksTotal_cons]
    rcases List.mem_cons.mp h with rfl | h
    · exact Nat.le_add_right ..
    · exact (ih h).trans (Nat.le_add_left ..)

/-! ### Finding a block's tile -/

/-- A free block is the free tile at its address, and the blocks before and
    after it are those of the tiles before and after. -/
theorem exists_tile_of_freeBlocks (h : freeBlocks lo ts = l ++ (a, n) :: l') :
    ∃ pre post, ts = pre ++ ⟨n, none⟩ :: post ∧ a = lo + extent pre ∧
      l = freeBlocks lo pre ∧ l' = freeBlocks (a + n) post := by
  induction ts generalizing lo l with
  | nil => simp [freeBlocks] at h
  | cons t ts ih =>
    obtain ⟨m, o⟩ := t
    cases o with
    | none =>
      rw [freeBlocks] at h
      cases l with
      | nil =>
        cases h
        exact ⟨[], ts, rfl, rfl, rfl, rfl⟩
      | cons x l =>
        obtain ⟨rfl, hrest⟩ := List.cons_eq_cons.mp h
        obtain ⟨pre, post, rfl, rfl, rfl, rfl⟩ := ih hrest
        exact ⟨⟨m, none⟩ :: pre, post, rfl, by simp [Nat.add_assoc], rfl, rfl⟩
    | some o =>
      obtain ⟨pre, post, rfl, rfl, rfl, rfl⟩ := ih h
      exact ⟨⟨m, some o⟩ :: pre, post, rfl, by simp [Nat.add_assoc], rfl, rfl⟩

theorem exists_tile_of_heldBlocks (h : (a, n, o) ∈ heldBlocks lo ts) :
    ∃ pre post, ts = pre ++ ⟨n, some o⟩ :: post ∧ a = lo + extent pre := by
  induction ts generalizing lo with
  | nil => simp [heldBlocks] at h
  | cons t ts ih =>
    obtain ⟨m, p⟩ := t
    cases p with
    | none =>
      obtain ⟨pre, post, rfl, rfl⟩ := ih h
      exact ⟨⟨m, none⟩ :: pre, post, rfl, by simp [Nat.add_assoc]⟩
    | some p =>
      rcases List.mem_cons.mp h with hx | hrest
      · cases hx
        exact ⟨[], ts, rfl, rfl⟩
      · obtain ⟨pre, post, rfl, rfl⟩ := ih hrest
        exact ⟨⟨m, some p⟩ :: pre, post, rfl, by simp [Nat.add_assoc]⟩

theorem exists_tile_of_mem_freeBlocks (h : (a, n) ∈ freeBlocks lo ts) :
    ∃ pre post, ts = pre ++ ⟨n, none⟩ :: post ∧ a = lo + extent pre := by
  obtain ⟨l, l', hl⟩ := List.append_of_mem h
  obtain ⟨pre, post, hts, ha, -, -⟩ := exists_tile_of_freeBlocks hl
  exact ⟨pre, post, hts, ha⟩

theorem freeBlocks_bounds (h : (a, n) ∈ freeBlocks lo ts) : lo ≤ a ∧ a + n ≤ lo + extent ts := by
  obtain ⟨pre, post, rfl, rfl⟩ := exists_tile_of_mem_freeBlocks h
  simp only [extent_append, extent_cons]
  omega

theorem heldBlocks_bounds (h : (a, n, o) ∈ heldBlocks lo ts) : lo ≤ a ∧ a + n ≤ lo + extent ts := by
  obtain ⟨pre, post, rfl, rfl⟩ := exists_tile_of_heldBlocks h
  simp only [extent_append, extent_cons]
  omega

theorem freeBlocks_lt (hpos : ∀ t ∈ ts, 0 < t.size) (h : (a, n) ∈ freeBlocks lo ts) :
    a < lo + extent ts := by
  have hle := (freeBlocks_bounds h).2
  obtain ⟨pre, post, rfl, -⟩ := exists_tile_of_mem_freeBlocks h
  have hn : 0 < n := hpos ⟨n, none⟩ (by simp)
  omega

theorem heldBlocks_lt (hpos : ∀ t ∈ ts, 0 < t.size) (h : (a, n, o) ∈ heldBlocks lo ts) :
    a < lo + extent ts := by
  have hle := (heldBlocks_bounds h).2
  obtain ⟨pre, post, rfl, -⟩ := exists_tile_of_heldBlocks h
  have hn : 0 < n := hpos ⟨n, some o⟩ (by simp)
  omega

/-- A tile begins or the last one ends at `a`. -/
def Boundary (lo : Nat) (ts : List (Tile α)) (a : Nat) : Prop :=
  ∃ pre post, ts = pre ++ post ∧ a = lo + extent pre

theorem Boundary.bounds (h : Boundary lo ts a) : lo ≤ a ∧ a ≤ lo + extent ts := by
  obtain ⟨pre, post, rfl, rfl⟩ := h
  rw [extent_append]
  omega

theorem Boundary.aside (h : Boundary lo (pre ++ t :: post) a) :
    a ≤ lo + extent pre ∨ lo + extent pre + t.size ≤ a := by
  obtain ⟨pre', post', heq, rfl⟩ := h
  rcases List.append_eq_append_iff.mp heq with ⟨l, rfl, hpost⟩ | ⟨l, rfl, hpost⟩
  · cases l with
    | nil =>
      left
      simp
    | cons u l =>
      right
      obtain ⟨rfl, -⟩ := List.cons_eq_cons.mp hpost
      simp only [extent_append, extent_cons]
      omega
  · left
    rw [extent_append]
    omega

/-- There are no more free blocks than the range has addresses. -/
theorem length_freeBlocks_le (hpos : ∀ t ∈ ts, 0 < t.size) :
    (freeBlocks lo ts).length ≤ extent ts := by
  induction ts generalizing lo with
  | nil => exact Nat.le_refl 0
  | cons t ts ih =>
    obtain ⟨n, o⟩ := t
    have hrest : (freeBlocks (lo + n) ts).length ≤ extent ts :=
      ih fun s hs => hpos s (List.mem_cons_of_mem _ hs)
    have hn : 0 < n := hpos ⟨n, o⟩ (List.mem_cons_self ..)
    cases o with
    | none =>
      simp only [freeBlocks, List.length_cons, extent_cons]
      omega
    | some o =>
      simp only [freeBlocks, extent_cons]
      omega

theorem blocksTotal_freeBlocks_le : blocksTotal (freeBlocks lo ts) ≤ extent ts := by
  induction ts generalizing lo with
  | nil => exact Nat.le_refl 0
  | cons t ts ih =>
    obtain ⟨n, o⟩ := t
    have hrest : blocksTotal (freeBlocks (lo + n) ts) ≤ extent ts := ih
    cases o with
    | none =>
      simp only [freeBlocks, blocksTotal_cons, extent_cons]
      omega
    | some o =>
      simp only [freeBlocks, extent_cons]
      omega

theorem freeBlocks_cons_some : freeBlocks lo (⟨n, some o⟩ :: ts) = freeBlocks (lo + n) ts := rfl

theorem heldBlocks_cons_some :
    heldBlocks lo (⟨n, some o⟩ :: ts) = (lo, n, o) :: heldBlocks (lo + n) ts := rfl

theorem freeBlocks_cons_none :
    freeBlocks lo (⟨n, none⟩ :: ts) = (lo, n) :: freeBlocks (lo + n) ts := rfl

theorem heldBlocks_cons_none : heldBlocks lo (⟨n, none⟩ :: ts) = heldBlocks (lo + n) ts := rfl

/-! ### Order and separation -/

theorem separated_append_cons :
    Separated (pre ++ t :: post) ↔
      Separated pre ∧ Separated post ∧
        (∀ s ∈ pre.getLast?, s.owner.isSome ∨ t.owner.isSome) ∧
        ∀ s ∈ post.head?, t.owner.isSome ∨ s.owner.isSome := by
  unfold Separated
  rw [List.isChain_append, List.isChain_cons]
  simp only [List.head?_cons, Option.mem_def, Option.some.injEq, forall_eq']
  tauto

theorem freeBlocks_ascending (hpos : ∀ t ∈ ts, 0 < t.size) :
    (freeBlocks lo ts).Pairwise fun x y => x.1 < y.1 := by
  induction ts generalizing lo with
  | nil => exact List.Pairwise.nil
  | cons t ts ih =>
    obtain ⟨n, o⟩ := t
    have hrest : (freeBlocks (lo + n) ts).Pairwise fun x y => x.1 < y.1 :=
      ih fun s hs => hpos s (List.mem_cons_of_mem _ hs)
    have hn : 0 < n := hpos ⟨n, o⟩ (List.mem_cons_self ..)
    cases o with
    | some o => exact hrest
    | none =>
      refine List.pairwise_cons.mpr ⟨?_, hrest⟩
      rintro ⟨a, m⟩ hx
      have hle := (freeBlocks_bounds hx).1
      show lo < a
      omega

/-- A free block and an owned one are not at the same address. -/
theorem freeBlocks_ne_heldBlocks (hpos : ∀ t ∈ ts, 0 < t.size) {b : Nat}
    (hfree : (a, n) ∈ freeBlocks lo ts) (hheld : (b, m, o) ∈ heldBlocks lo ts) : a ≠ b := by
  obtain ⟨pre, post, rfl, rfl⟩ := exists_tile_of_mem_freeBlocks hfree
  have hn : 0 < n := hpos ⟨n, none⟩ (by simp)
  rw [heldBlocks_append] at hheld
  rcases List.mem_append.mp hheld with hheld | hheld
  · have hlt := heldBlocks_lt (fun t ht => hpos t (List.mem_append_left _ ht)) hheld
    omega
  · change (b, m, o) ∈ heldBlocks (lo + extent pre + n) post at hheld
    have hle := (heldBlocks_bounds hheld).1
    omega

/-- When no tile is empty and free tiles are apart, there is room between any free
    block and the next: the blocks ascend and none touches another. -/
theorem freeBlocks_pairwise (hpos : ∀ t ∈ ts, 0 < t.size) (hsep : Separated ts) :
    (freeBlocks lo ts).Pairwise fun x y => x.1 + x.2 < y.1 := by
  induction ts generalizing lo with
  | nil => exact List.Pairwise.nil
  | cons t ts ih =>
    obtain ⟨hhead, htail⟩ := List.isChain_cons.mp hsep
    have hrest : (freeBlocks (lo + t.size) ts).Pairwise fun x y => x.1 + x.2 < y.1 :=
      ih (fun s hs => hpos s (List.mem_cons_of_mem _ hs)) htail
    obtain ⟨n, o⟩ := t
    cases o with
    | some o => exact hrest
    | none =>
      refine List.pairwise_cons.mpr ⟨?_, hrest⟩
      -- what follows a free tile is owned and not empty
      cases ts with
      | nil => simp [freeBlocks]
      | cons s ts =>
        obtain ⟨m, p⟩ := s
        have hm : 0 < m := hpos ⟨m, p⟩ (by simp)
        cases p with
        | none => simp at hhead
        | some p =>
          rintro ⟨a, k⟩ hx
          change (a, k) ∈ freeBlocks (lo + n + m) ts at hx
          have hle := (freeBlocks_bounds hx).1
          show lo + n < a
          omega

theorem eq_singleton_of_heldBlocks_nil (hsep : Separated ts) (hheld : heldBlocks lo ts = [])
    (hne : ts ≠ []) : ts = [⟨extent ts, none⟩] := by
  cases ts with
  | nil => exact absurd rfl hne
  | cons t ts =>
    obtain ⟨n, o⟩ := t
    cases o with
    | some o => simp [heldBlocks] at hheld
    | none =>
      cases ts with
      | nil => simp
      | cons s ts =>
        obtain ⟨m, p⟩ := s
        cases p with
        | some p => simp [heldBlocks] at hheld
        | none => simp [Separated] at hsep

/-! ### Giving a tile back -/

/-- A free tile of size `n` before `post`, joined with a free tile there. -/
def joinTiles (n : Nat) : List (Tile α) → List (Tile α)
  | ⟨m, none⟩ :: post => ⟨n + m, none⟩ :: post
  | post => ⟨n, none⟩ :: post

/-- The tile of size `n` between `pre` and `post` becomes free. -/
def release (pre : List (Tile α)) (n : Nat) (post : List (Tile α)) : List (Tile α) :=
  match pre.getLast? with
  | some ⟨m, none⟩ => pre.dropLast ++ joinTiles (m + n) post
  | _ => pre ++ joinTiles n post

/-- A free block `(a, n)` before `l`, joined with the first block of `l` when that
    begins where `(a, n)` ends. -/
def joinBlocks (a n : Nat) : List (Nat × Nat) → List (Nat × Nat)
  | [] => [(a, n)]
  | (c, m) :: l => if a + n = c then (a, n + m) :: l else (a, n) :: (c, m) :: l

/-- The block `(b, n)` put between `l` and `l'`, joined with what it touches. -/
def insertBlock (l : List (Nat × Nat)) (b n : Nat) (l' : List (Nat × Nat)) :
    List (Nat × Nat) :=
  match l.getLast? with
  | some (a, m) =>
      if a + m = b then l.dropLast ++ joinBlocks a (m + n) l' else l ++ joinBlocks b n l'
  | none => joinBlocks b n l'

/-- The tiles before `t` end with a free one of size `m`, or a tile given back
    there joins nothing before it. -/
theorem release_cases (pre : List (Tile α)) (n : Nat) (post : List (Tile α)) :
    (∃ pre' m, pre = pre' ++ [⟨m, none⟩] ∧ release pre n post = pre' ++ joinTiles (m + n) post) ∨
      (∀ s ∈ pre.getLast?, s.owner.isSome) ∧ release pre n post = pre ++ joinTiles n post := by
  rcases List.eq_nil_or_concat pre with rfl | ⟨pre', ⟨m, o⟩, rfl⟩
  · right
    simp [release]
  · cases o with
    | none =>
      left
      exact ⟨pre', m, by simp, by simp [release]⟩
    | some o =>
      right
      simp [release]

theorem joinTiles_cases (n : Nat) (post : List (Tile α)) :
    (∃ m post', post = ⟨m, none⟩ :: post' ∧ joinTiles n post = ⟨n + m, none⟩ :: post') ∨
      (∀ s ∈ post.head?, s.owner.isSome) ∧ joinTiles n post = ⟨n, none⟩ :: post := by
  rcases post with _ | ⟨⟨m, o⟩, post⟩
  · right
    simp [joinTiles]
  · cases o with
    | none => exact .inl ⟨m, post, rfl, rfl⟩
    | some o =>
      right
      simp [joinTiles]

theorem release_of_held (hlast : ∀ s ∈ pre.getLast?, s.owner.isSome)
    (hhead : ∀ s ∈ post.head?, s.owner.isSome) : release pre n post = pre ++ ⟨n, none⟩ :: post := by
  obtain ⟨pre', m, rfl, -⟩ | ⟨-, hrel⟩ := release_cases pre n post
  · simp at hlast
  · obtain ⟨m, post', rfl, -⟩ | ⟨-, hjoin⟩ := joinTiles_cases n post
    · simp at hhead
    · rw [hrel, hjoin]

theorem insertBlock_cases (l : List (Nat × Nat)) (b n : Nat) (l' : List (Nat × Nat)) :
    (∃ l₀ a m, l = l₀ ++ [(a, m)] ∧ a + m = b ∧
        insertBlock l b n l' = l₀ ++ joinBlocks a (m + n) l') ∨
      (∀ x ∈ l.getLast?, x.1 + x.2 ≠ b) ∧ insertBlock l b n l' = l ++ joinBlocks b n l' := by
  rcases List.eq_nil_or_concat l with rfl | ⟨l₀, ⟨a, m⟩, rfl⟩
  · right
    simp [insertBlock]
  · by_cases hb : a + m = b
    · left
      exact ⟨l₀, a, m, by simp, hb, by simp [insertBlock, hb]⟩
    · right
      simp [insertBlock, hb]

theorem joinBlocks_cases (a n : Nat) (l : List (Nat × Nat)) :
    (∃ m l₁, l = (a + n, m) :: l₁ ∧ joinBlocks a n l = (a, n + m) :: l₁) ∨
      (∀ x ∈ l.head?, a + n ≠ x.1) ∧ joinBlocks a n l = (a, n) :: l := by
  rcases l with _ | ⟨⟨c, m⟩, l⟩
  · right
    simp [joinBlocks]
  · by_cases hc : a + n = c
    · subst hc
      left
      exact ⟨m, l, rfl, by simp [joinBlocks]⟩
    · right
      simp [joinBlocks, hc]

theorem joinBlocks_of_lt (h : ∀ x ∈ l, a + n < x.1) : joinBlocks a n l = (a, n) :: l := by
  obtain ⟨m, l₁, rfl, -⟩ | ⟨-, hjoin⟩ := joinBlocks_cases a n l
  · exact absurd (h (a + n, m) (List.mem_cons_self ..)) (lt_irrefl _)
  · exact hjoin

/-- Joining by address finds the same neighbour as joining by position. -/
theorem freeBlocks_joinTiles (hpos : ∀ t ∈ post, 0 < t.size) (a n : Nat) :
    freeBlocks a (joinTiles n post) = joinBlocks a n (freeBlocks (a + n) post) := by
  rcases post with _ | ⟨⟨m, o⟩, post⟩
  · rfl
  · cases o with
    | none => simp [joinTiles, freeBlocks, joinBlocks, Nat.add_assoc]
    | some o =>
      have hm : 0 < m := hpos ⟨m, some o⟩ (List.mem_cons_self ..)
      rw [joinBlocks_of_lt]
      · rfl
      · rintro ⟨c, k⟩ hx
        change (c, k) ∈ freeBlocks (a + n + m) post at hx
        have hle := (freeBlocks_bounds hx).1
        show a + n < c
        omega

theorem insertBlock_of_lt {b : Nat} (h : ∀ x ∈ l, x.1 + x.2 < b) :
    insertBlock l b n l' = l ++ joinBlocks b n l' := by
  obtain ⟨l₀, a, m, rfl, hb, -⟩ | ⟨-, hinsert⟩ := insertBlock_cases l b n l'
  · have hlt : a + m < b := h (a, m) (by simp)
    exact absurd hb hlt.ne
  · exact hinsert

theorem freeBlocks_release (hpre : ∀ t ∈ pre, 0 < t.size) (hpost : ∀ t ∈ post, 0 < t.size)
    (n : Nat) :
    freeBlocks lo (release pre n post) =
      insertBlock (freeBlocks lo pre) (lo + extent pre) n
        (freeBlocks (lo + extent pre + n) post) := by
  rcases List.eq_nil_or_concat pre with rfl | ⟨pre, ⟨m, o⟩, rfl⟩
  · exact freeBlocks_joinTiles hpost lo n
  · cases o with
    | none =>
      simp [release, freeBlocks_append, freeBlocks_joinTiles hpost, freeBlocks, insertBlock,
        Nat.add_assoc]
    | some o =>
      have hm : 0 < m := hpre ⟨m, some o⟩ (by simp)
      rw [insertBlock_of_lt]
      · simp [release, freeBlocks_append, freeBlocks_joinTiles hpost, freeBlocks, Nat.add_assoc]
      · rintro ⟨a, k⟩ hx
        have hx : (a, k) ∈ freeBlocks lo pre := by
          simpa [freeBlocks_append, freeBlocks] using hx
        have hle := (freeBlocks_bounds hx).2
        show a + k < lo + extent (pre.concat ⟨m, some o⟩)
        simp only [List.concat_eq_append, extent_append, extent_cons, extent_nil]
        omega

@[simp] theorem extent_joinTiles (n : Nat) : extent (joinTiles n post) = n + extent post := by
  obtain ⟨m, post', rfl, hjoin⟩ | ⟨-, hjoin⟩ := joinTiles_cases n post
  · simp [hjoin, Nat.add_assoc]
  · simp [hjoin]

theorem extent_release (n : Nat) :
    extent (release pre n post) = extent pre + n + extent post := by
  obtain ⟨pre', m, rfl, hrel⟩ | ⟨-, hrel⟩ := release_cases pre n post
  · simp [hrel, Nat.add_assoc]
  · simp [hrel, Nat.add_assoc]

theorem heldBlocks_joinTiles (a n : Nat) :
    heldBlocks a (joinTiles n post) = heldBlocks (a + n) post := by
  obtain ⟨m, post', rfl, hjoin⟩ | ⟨-, hjoin⟩ := joinTiles_cases n post
  · simp [hjoin, heldBlocks, Nat.add_assoc]
  · simp [hjoin, heldBlocks]

theorem heldBlocks_release (n : Nat) :
    heldBlocks lo (release pre n post) =
      heldBlocks lo pre ++ heldBlocks (lo + extent pre + n) post := by
  obtain ⟨pre', m, rfl, hrel⟩ | ⟨-, hrel⟩ := release_cases pre n post
  · simp [hrel, heldBlocks_append, heldBlocks_joinTiles, heldBlocks, Nat.add_assoc]
  · simp [hrel, heldBlocks_append, heldBlocks_joinTiles]

theorem separated_joinTiles (hsep : Separated post) : Separated (joinTiles n post) := by
  obtain ⟨m, post', rfl, hjoin⟩ | ⟨hhead, hjoin⟩ := joinTiles_cases n post
  · rw [hjoin]
    exact List.isChain_cons.mpr (by simpa using List.isChain_cons.mp hsep)
  · rw [hjoin]
    refine List.isChain_cons.mpr ⟨?_, hsep⟩
    intro s hs
    exact .inr (hhead s hs)

theorem separated_release (hpre : Separated pre) (hpost : Separated post) :
    Separated (release pre n post) := by
  have hjoin : ∀ {pre' : List (Tile α)} {k : Nat}, Separated pre' →
      (∀ s ∈ pre'.getLast?, s.owner.isSome) → Separated (pre' ++ joinTiles k post) := by
    intro pre' k hsep hlast
    refine List.isChain_append.mpr ⟨hsep, separated_joinTiles hpost, ?_⟩
    intro s hs t _
    exact .inl (hlast s hs)
  obtain ⟨pre', m, rfl, hrel⟩ | ⟨hlast, hrel⟩ := release_cases pre n post
  · rw [hrel]
    obtain ⟨hsep, -, hlast, -⟩ := separated_append_cons.mp hpre
    exact hjoin hsep (by simpa using hlast)
  · rw [hrel]
    exact hjoin hpre hlast

theorem forall_size_release {P : Nat → Prop} (hadd : ∀ a b, P a → P b → P (a + b))
    (hpre : ∀ t ∈ pre, P t.size) (hn : P n) (hpost : ∀ t ∈ post, P t.size) :
    ∀ t ∈ release pre n post, P t.size := by
  have hjoin : ∀ {k : Nat}, P k → ∀ t ∈ joinTiles k post, P t.size := by
    intro k hk
    obtain ⟨m, post', rfl, hjoin⟩ | ⟨-, hjoin⟩ := joinTiles_cases k post
    · rw [hjoin]
      intro t ht
      rcases List.mem_cons.mp ht with rfl | ht
      · exact hadd _ _ hk (hpost ⟨m, none⟩ (List.mem_cons_self ..))
      · exact hpost t (List.mem_cons_of_mem _ ht)
    · rw [hjoin]
      intro t ht
      rcases List.mem_cons.mp ht with rfl | ht
      · exact hk
      · exact hpost t ht
  obtain ⟨pre', m, rfl, hrel⟩ | ⟨-, hrel⟩ := release_cases pre n post
  · rw [hrel]
    intro t ht
    rcases List.mem_append.mp ht with ht | ht
    · exact hpre t (List.mem_append_left _ ht)
    · exact hjoin (hadd _ _ (hpre ⟨m, none⟩ (by simp)) hn) t ht
  · rw [hrel]
    intro t ht
    rcases List.mem_append.mp ht with ht | ht
    · exact hpre t ht
    · exact hjoin hn t ht

theorem blocksTotal_joinBlocks (a n : Nat) (l : List (Nat × Nat)) :
    blocksTotal (joinBlocks a n l) = n + blocksTotal l := by
  obtain ⟨m, l₁, rfl, hjoin⟩ | ⟨-, hjoin⟩ := joinBlocks_cases a n l
  · simp [hjoin, Nat.add_assoc]
  · simp [hjoin]

theorem blocksTotal_insertBlock (l : List (Nat × Nat)) (b n : Nat) (l' : List (Nat × Nat)) :
    blocksTotal (insertBlock l b n l') = blocksTotal l + n + blocksTotal l' := by
  obtain ⟨l₀, a, m, rfl, -, hinsert⟩ | ⟨-, hinsert⟩ := insertBlock_cases l b n l'
  · simp [hinsert, blocksTotal_joinBlocks, Nat.add_assoc]
  · simp [hinsert, blocksTotal_joinBlocks, Nat.add_assoc]

/-! ### Taking a tile -/

/-- A free tile of size `m` is given to `o`, whole or, when more than `slack` is
    left over, its first `w`. -/
def carve (slack w m : Nat) (o : α) : List (Tile α) :=
  if slack < m - w then [⟨w, some o⟩, ⟨m - w, none⟩] else [⟨m, some o⟩]

theorem extent_carve (hw : w ≤ m) : extent (carve slack w m o) = m := by
  unfold carve
  split
  · simp [extent, hw]
  · simp [extent]

/-- The size of the tile that is given away. -/
def carved (slack w m : Nat) : Nat := if slack < m - w then w else m

theorem exists_carve_eq_cons (slack w m : Nat) (o : α) :
    ∃ rest, carve slack w m o = ⟨carved slack w m, some o⟩ :: rest := by
  unfold carve carved
  split
  · exact ⟨_, rfl⟩
  · exact ⟨_, rfl⟩

theorem le_carved (hw : w ≤ m) : w ≤ carved slack w m := by
  unfold carved
  split
  · exact Nat.le_refl w
  · exact hw

theorem heldBlocks_carve : heldBlocks lo (carve slack w m o) = [(lo, carved slack w m, o)] := by
  unfold carve carved
  split
  · rfl
  · rfl

theorem blocksTotal_carve (hw : w ≤ m) :
    blocksTotal (freeBlocks lo (carve slack w m o)) + carved slack w m = m := by
  unfold carve carved
  split
  · simp [freeBlocks, hw]
  · simp [freeBlocks]

theorem forall_size_carve {P : Nat → Prop} (hw : P w) (hm : P m)
    (hrest : slack < m - w → P (m - w)) : ∀ t ∈ carve slack w m o, P t.size := by
  unfold carve
  split
  · rename_i hlt
    simp only [List.mem_cons, List.not_mem_nil, or_false, forall_eq_or_imp, forall_eq]
    exact ⟨hw, hrest hlt⟩
  · simpa using hm

/-- A tile is carved out of a free one, which has no free neighbours. -/
theorem separated_carve (hsep : Separated (pre ++ ⟨m, none⟩ :: post)) :
    Separated (pre ++ (carve slack w m o ++ post)) := by
  obtain ⟨hpre, hpost, -, hhead⟩ := separated_append_cons.mp hsep
  have hfree : Separated (⟨m - w, none⟩ :: post) := List.isChain_cons.mpr ⟨hhead, hpost⟩
  unfold carve
  split
  · refine separated_append_cons.mpr ⟨hpre, hfree, ?_, ?_⟩
    · exact fun _ _ => .inr rfl
    · exact fun _ _ => .inl rfl
  · refine separated_append_cons.mpr ⟨hpre, hpost, ?_, ?_⟩
    · exact fun _ _ => .inr rfl
    · exact fun _ _ => .inl rfl

/-- Giving back the tile that was carved out restores the free one: what was left
    over joins it, and there was nothing else to join. -/
theorem release_carve {rest : List (Tile α)} (hsep : Separated (pre ++ ⟨m, none⟩ :: post))
    (hw : w ≤ m) (hcarve : carve slack w m o = ⟨carved slack w m, some o⟩ :: rest) :
    release pre (carved slack w m) (rest ++ post) = pre ++ ⟨m, none⟩ :: post := by
  obtain ⟨-, -, hlast, hhead⟩ := separated_append_cons.mp hsep
  have hlast' : ∀ s ∈ pre.getLast?, s.owner.isSome := by simpa using hlast
  have hhead' : ∀ s ∈ post.head?, s.owner.isSome := by simpa using hhead
  unfold carve carved at *
  split at hcarve
  · rename_i hsplit
    cases hcarve
    obtain ⟨pre', k, rfl, -⟩ | ⟨-, hrel⟩ := release_cases pre w (⟨m - w, none⟩ :: post)
    · simp at hlast'
    · have hsum : w + (m - w) = m := Nat.add_sub_cancel' hw
      rw [if_pos hsplit]
      simpa [joinTiles, hsum] using hrel
  · rename_i hwhole
    cases hcarve
    rw [if_neg hwhole]
    exact release_of_held hlast' hhead'

end Tiling
