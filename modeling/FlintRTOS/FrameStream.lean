import Mathlib.Data.List.Basic

/-!
# Streams of frames

A receiver that sees a stream piecemeal looks at the front of what it has and decides: more
bytes are needed, no frame can begin like this, or a frame of so many bytes begins here.  When
a decision is never revised as more bytes come, the frames that come off a stream do not depend
on how it was cut into pieces.
-/

namespace FrameStream

inductive Front where
  | more
  | bad
  | size (n : Nat)
deriving DecidableEq, Repr

structure Framing (β : Type) where
  front : List β → Front
  /-- A frame of no bytes would come off forever. -/
  size_pos : ∀ {s n}, front s = .size n → 0 < n
  stable : ∀ {s}, front s ≠ .more → ∀ t, front (s ++ t) = front s
  /-- The bytes of the frame are enough to decide. -/
  own : ∀ {s n}, front s = .size n → front (s.take n) = .size n

namespace Framing

variable {β : Type} (F : Framing β)

def IsFrame (f : List β) : Prop := F.front f = .size f.length

variable {F}

theorem IsFrame.front_append {f : List β} (h : F.IsFrame f) (t : List β) :
    F.front (f ++ t) = .size f.length := by
  have hdecided : F.front f ≠ .more := by
    rw [h]
    simp
  rw [F.stable hdecided, h]

theorem IsFrame.ne_nil {f : List β} (h : F.IsFrame f) : f ≠ [] := by
  rintro rfl
  exact absurd (F.size_pos h) (Nat.lt_irrefl 0)

theorem isFrame_take {s : List β} {n : Nat} (h : F.front s = .size n) (hlen : n ≤ s.length) :
    F.IsFrame (s.take n) := by
  rw [IsFrame, F.own h, List.length_take, Nat.min_eq_left hlen]

/-- Two readings of one stream agree as far as both go. -/
theorem prefix_or_prefix {fs gs : List (List β)} {r q : List β}
    (hf : ∀ f ∈ fs, F.IsFrame f) (hg : ∀ g ∈ gs, F.IsFrame g)
    (h : fs.flatten ++ r = gs.flatten ++ q) : fs <+: gs ∨ gs <+: fs := by
  induction fs generalizing gs with
  | nil => exact .inl List.nil_prefix
  | cons f fs ih =>
    cases gs with
    | nil => exact .inr List.nil_prefix
    | cons g gs =>
      rw [List.flatten_cons, List.flatten_cons, List.append_assoc, List.append_assoc] at h
      -- the front of the stream fixes the length of the first frame
      have hfront := (hf f List.mem_cons_self).front_append (fs.flatten ++ r)
      rw [h, (hg g List.mem_cons_self).front_append] at hfront
      have hlen : f.length = g.length := (Front.size.inj hfront).symm
      obtain ⟨rfl, hrest⟩ := List.append_inj h hlen
      have hagree := ih (fun f' hf' => hf f' (List.mem_cons_of_mem _ hf'))
        (fun g' hg' => hg g' (List.mem_cons_of_mem _ hg')) hrest
      rcases hagree with hle | hle
      · exact .inl (List.cons_prefix_cons.mpr ⟨rfl, hle⟩)
      · exact .inr (List.cons_prefix_cons.mpr ⟨rfl, hle⟩)

/-- What has been read of a stream of frames is some of them, from the first on. -/
theorem prefix_of_append_prefix {fs gs : List (List β)} {r : List β}
    (hf : ∀ f ∈ fs, F.IsFrame f) (hg : ∀ g ∈ gs, F.IsFrame g)
    (h : fs.flatten ++ r <+: gs.flatten) : fs <+: gs := by
  obtain ⟨t, ht⟩ := h
  have hagree : fs.flatten ++ (r ++ t) = gs.flatten ++ [] := by
    rw [List.append_nil, ← List.append_assoc, ht]
  rcases prefix_or_prefix hf hg hagree with hle | ⟨more, rfl⟩
  · exact hle
  · -- frames beyond the stream would be empty
    have hempty : more.flatten = [] := by
      rw [List.flatten_append, List.append_assoc] at hagree
      exact (List.append_eq_nil_iff.mp (List.append_cancel_left hagree)).1
    have hnil : more = [] := by
      apply List.eq_nil_iff_forall_not_mem.mpr
      intro f hmem
      have hzero := List.flatten_eq_nil_iff.mp hempty f hmem
      exact (hf f (List.mem_append_right _ hmem)).ne_nil hzero
    exact ⟨[], by rw [hnil, List.append_nil, List.append_nil]⟩

end Framing

end FrameStream
