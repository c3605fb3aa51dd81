import Mathlib.Data.List.Basic

/-!
# Chains of links

A singly linked list in a memory, seen through the function `next` that reads the
link of a node: `Leads next p l e` says that the links lead from `p` through the
nodes `l` to `e`.  The head `p` and the end `e` are not nodes.

A chain is cut at any place (`leads_append`), and two lemmas say how it is put
together again under a memory that was written: its last link is turned elsewhere
(`Leads.retarget`), or it is hung under another head (`Leads.reroot`).  Putting a node
in (`Leads.insert`) and taking one out (`Leads.remove`) follow from these.
-/

variable {β : Type}

/-- The links lead from `p` through `l` to `e`. -/
def Leads (next : β → β) : β → List β → β → Prop
  | p, [], e => next p = e
  | p, a :: l, e => next p = a ∧ Leads next a l e

variable {p e a : β} {l l' : List β} {next' : β → β}

@[simp] theorem leads_nil {next : β → β} : Leads next p [] e ↔ next p = e :=
  Iff.rfl

@[simp] theorem leads_cons {next : β → β} :
    Leads next p (a :: l) e ↔ next p = a ∧ Leads next a l e :=
  Iff.rfl

theorem Leads.next_head {next : β → β} (h : Leads next p l e) : next p = l.headD e := by
  cases l with
  | nil => exact h
  | cons a l => exact h.1

theorem Leads.next_mem {next : β → β} {x : β} (h : Leads next p l e) (hx : x ∈ p :: l) :
    next x ∈ l ++ [e] := by
  induction l generalizing p with
  | nil =>
    obtain rfl := List.mem_singleton.mp hx
    simpa using h
  | cons a l ih =>
    rcases List.mem_cons.mp hx with rfl | hx
    · rw [h.1]
      exact List.mem_cons_self ..
    · exact List.mem_cons_of_mem _ (ih h.2 hx)

/-- A chain is cut after `l`, whose last link leads to what follows. -/
theorem leads_append {next : β → β} :
    ∀ {p : β},
    Leads next p (l ++ l') e ↔
      Leads next p l (l'.headD e) ∧ Leads next (l.getLastD p) l' e := by
  induction l with
  | nil =>
    intro p
    constructor
    · intro h
      exact ⟨h.next_head, h⟩
    · rintro ⟨-, h⟩
      exact h
  | cons a l ih =>
    intro p
    rw [List.cons_append, leads_cons, leads_cons, ih, List.getLastD_cons, and_assoc]

/-- The last link is turned to `e'` and the others are kept. -/
theorem Leads.retarget {next : β → β} {e' : β} :
    ∀ {p : β},
    Leads next p l e → (p :: l).Nodup →
    (∀ x ∈ p :: l, x ≠ l.getLastD p → next' x = next x) → next' (l.getLastD p) = e' →
    Leads next' p l e' := by
  induction l with
  | nil =>
    intro p _ _ _ hlast
    exact hlast
  | cons a l ih =>
    intro p h hnodup hkept hlast
    rw [List.getLastD_cons] at hkept hlast
    obtain ⟨hp, hnodup'⟩ := List.nodup_cons.mp hnodup
    have hne : p ≠ l.getLastD a := by
      rintro rfl
      exact hp (List.getLastD_mem_cons ..)
    refine ⟨(hkept p (List.mem_cons_self ..) hne).trans h.1, ih h.2 hnodup' ?_ hlast⟩
    intro x hx
    exact hkept x (List.mem_cons_of_mem _ hx)

/-- The nodes keep their links and `p'` takes the place of the head. -/
theorem Leads.reroot {next : β → β} {p' : β} (h : Leads next p l e) (hhead : next' p' = l.headD e)
    (hkept : ∀ x ∈ l, next' x = next x) : Leads next' p' l e := by
  induction l generalizing p p' with
  | nil => exact hhead
  | cons a l ih =>
    refine ⟨hhead, ih h.2 ?_ ?_⟩
    · rw [hkept a (List.mem_cons_self ..), h.2.next_head]
    · intro x hx
      exact hkept x (List.mem_cons_of_mem _ hx)

/-- Two chains are joined by turning the last link of the first to the node `a`. -/
theorem Leads.link {next : β → β} {q : β} (h : Leads next p l q) (hnodup : (p :: l).Nodup)
    (hkept : ∀ x ∈ p :: l, x ≠ l.getLastD p → next' x = next x) (hlast : next' (l.getLastD p) = a)
    (h' : Leads next' a l' e) : Leads next' p (l ++ a :: l') e :=
  leads_append.mpr ⟨h.retarget hnodup hkept hlast, hlast, h'⟩

/-- The node `a` is taken out by turning the link before it to where its own
    leads. -/
theorem Leads.unlink {next : β → β} (h : Leads next p (l ++ a :: l') e) (hnodup : (p :: l).Nodup)
    (hkept : ∀ x ∈ p :: l, x ≠ l.getLastD p → next' x = next x)
    (hlast : next' (l.getLastD p) = next a) (hkept' : ∀ x ∈ l', next' x = next x) :
    Leads next' p (l ++ l') e := by
  obtain ⟨hleft, -, hright⟩ := leads_append.mp h
  rw [hright.next_head] at hlast
  exact leads_append.mpr ⟨hleft.retarget hnodup hkept hlast, hright.reroot hlast hkept'⟩

theorem Leads.insert {next : β → β} (h : Leads next p (l ++ l') e) (hnodup : (p :: (l ++ l')).Nodup)
    (ha : a ∉ p :: (l ++ l')) (hlast : next' (l.getLastD p) = a) (hnew : next' a = l'.headD e)
    (hkept : ∀ x, x ≠ a → x ≠ l.getLastD p → next' x = next x) :
    Leads next' p (l ++ a :: l') e := by
  obtain ⟨hleft, hright⟩ := leads_append.mp h
  rw [← List.cons_append] at hnodup ha
  obtain ⟨hnodupl, -, hdisjoint⟩ := List.nodup_append.mp hnodup
  have hne : ∀ x ∈ p :: l ++ l', x ≠ a := by
    rintro x hx rfl
    exact ha hx
  apply hleft.link hnodupl _ hlast
  · apply hright.reroot hnew
    intro x hx
    exact hkept x (hne x (List.mem_append_right _ hx))
      (hdisjoint _ List.getLastD_mem_cons x hx).symm
  · intro x hx
    exact hkept x (hne x (List.mem_append_left _ hx))

/-- The node `a` is taken out from between `l` and `l'`. -/
theorem Leads.remove {next : β → β} (h : Leads next p (l ++ a :: l') e)
    (hnodup : (p :: (l ++ a :: l')).Nodup) (hlast : next' (l.getLastD p) = next a)
    (hkept : ∀ x, x ≠ l.getLastD p → next' x = next x) : Leads next' p (l ++ l') e := by
  rw [← List.cons_append] at hnodup
  obtain ⟨hnodupl, -, hdisjoint⟩ := List.nodup_append.mp hnodup
  apply h.unlink hnodupl (fun x _ => hkept x) hlast
  intro x hx
  exact hkept x (hdisjoint _ List.getLastD_mem_cons x (List.mem_cons_of_mem _ hx)).symm

/-- The chain is as it was when the links of its nodes are. -/
theorem Leads.congr {next : β → β} (h : Leads next p l e) (hkept : ∀ x ∈ p :: l, next' x = next x) :
    Leads next' p l e := by
  apply h.reroot
  · rw [hkept p (List.mem_cons_self ..)]
    exact h.next_head
  · intro x hx
    exact hkept x (List.mem_cons_of_mem _ hx)
