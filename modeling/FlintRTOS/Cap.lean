import FlintRTOS.Machine
import Mathlib.Data.Finset.Prod
import Mathlib.Data.Fintype.Basic
import Mathlib.Logic.Function.Basic

/-!
# Capabilities and the flat CNode

`cap.c`: capability slots, and the operations that install, copy, mint, move and
delete them.  The state is a family of CNodes, so that an operation may work
between two of them or within one.

Three results.  An operation changes the slots it names or nothing.  Whatever is
derived stays within the authority that was there at the start.  The derivation
edges (`parent`) do not stay meaningful: `move` leaves the children of the moved
capability pointing at the slot it left.
-/

namespace FlintRTOS

/-- `flint_status_t`, as far as `cap.c` returns it. -/
inductive FlintStatus where
  | ok
  | capInvalid
  | capType
  | state
  | exists
  | empty
deriving DecidableEq, Repr

inductive CapType where
  | null
  | untyped
  | domain
  | thread
  | cnode
  | endpoint
  | notification
  | reply
  | schedContext
  | irqHandler
  | memRegion
deriving DecidableEq, Repr

abbrev flintCfgCnodeSlots : Nat := 64

def flintRightAll : UInt8 := 0xF

def flintCapNoParent : UInt32 := 0xFFFFFFFF

structure FlintCap where
  type : CapType
  rights : UInt8
  badge : UInt32
  object : UInt32
  parent : UInt32
deriving DecidableEq, Repr

/-- The index of a slot. -/
abbrev Slot := Fin flintCfgCnodeSlots

/-- The slots of every CNode; `ι` names the CNodes. -/
abbrev CSpace (ι : Type) := ι → Slot → FlintCap

/-- An empty slot. -/
def capClear : FlintCap := ⟨.null, 0, 0, 0, flintCapNoParent⟩

def flintCnodeInit : Slot → FlintCap := fun _ => capClear

def flintCapTypeIsBadged (type : CapType) : Bool :=
  decide (type = .endpoint) || decide (type = .notification)

section operations

variable {ι : Type} [DecidableEq ι]

/-- One slot is written. -/
def CSpace.set (s : CSpace ι) (cn : ι) (i : Slot) (c : FlintCap) : CSpace ι :=
  Function.update s cn (Function.update (s cn) i c)

def flintCnodeLookup (cptr : UInt32) : Except FlintStatus Slot :=
  if h : cptr.toNat < flintCfgCnodeSlots then .ok ⟨cptr.toNat, h⟩ else .error .capInvalid

def flintCnodeInstall (cn : ι) (slot : UInt32) (cap : FlintCap) (s : CSpace ι) :
    FlintStatus × CSpace ι :=
  match flintCnodeLookup slot with
  | .error st => (st, s)
  | .ok dst => if (s cn dst).type ≠ .null then (.exists, s) else (.ok, s.set cn dst cap)

/-- The slots of the destination and of the source. -/
def deriveCheck (dstCn : ι) (dst : UInt32) (srcCn : ι) (src : UInt32) (s : CSpace ι) :
    Except FlintStatus (Slot × Slot) := do
  let ps ← flintCnodeLookup src
  let pd ← flintCnodeLookup dst
  if (s srcCn ps).type = .null then .error .empty
  else if (s dstCn pd).type ≠ .null then .error .exists
  else .ok (pd, ps)

def flintCnodeCopy (dstCn : ι) (dst : UInt32) (srcCn : ι) (src : UInt32) (rightsMask : UInt8)
    (s : CSpace ι) : FlintStatus × CSpace ι :=
  match deriveCheck dstCn dst srcCn src s with
  | .error st => (st, s)
  | .ok (pd, ps) =>
      let c := s srcCn ps
      (.ok, s.set dstCn pd
        ⟨c.type, c.rights &&& rightsMask &&& flintRightAll, c.badge, c.object, src⟩)

def flintCnodeMint (dstCn : ι) (dst : UInt32) (srcCn : ι) (src : UInt32) (rightsMask : UInt8)
    (badge : UInt32) (s : CSpace ι) : FlintStatus × CSpace ι :=
  match deriveCheck dstCn dst srcCn src s with
  | .error st => (st, s)
  | .ok (pd, ps) =>
      let c := s srcCn ps
      if flintCapTypeIsBadged c.type = false then (.capType, s)
      else if c.badge ≠ 0 then (.state, s)
      else (.ok, s.set dstCn pd
        ⟨c.type, c.rights &&& rightsMask &&& flintRightAll, badge, c.object, src⟩)

def flintCnodeMove (dstCn : ι) (dst : UInt32) (srcCn : ι) (src : UInt32) (s : CSpace ι) :
    FlintStatus × CSpace ι :=
  match deriveCheck dstCn dst srcCn src s with
  | .error st => (st, s)
  | .ok (pd, ps) => (.ok, (s.set dstCn pd (s srcCn ps)).set srcCn ps capClear)

def flintCnodeDelete (cn : ι) (slot : UInt32) (s : CSpace ι) : FlintStatus × CSpace ι :=
  match flintCnodeLookup slot with
  | .error st => (st, s)
  | .ok p => if (s cn p).type = .null then (.empty, s) else (.ok, s.set cn p capClear)

end operations

/-! ### The operations as a machine -/

inductive CapOp (ι : Type) where
  | install (cn : ι) (slot : UInt32) (cap : FlintCap)
  | copy (dstCn : ι) (dst : UInt32) (srcCn : ι) (src : UInt32) (rightsMask : UInt8)
  | mint (dstCn : ι) (dst : UInt32) (srcCn : ι) (src : UInt32) (rightsMask : UInt8)
      (badge : UInt32)
  | move (dstCn : ι) (dst : UInt32) (srcCn : ι) (src : UInt32)
  | delete (cn : ι) (slot : UInt32)
deriving DecidableEq, Repr

section

variable {ι : Type} [DecidableEq ι]

def CapOp.run (s : CSpace ι) : CapOp ι → FlintStatus × CSpace ι
  | .install cn slot cap => flintCnodeInstall cn slot cap s
  | .copy dstCn dst srcCn src mask => flintCnodeCopy dstCn dst srcCn src mask s
  | .mint dstCn dst srcCn src mask badge => flintCnodeMint dstCn dst srcCn src mask badge s
  | .move dstCn dst srcCn src => flintCnodeMove dstCn dst srcCn src s
  | .delete cn slot => flintCnodeDelete cn slot s

/-- Any operation with any arguments, from the given contents. -/
def cspace (init : CSpace ι) : Machine (CSpace ι) (CapOp ι) where
  init := init
  guard _ _ := True
  exec s op := some (op.run s).2

instance (init s : CSpace ι) (op : CapOp ι) : Decidable ((cspace init).guard s op) :=
  inferInstanceAs (Decidable True)

/-! ### What an operation does -/

/-- `c` is a copy of `p`, the capability at `src`, or minted from it: rights are
    taken away only, and a badge is stamped at most once. -/
structure DerivedFrom (p : FlintCap) (src : UInt32) (c : FlintCap) : Prop where
  type : c.type = p.type
  object : c.object = p.object
  rights : c.rights &&& p.rights = c.rights
  badge : c.badge = p.badge ∨ p.badge = 0 ∧ flintCapTypeIsBadged p.type = true
  parent : c.parent = src

/-- Everything an operation can do. -/
inductive CapEffect (s : CSpace ι) : CapOp ι → CSpace ι → Prop where
  | refused {op : CapOp ι} (hst : (op.run s).1 ≠ .ok) : CapEffect s op s
  | installed {cn : ι} {slot : UInt32} {cap : FlintCap} {i : Slot} (hempty : (s cn i).type = .null) :
      CapEffect s (.install cn slot cap) (s.set cn i cap)
  | derived {op : CapOp ι} {dstCn srcCn : ι} {src : UInt32} {pd ps : Slot} {c : FlintCap}
      (hsrc : src.toNat = ps.val) (hoccupied : (s srcCn ps).type ≠ .null)
      (hempty : (s dstCn pd).type = .null) (hderived : DerivedFrom (s srcCn ps) src c)
      (hop : (∃ dst mask, op = .copy dstCn dst srcCn src mask) ∨
        ∃ dst mask badge, op = .mint dstCn dst srcCn src mask badge) :
      CapEffect s op (s.set dstCn pd c)
  | moved {dstCn srcCn : ι} {dst src : UInt32} {pd ps : Slot} (hsrc : src.toNat = ps.val)
      (hoccupied : (s srcCn ps).type ≠ .null) (hempty : (s dstCn pd).type = .null)
      (hcheck : deriveCheck dstCn dst srcCn src s = .ok (pd, ps)) :
      CapEffect s (.move dstCn dst srcCn src)
        ((s.set dstCn pd (s srcCn ps)).set srcCn ps capClear)
  | deleted {cn : ι} {slot : UInt32} {i : Slot} :
      CapEffect s (.delete cn slot) (s.set cn i capClear)

variable {i pd ps : Slot} {dstCn srcCn cn : ι} {src cptr dst : UInt32} {s s' : CSpace ι}
  {st : FlintStatus} {c : FlintCap}

theorem flintCnodeLookup_ok (h : flintCnodeLookup cptr = .ok i) : cptr.toNat = i.val := by
  unfold flintCnodeLookup at h
  split at h
  · cases h
    rfl
  · cases h

theorem flintCnodeLookup_error (h : flintCnodeLookup cptr = .error st) : st ≠ .ok := by
  unfold flintCnodeLookup at h
  split at h
  · cases h
  · cases h
    decide

omit [DecidableEq ι] in
theorem deriveCheck_error (h : deriveCheck dstCn dst srcCn src s = .error st) : st ≠ .ok := by
  unfold deriveCheck at h
  cases hsrc : flintCnodeLookup src with
  | error st' =>
    simp only [hsrc, bind, Except.bind, Except.error.injEq] at h
    exact h ▸ flintCnodeLookup_error hsrc
  | ok ps =>
    cases hdst : flintCnodeLookup dst with
    | error st' =>
      simp only [hsrc, hdst, bind, Except.bind, Except.error.injEq] at h
      exact h ▸ flintCnodeLookup_error hdst
    | ok pd =>
      simp only [hsrc, hdst, bind, Except.bind] at h
      split at h
      · cases h
        decide
      · split at h
        · cases h
          decide
        · cases h

omit [DecidableEq ι] in
theorem deriveCheck_ok (h : deriveCheck dstCn dst srcCn src s = .ok (pd, ps)) :
    src.toNat = ps.val ∧ (s srcCn ps).type ≠ .null ∧ (s dstCn pd).type = .null ∧
      dst.toNat = pd.val := by
  unfold deriveCheck at h
  cases hsrc : flintCnodeLookup src with
  | error st => simp [hsrc, bind, Except.bind] at h
  | ok ps' =>
    cases hdst : flintCnodeLookup dst with
    | error st => simp [hsrc, hdst, bind, Except.bind] at h
    | ok pd' =>
      simp only [hsrc, hdst, bind, Except.bind] at h
      split at h
      · cases h
      · rename_i hoccupied
        split at h
        · cases h
        · rename_i hempty
          cases h
          exact ⟨flintCnodeLookup_ok hsrc, hoccupied, not_not.mp hempty, flintCnodeLookup_ok hdst⟩

theorem rights_and_sub (r mask : UInt8) :
    r &&& mask &&& flintRightAll &&& r = r &&& mask &&& flintRightAll := by
  rw [UInt8.and_assoc r, UInt8.and_comm (r &&& _), ← UInt8.and_assoc, UInt8.and_self]

/-- What a successful operation writes. -/
def CapOp.Done (s s' : CSpace ι) : CapOp ι → Prop
  | .install cn slot cap =>
      ∃ i : Slot, slot.toNat = i.val ∧ (s cn i).type = .null ∧ s' = s.set cn i cap
  | .copy dstCn dst srcCn src _ | .mint dstCn dst srcCn src _ _ =>
      ∃ pd ps : Slot, deriveCheck dstCn dst srcCn src s = .ok (pd, ps) ∧
        ∃ c, DerivedFrom (s srcCn ps) src c ∧ s' = s.set dstCn pd c
  | .move dstCn dst srcCn src =>
      ∃ pd ps : Slot, deriveCheck dstCn dst srcCn src s = .ok (pd, ps) ∧
        s' = (s.set dstCn pd (s srcCn ps)).set srcCn ps capClear
  | .delete cn slot => ∃ i : Slot, slot.toNat = i.val ∧ s' = s.set cn i capClear

/-- An operation either fails and writes nothing, or succeeds. -/
theorem CapOp.run_cases (s : CSpace ι) (op : CapOp ι) :
    (∃ st, st ≠ .ok ∧ op.run s = (st, s)) ∨ ∃ s', op.run s = (.ok, s') ∧ op.Done s s' := by
  cases op with
  | install cn slot cap =>
    cases hlookup : flintCnodeLookup slot with
    | error st =>
      exact Or.inl ⟨st, flintCnodeLookup_error hlookup, by simp only [run, flintCnodeInstall, hlookup]⟩
    | ok i =>
      by_cases hempty : (s cn i).type = .null
      · exact Or.inr ⟨_, by simp only [run, flintCnodeInstall, hlookup, hempty, ne_eq,
          not_true_eq_false, if_false], i, flintCnodeLookup_ok hlookup, hempty, rfl⟩
      · exact Or.inl ⟨.exists, by decide, by simp [run, flintCnodeInstall, hlookup, hempty]⟩
  | copy dstCn dst srcCn src mask =>
    cases hcheck : deriveCheck dstCn dst srcCn src s with
    | error st =>
      exact Or.inl ⟨st, deriveCheck_error hcheck, by simp only [run, flintCnodeCopy, hcheck]⟩
    | ok slots =>
      obtain ⟨c, hrun, hderived⟩ : ∃ c, run s (.copy dstCn dst srcCn src mask) =
          (.ok, s.set dstCn slots.1 c) ∧ DerivedFrom (s srcCn slots.2) src c := by
        simp only [run, flintCnodeCopy, hcheck]
        exact ⟨_, rfl, rfl, rfl, rights_and_sub _ _, Or.inl rfl, rfl⟩
      exact Or.inr ⟨_, hrun, _, _, hcheck, c, hderived, rfl⟩
  | mint dstCn dst srcCn src mask badge =>
    cases hcheck : deriveCheck dstCn dst srcCn src s with
    | error st =>
      exact Or.inl ⟨st, deriveCheck_error hcheck, by simp only [run, flintCnodeMint, hcheck]⟩
    | ok slots =>
      by_cases hbadged : flintCapTypeIsBadged (s srcCn slots.2).type = false
      · exact Or.inl ⟨.capType, by decide, by simp [run, flintCnodeMint, hcheck, hbadged]⟩
      · by_cases hbadge : (s srcCn slots.2).badge = 0
        · obtain ⟨c, hrun, hderived⟩ : ∃ c, run s (.mint dstCn dst srcCn src mask badge) =
              (.ok, s.set dstCn slots.1 c) ∧ DerivedFrom (s srcCn slots.2) src c := by
            simp only [run, flintCnodeMint, hcheck, if_neg hbadged, hbadge, ne_eq,
              not_true_eq_false, if_false]
            exact ⟨_, rfl, rfl, rfl, rights_and_sub _ _,
              Or.inr ⟨hbadge, by simpa using hbadged⟩, rfl⟩
          exact Or.inr ⟨_, hrun, _, _, hcheck, c, hderived, rfl⟩
        · exact Or.inl ⟨.state, by decide, by simp [run, flintCnodeMint, hcheck, hbadged, hbadge]⟩
  | move dstCn dst srcCn src =>
    cases hcheck : deriveCheck dstCn dst srcCn src s with
    | error st =>
      exact Or.inl ⟨st, deriveCheck_error hcheck, by simp only [run, flintCnodeMove, hcheck]⟩
    | ok slots =>
      exact Or.inr ⟨_, by simp only [run, flintCnodeMove, hcheck], _, _, hcheck, rfl⟩
  | delete cn slot =>
    cases hlookup : flintCnodeLookup slot with
    | error st =>
      exact Or.inl ⟨st, flintCnodeLookup_error hlookup, by simp only [run, flintCnodeDelete, hlookup]⟩
    | ok i =>
      by_cases hempty : (s cn i).type = .null
      · exact Or.inl ⟨.empty, by decide, by simp [run, flintCnodeDelete, hlookup, hempty]⟩
      · exact Or.inr ⟨_, by simp only [run, flintCnodeDelete, hlookup, hempty, if_false],
          i, flintCnodeLookup_ok hlookup, rfl⟩

theorem CapOp.effect (s : CSpace ι) (op : CapOp ι) : CapEffect s op (op.run s).2 := by
  rcases op.run_cases s with ⟨st, hst, hrun⟩ | ⟨s', hrun, hdone⟩
  · have heffect : CapEffect s op s := .refused (by rwa [hrun])
    rwa [hrun]
  · rw [hrun]
    cases op with
    | install cn slot cap =>
      obtain ⟨i, _, hempty, rfl⟩ := hdone
      exact .installed hempty
    | copy dstCn dst srcCn src mask =>
      obtain ⟨pd, ps, hcheck, c, hderived, rfl⟩ := hdone
      obtain ⟨hsrc, hoccupied, hempty, _⟩ := deriveCheck_ok hcheck
      exact .derived hsrc hoccupied hempty hderived (Or.inl ⟨_, _, rfl⟩)
    | mint dstCn dst srcCn src mask badge =>
      obtain ⟨pd, ps, hcheck, c, hderived, rfl⟩ := hdone
      obtain ⟨hsrc, hoccupied, hempty, _⟩ := deriveCheck_ok hcheck
      exact .derived hsrc hoccupied hempty hderived (Or.inr ⟨_, _, _, rfl⟩)
    | move dstCn dst srcCn src =>
      obtain ⟨pd, ps, hcheck, rfl⟩ := hdone
      obtain ⟨hsrc, hoccupied, hempty, _⟩ := deriveCheck_ok hcheck
      exact .moved hsrc hoccupied hempty hcheck
    | delete cn slot =>
      obtain ⟨i, _, rfl⟩ := hdone
      exact .deleted

variable {init : CSpace ι} {op : CapOp ι}

theorem cspace_effect (h : (cspace init).Step s op s') : CapEffect s op s' := by
  obtain ⟨_, hexec⟩ := h
  cases hexec
  exact op.effect s

/-- What is in a slot after it or another was written. -/
theorem CSpace.set_cases (s : CSpace ι) (cn cn' : ι) (i i' : Slot) (c : FlintCap) :
    (cn' = cn ∧ i' = i ∧ s.set cn i c cn' i' = c) ∨
      (¬ (cn' = cn ∧ i' = i) ∧ s.set cn i c cn' i' = s cn' i') := by
  unfold set
  by_cases hcn : cn' = cn
  · subst hcn
    by_cases hi : i' = i
    · subst hi
      left
      simp
    · right
      simp [hi]
  · right
    simp [hcn]

theorem CSpace.set_self (s : CSpace ι) (cn : ι) (i : Slot) (c : FlintCap) :
    s.set cn i c cn i = c := by
  rcases s.set_cases cn cn i i c with ⟨_, _, heq⟩ | ⟨hne, _⟩
  · exact heq
  · exact absurd ⟨rfl, rfl⟩ hne

theorem CSpace.set_of_ne (s : CSpace ι) {cn' : ι} {i' : Slot} (c : FlintCap)
    (h : ¬ (cn' = cn ∧ i' = i)) : s.set cn i c cn' i' = s cn' i' := by
  rcases s.set_cases cn cn' i i' c with ⟨hcn, hi, _⟩ | ⟨_, heq⟩
  · exact absurd ⟨hcn, hi⟩ h
  · exact heq

/-! ### Operations are atomic and local -/

/-- The slot that receives a capability. -/
def CapOp.destination : CapOp ι → Option (ι × UInt32)
  | .install cn slot _ => some (cn, slot)
  | .copy dstCn dst _ _ _ => some (dstCn, dst)
  | .mint dstCn dst _ _ _ _ => some (dstCn, dst)
  | .move dstCn dst _ _ => some (dstCn, dst)
  | .delete _ _ => none

/-- The slot that a move leaves or a delete names. -/
def CapOp.vacated : CapOp ι → Option (ι × UInt32)
  | .move _ _ srcCn src => some (srcCn, src)
  | .delete cn slot => some (cn, slot)
  | _ => none

theorem CapOp.Done.unchanged (h : op.Done s s')
    (hdst : ∀ slot, op.destination = some (cn, slot) → slot.toNat ≠ i.val)
    (hsrc : ∀ slot, op.vacated = some (cn, slot) → slot.toNat ≠ i.val) : s' cn i = s cn i := by
  have hset : ∀ (t : CSpace ι) (cn' : ι) (slot : UInt32) (i' : Slot) (c : FlintCap),
      slot.toNat = i'.val → (cn = cn' → slot.toNat ≠ i.val) → t.set cn' i' c cn i = t cn i := by
    intro t cn' slot i' c hslot hne
    exact t.set_of_ne c fun ⟨hcn, hi⟩ => hne hcn (hi ▸ hslot)
  cases op with
  | install cn' slot cap =>
    obtain ⟨i', hslot, _, rfl⟩ := h
    exact hset _ _ slot _ _ hslot fun hcn => hdst slot (by rw [hcn]; rfl)
  | copy dstCn dst srcCn src mask =>
    obtain ⟨pd, ps, hcheck, c, _, rfl⟩ := h
    obtain ⟨_, _, _, hslot⟩ := deriveCheck_ok hcheck
    exact hset _ _ dst _ _ hslot fun hcn => hdst dst (by rw [hcn]; rfl)
  | mint dstCn dst srcCn src mask badge =>
    obtain ⟨pd, ps, hcheck, c, _, rfl⟩ := h
    obtain ⟨_, _, _, hslot⟩ := deriveCheck_ok hcheck
    exact hset _ _ dst _ _ hslot fun hcn => hdst dst (by rw [hcn]; rfl)
  | move dstCn dst srcCn src =>
    obtain ⟨pd, ps, hcheck, rfl⟩ := h
    obtain ⟨hps, _, _, hpd⟩ := deriveCheck_ok hcheck
    rw [hset _ _ src _ _ hps fun hcn => hsrc src (by rw [hcn]; rfl)]
    exact hset _ _ dst _ _ hpd fun hcn => hdst dst (by rw [hcn]; rfl)
  | delete cn' slot =>
    obtain ⟨i', hslot, rfl⟩ := h
    exact hset _ _ slot _ _ hslot fun hcn => hsrc slot (by rw [hcn]; rfl)

theorem CapOp.Done.destination_empty (h : op.Done s s') {slot : UInt32}
    (hdst : op.destination = some (cn, slot)) :
    ∃ i : Slot, slot.toNat = i.val ∧ (s cn i).type = .null := by
  cases op with
  | install cn' slot' cap =>
    obtain ⟨i, hslot, hempty, _⟩ := h
    cases hdst
    exact ⟨i, hslot, hempty⟩
  | copy dstCn dst srcCn src mask =>
    obtain ⟨pd, _, hcheck, _⟩ := h
    obtain ⟨_, _, hempty, hslot⟩ := deriveCheck_ok hcheck
    cases hdst
    exact ⟨pd, hslot, hempty⟩
  | mint dstCn dst srcCn src mask badge =>
    obtain ⟨pd, _, hcheck, _⟩ := h
    obtain ⟨_, _, hempty, hslot⟩ := deriveCheck_ok hcheck
    cases hdst
    exact ⟨pd, hslot, hempty⟩
  | move dstCn dst srcCn src =>
    obtain ⟨pd, _, hcheck, _⟩ := h
    obtain ⟨_, _, hempty, hslot⟩ := deriveCheck_ok hcheck
    cases hdst
    exact ⟨pd, hslot, hempty⟩
  | delete => cases hdst

/-- The capabilities stored in the CNodes of `C`. -/
def storedCaps (C : Finset ι) (s : CSpace ι) : Multiset FlintCap :=
  ((C ×ˢ Finset.univ).val.map fun x : ι × Slot => s x.1 x.2).filter (·.type ≠ .null)

/-- Taking the only capability of two slots to the other slot. -/
theorem storedCaps_move {C : Finset ι} (hdst : dstCn ∈ C) (hsrc : srcCn ∈ C)
    (hempty : (s dstCn pd).type = .null) (hoccupied : (s srcCn ps).type ≠ .null) :
    storedCaps C ((s.set dstCn pd (s srcCn ps)).set srcCn ps capClear) = storedCaps C s := by
  have hne : ¬ (dstCn = srcCn ∧ pd = ps) := by
    rintro ⟨rfl, rfl⟩
    exact hoccupied hempty
  -- the two slots and the rest, which the move does not touch
  obtain ⟨R, hR⟩ : ∃ R : Multiset (ι × Slot),
      (C ×ˢ (Finset.univ : Finset Slot)).val = (dstCn, pd) ::ₘ (srcCn, ps) ::ₘ R := by
    obtain ⟨R₁, hR₁⟩ := Multiset.exists_cons_of_mem
      (show (dstCn, pd) ∈ (C ×ˢ (Finset.univ : Finset Slot)).val by simpa using hdst)
    have hmem : (srcCn, ps) ∈ R₁ := by
      have h : (srcCn, ps) ∈ (C ×ˢ (Finset.univ : Finset Slot)).val := by simpa using hsrc
      rw [hR₁, Multiset.mem_cons, Prod.mk.injEq] at h
      exact h.resolve_left fun heq => hne ⟨heq.1.symm, heq.2.symm⟩
    obtain ⟨R, hR⟩ := Multiset.exists_cons_of_mem hmem
    exact ⟨R, hR₁.trans (by rw [hR])⟩
  have hnodup := (C ×ˢ (Finset.univ : Finset Slot)).nodup
  rw [hR, Multiset.nodup_cons, Multiset.nodup_cons, Multiset.mem_cons, not_or] at hnodup
  obtain ⟨⟨_, hd⟩, hr, _⟩ := hnodup
  have hrest : R.map (fun x => (s.set dstCn pd (s srcCn ps)).set srcCn ps capClear x.1 x.2) =
      R.map fun x => s x.1 x.2 := by
    refine Multiset.map_congr rfl fun x hx => ?_
    have hxd : ¬ (x.1 = dstCn ∧ x.2 = pd) := by
      rintro ⟨rfl, rfl⟩
      exact hd hx
    have hxr : ¬ (x.1 = srcCn ∧ x.2 = ps) := by
      rintro ⟨rfl, rfl⟩
      exact hr hx
    rw [CSpace.set_of_ne _ _ hxr, CSpace.set_of_ne _ _ hxd]
  simp only [storedCaps, hR, Multiset.map_cons, hrest, CSpace.set_of_ne _ _ hne, CSpace.set_self]
  simp [hoccupied, hempty, capClear]

/-- **Capability operations are atomic and local.**  An operation that does not
    return `FLINT_OK` changes no slot of any CNode.  One that does changes the
    destination and the slot it vacates, and nothing else; the destination was
    empty, and a move keeps the multiset of stored capabilities. -/
theorem capability_operations_atomic (s : CSpace ι) (op : CapOp ι) :
    ((op.run s).1 ≠ .ok → (op.run s).2 = s) ∧
    ((op.run s).1 = .ok →
      (∀ cn i, (∀ slot, op.destination = some (cn, slot) → slot.toNat ≠ i.val) →
        (∀ slot, op.vacated = some (cn, slot) → slot.toNat ≠ i.val) →
        (op.run s).2 cn i = s cn i) ∧
      (∀ cn slot, op.destination = some (cn, slot) →
        ∃ i : Slot, slot.toNat = i.val ∧ (s cn i).type = .null) ∧
      (∀ dstCn dst srcCn src, op = .move dstCn dst srcCn src →
        ∀ C : Finset ι, dstCn ∈ C → srcCn ∈ C → storedCaps C (op.run s).2 = storedCaps C s)) := by
  rcases op.run_cases s with ⟨st, hst, hrun⟩ | ⟨s', hrun, hdone⟩
  · rw [hrun]
    exact ⟨fun _ => rfl, fun hok => absurd hok hst⟩
  · rw [hrun]
    refine ⟨fun hst => absurd rfl hst, fun _ => ⟨?_, ?_, ?_⟩⟩
    · exact fun cn i => hdone.unchanged
    · exact fun cn slot => hdone.destination_empty
    · rintro dstCn dst srcCn src rfl C hdst hsrc
      obtain ⟨pd, ps, hcheck, rfl⟩ := hdone
      obtain ⟨_, hoccupied, hempty, _⟩ := deriveCheck_ok hcheck
      exact storedCaps_move hdst hsrc hempty hoccupied

/-! ### Authority is confined -/

/-- `c` carries no authority that `c₀` does not. -/
structure Within (c₀ c : FlintCap) : Prop where
  type : c₀.type = c.type
  object : c₀.object = c.object
  rights : c.rights &&& c₀.rights = c.rights
  badge : c₀.badge = c.badge ∨ c₀.badge = 0 ∧ flintCapTypeIsBadged c.type = true

theorem Within.refl (c : FlintCap) : Within c c :=
  ⟨rfl, rfl, UInt8.and_self, Or.inl rfl⟩

theorem Within.derived {c₀ p : FlintCap} (h : Within c₀ p) (hderived : DerivedFrom p src c) :
    Within c₀ c := by
  refine ⟨h.type.trans hderived.type.symm, h.object.trans hderived.object.symm, ?_, ?_⟩
  · rw [← hderived.rights, UInt8.and_assoc, h.rights]
  · rcases hderived.badge with hsame | ⟨hzero, hbadged⟩
    · rw [hsame, hderived.type]
      exact h.badge
    · right
      rw [hderived.type]
      rcases h.badge with hbadge | ⟨hbadge, _⟩
      · exact ⟨hbadge.trans hzero, hbadged⟩
      · exact ⟨hbadge, hbadged⟩

/-- Every occupied slot is within some slot of `init`. -/
def Confined (init s : CSpace ι) : Prop :=
  ∀ cn i, (s cn i).type ≠ .null → ∃ cn₀ i₀, Within (init cn₀ i₀) (s cn i)

/-- Writing a slot keeps authority confined if what is written is empty or within
    something that was there. -/
theorem Confined.set (h : Confined init s)
    (hc : c.type ≠ .null → ∃ cn₀ i₀, Within (init cn₀ i₀) c) : Confined init (s.set cn i c) := by
  intro cn' i' hoccupied
  rcases s.set_cases cn cn' i i' c with ⟨_, _, heq⟩ | ⟨_, heq⟩
  · rw [heq] at hoccupied ⊢
    exact hc hoccupied
  · rw [heq] at hoccupied ⊢
    exact h cn' i' hoccupied

/-- Anything but an install. -/
def NoInstall (_ : CSpace ι) : CapOp ι → Prop
  | .install .. => False
  | _ => True

theorem confined_step (h : Confined init s) (hop : NoInstall s op) (heffect : CapEffect s op s') :
    Confined init s' := by
  cases heffect with
  | refused => exact h
  | installed => exact hop.elim
  | derived _ hoccupied _ hderived =>
    obtain ⟨cn₀, i₀, hwithin⟩ := h _ _ hoccupied
    exact h.set fun _ => ⟨cn₀, i₀, hwithin.derived hderived⟩
  | moved _ hoccupied =>
    exact (h.set fun _ => h _ _ hoccupied).set fun hnull => absurd rfl hnull
  | deleted => exact h.set fun hnull => absurd rfl hnull

/-- **Authority confinement.**  After any sequence of copies, mints, moves and
    deletes between any CNodes, every occupied slot holds a capability within one
    that some slot held at the start. -/
theorem authority_confined {init s : CSpace ι} (h : ((cspace init).restrict NoInstall).Reach s) :
    ∀ cn i, (s cn i).type ≠ .null → ∃ cn₀ i₀, (init cn₀ i₀).type = (s cn i).type ∧
      (init cn₀ i₀).object = (s cn i).object ∧
      (s cn i).rights &&& (init cn₀ i₀).rights = (s cn i).rights ∧
      ((init cn₀ i₀).badge = (s cn i).badge ∨
        (init cn₀ i₀).badge = 0 ∧ ((s cn i).type = .endpoint ∨ (s cn i).type = .notification)) := by
  have hconfined : Confined init s := by
    refine h.invariant (P := Confined init) ?_ ?_
    · exact fun cn i _ => ⟨cn, i, .refl _⟩
    · intro s op s' _ ih hstep
      obtain ⟨hstep, hop⟩ := Machine.restrict_step.mp hstep
      exact confined_step ih hop (cspace_effect hstep)
  intro cn i hoccupied
  obtain ⟨cn₀, i₀, htype, hobject, hrights, hbadge⟩ := hconfined cn i hoccupied
  refine ⟨cn₀, i₀, htype, hobject, hrights, hbadge.imp_right fun ⟨hzero, hbadged⟩ => ⟨hzero, ?_⟩⟩
  simpa [flintCapTypeIsBadged] using hbadged

end

/-- Two CNodes: an endpoint with rights read and write in the first, nothing else. -/
def oneEndpoint : CSpace Bool := fun cn i =>
  if cn = false ∧ i = 0 then ⟨.endpoint, 3, 0, 9, flintCapNoParent⟩ else capClear

instance {ι : Type} [DecidableEq ι] (s : CSpace ι) : ∀ op, Decidable (NoInstall s op)
  | .install .. => inferInstanceAs (Decidable False)
  | .copy .. | .mint .. | .move .. | .delete .. => inferInstanceAs (Decidable True)

/-- A mint into the other CNode asks for all rights and gets the two there are. -/
theorem authority_confined_mint :
    ∃ s, ((cspace oneEndpoint).restrict NoInstall).Reach s ∧
      (s true 5).type = .endpoint ∧ (s true 5).badge = 7 ∧
      ∃ cn₀ i₀, (oneEndpoint cn₀ i₀).type = .endpoint ∧
        (s true 5).rights &&& (oneEndpoint cn₀ i₀).rights = (s true 5).rights := by
  obtain ⟨s, hreach, hs⟩ := ((cspace oneEndpoint).restrict NoInstall).exists_reach
    [.mint true 5 false 0 0xFF 7, .move false 1 false 0, .delete false 1]
    (fun s => (s true 5).type = .endpoint ∧ (s true 5).badge = 7) (by decide +kernel)
  obtain ⟨htype, hbadge⟩ := of_decide_eq_true hs
  obtain ⟨cn₀, i₀, hsame, _, hrights, _⟩ := authority_confined hreach true 5 (by simp [htype])
  exact ⟨s, hreach, htype, hbadge, cn₀, i₀, hsame.trans htype, hrights⟩

/-! ### Derivation edges -/

/-- Every parent named in an occupied slot is a slot that holds the same object
    with at least the rights. -/
def DerivationEdges (s : CSpace Unit) : Prop :=
  ∀ i, (s () i).type ≠ .null → (s () i).parent ≠ flintCapNoParent →
    ∃ p : Slot, (s () i).parent.toNat = p.val ∧ (s () p).type = (s () i).type ∧
      (s () p).object = (s () i).object ∧
      (s () i).rights &&& (s () p).rights = (s () i).rights

/-- Root capabilities are installed; anything is copied, minted and moved. -/
def BuildOp (_ : CSpace Unit) : CapOp Unit → Prop
  | .install _ _ cap => cap.parent = flintCapNoParent
  | .delete .. => False
  | _ => True

/-- What a move takes out of its slot has no children. -/
def MovesLeaf (s : CSpace Unit) : CapOp Unit → Prop
  | .move _ dst _ src =>
      match deriveCheck () dst () src s with
      | .error _ => True
      | .ok _ => ∀ i, (s () i).type ≠ .null → (s () i).parent ≠ src
  | _ => True

instance (s : CSpace Unit) : ∀ op, Decidable (BuildOp s op)
  | .install _ _ cap => inferInstanceAs (Decidable (cap.parent = flintCapNoParent))
  | .delete .. => inferInstanceAs (Decidable False)
  | .copy .. | .mint .. | .move .. => inferInstanceAs (Decidable True)

/-- The CNode as `flint_cnode_init` leaves it. -/
def freshCnode : CSpace Unit := fun _ => flintCnodeInit

theorem DerivationEdges.init : DerivationEdges freshCnode :=
  fun _ hoccupied => absurd rfl hoccupied

variable {s : CSpace Unit} {i : Slot}

/-- Filling an empty slot keeps the edges if the new capability's own edge is
    meaningful: no edge leads to the slot while it is empty. -/
theorem DerivationEdges.fill (h : DerivationEdges s) {c : FlintCap} (hempty : (s () i).type = .null)
    (hc : c.type ≠ .null → c.parent ≠ flintCapNoParent → ∃ p : Slot, c.parent.toNat = p.val ∧
      (s () p).type = c.type ∧ (s () p).object = c.object ∧ c.rights &&& (s () p).rights = c.rights) :
    DerivationEdges (s.set () i c) := by
  -- a parent is occupied, so it is not the slot that is filled
  have hlift : ∀ d : FlintCap, d.type ≠ .null → (∃ p : Slot, d.parent.toNat = p.val ∧
      (s () p).type = d.type ∧ (s () p).object = d.object ∧
      d.rights &&& (s () p).rights = d.rights) →
      ∃ p : Slot, d.parent.toNat = p.val ∧ (s.set () i c () p).type = d.type ∧
        (s.set () i c () p).object = d.object ∧
        d.rights &&& (s.set () i c () p).rights = d.rights := by
    rintro d hd ⟨p, hparent, htype, hrest⟩
    refine ⟨p, hparent, ?_⟩
    rcases s.set_cases () () i p c with ⟨_, rfl, _⟩ | ⟨_, heq⟩
    · exact absurd (htype.symm.trans hempty) hd
    · rw [heq]
      exact ⟨htype, hrest⟩
  intro j hoccupied hparent
  rcases s.set_cases () () i j c with ⟨_, _, heq⟩ | ⟨_, heq⟩
  · rw [heq] at hoccupied hparent ⊢
    exact hlift c hoccupied (hc hoccupied hparent)
  · rw [heq] at hoccupied hparent ⊢
    exact hlift _ hoccupied (h j hoccupied hparent)

/-- Emptying a slot keeps the edges when none leads to it. -/
theorem DerivationEdges.clear (h : DerivationEdges s)
    (hleaf : ∀ j, j ≠ i → (s () j).type ≠ .null → (s () j).parent.toNat ≠ i.val) :
    DerivationEdges (s.set () i capClear) := by
  intro j hoccupied hparent
  rcases s.set_cases () () i j capClear with ⟨_, _, heq⟩ | ⟨hj, heq⟩
  · rw [heq] at hoccupied
    exact absurd rfl hoccupied
  · rw [heq] at hoccupied hparent ⊢
    obtain ⟨p, hp, hrest⟩ := h j hoccupied hparent
    refine ⟨p, hp, ?_⟩
    rcases s.set_cases () () i p capClear with ⟨_, rfl, _⟩ | ⟨_, heq'⟩
    · exact absurd hp (hleaf j (fun hji => hj ⟨rfl, hji⟩) hoccupied)
    · rw [heq']
      exact hrest

variable {ps : Slot}

theorem DerivationEdges.parent_ne (h : DerivationEdges s) {src : UInt32} (hsrc : src.toNat = ps.val)
    (hempty : (s () ps).type = .null) (hoccupied : (s () i).type ≠ .null) :
    (s () i).parent ≠ src := by
  intro hparent
  have hne : (s () i).parent ≠ flintCapNoParent := by
    intro hno
    have hlt := ps.isLt
    rw [← hsrc, ← hparent, hno] at hlt
    exact absurd hlt (by decide)
  obtain ⟨p, hp, htype, _⟩ := h i hoccupied hne
  have hps : p = ps := Fin.ext (by rw [← hp, hparent, hsrc])
  rw [hps, hempty] at htype
  exact hoccupied htype.symm

theorem moved_edges (h : DerivationEdges s) {src : UInt32} {pd : Slot} (hsrc : src.toNat = ps.val)
    (hoccupied : (s () ps).type ≠ .null) (hempty : (s () pd).type = .null) :
    DerivationEdges ((s.set () pd (s () ps)).set () ps capClear) ↔
      ∀ i, (s () i).type ≠ .null → (s () i).parent ≠ src := by
  have hdistinct : ps ≠ pd := by
    rintro rfl
    exact hoccupied hempty
  constructor
  · intro hedges i hi
    -- the capability that was in slot `i` before the move, where it is after it
    obtain ⟨j, hj⟩ : ∃ j, (s.set () pd (s () ps)).set () ps capClear () j = s () i := by
      by_cases hips : i = ps
      · refine ⟨pd, ?_⟩
        simp [CSpace.set, hips, hdistinct.symm]
      · have hipd : i ≠ pd := by
          rintro rfl
          exact hi hempty
        exact ⟨i, by simp [CSpace.set, hips, hipd]⟩
    rw [← hj] at hi ⊢
    exact hedges.parent_ne hsrc (by simp [CSpace.set, capClear]) hi
  · intro hleaf
    refine (h.fill hempty fun hc hno => h ps hc hno).clear fun j hj hjocc hparent => ?_
    obtain ⟨i, hi⟩ : ∃ i, s.set () pd (s () ps) () j = s () i := by
      rcases s.set_cases () () pd j (s () ps) with ⟨_, _, heq⟩ | ⟨_, heq⟩
      · exact ⟨ps, heq⟩
      · exact ⟨j, heq⟩
    rw [hi] at hjocc hparent
    exact hleaf i hjocc (UInt32.toNat_inj.mp (hparent.trans hsrc.symm))

/-- A move that is refused moves nothing, so it moves no capability with children. -/
theorem movesLeaf_of_refused {op : CapOp Unit} (hst : (op.run s).1 ≠ .ok) : MovesLeaf s op := by
  cases op with
  | move dstCn dst srcCn src =>
    cases hcheck : deriveCheck () dst () src s with
    | error st => simp [MovesLeaf, hcheck]
    | ok slots => exact absurd (by simp [CapOp.run, flintCnodeMove, hcheck]) hst
  | _ => trivial

theorem edges_step {s' : CSpace Unit} {op : CapOp Unit} (h : DerivationEdges s) (hop : BuildOp s op)
    (heffect : CapEffect s op s') : DerivationEdges s' ↔ MovesLeaf s op := by
  cases heffect with
  | refused hst => exact iff_of_true h (movesLeaf_of_refused hst)
  | installed hempty =>
    exact iff_of_true (h.fill hempty fun _ hno => absurd hop hno) trivial
  | @derived _ _ _ _ _ ps c hsrc hoccupied hempty hderived hderive =>
    have hedge : c.parent.toNat = ps.val ∧ (s () ps).type = c.type ∧ (s () ps).object = c.object ∧
        c.rights &&& (s () ps).rights = c.rights :=
      ⟨by rw [hderived.parent, hsrc], hderived.type.symm, hderived.object.symm, hderived.rights⟩
    refine iff_of_true (h.fill hempty fun _ _ => ⟨ps, hedge⟩) ?_
    rcases hderive with ⟨_, _, rfl⟩ | ⟨_, _, _, rfl⟩ <;> trivial
  | moved hsrc hoccupied hempty hcheck =>
    rw [moved_edges h hsrc hoccupied hempty]
    simp only [MovesLeaf, hcheck]
  | deleted => exact hop.elim

/-- Installs of root capabilities, copies, mints and moves in one fresh CNode. -/
def cnodeBuild : Machine (CSpace Unit) (CapOp Unit) := (cspace freshCnode).restrict BuildOp

instance (s : CSpace Unit) (op : CapOp Unit) : Decidable (cnodeBuild.guard s op) :=
  inferInstanceAs (Decidable (_ ∧ _))

/-- A move that would leave children behind is all that breaks the edges: they are
    meaningful in every run without one, and no step from there breaks them
    unless it is one. -/
theorem derivation_edges_of_leaf_moves {s : CSpace Unit}
    (h : (cnodeBuild.restrict MovesLeaf).Reach s) :
    DerivationEdges s ∧
      ∀ op s', cnodeBuild.Step s op s' → (DerivationEdges s' ↔ MovesLeaf s op) := by
  have hstep : ∀ {s op s'}, DerivationEdges s → cnodeBuild.Step s op s' →
      (DerivationEdges s' ↔ MovesLeaf s op) := by
    intro s op s' hedges hst
    obtain ⟨hst, hop⟩ := Machine.restrict_step.mp hst
    exact edges_step hedges hop (cspace_effect hst)
  have hedges : DerivationEdges s := by
    refine h.invariant (P := DerivationEdges) DerivationEdges.init ?_
    intro s op s' _ ih hst
    obtain ⟨hst, hleaf⟩ := Machine.restrict_step.mp hst
    exact (hstep ih hst).mpr hleaf
  exact ⟨hedges, fun op s' => hstep hedges⟩

instance (s : CSpace Unit) : ∀ op, Decidable (MovesLeaf s op)
  | .move _ dst _ src =>
      match h : deriveCheck () dst () src s with
      | .error _ => isTrue (by simp [MovesLeaf, h])
      | .ok _ => decidable_of_iff (∀ i, (s () i).type ≠ .null → (s () i).parent ≠ src)
          (by simp [MovesLeaf, h])
  | .install .. | .copy .. | .mint .. | .delete .. => isTrue trivial

/-- An endpoint is copied twice in a chain and the last copy moved. -/
theorem derivation_edges_chain :
    ∃ s, (cnodeBuild.restrict MovesLeaf).Reach s ∧ (s () 3).parent = 1 ∧ DerivationEdges s := by
  obtain ⟨s, hreach, hs⟩ := (cnodeBuild.restrict MovesLeaf).exists_reach
    [.install () 0 ⟨.endpoint, 0xF, 0, 9, flintCapNoParent⟩, .copy () 1 () 0 3, .mint () 2 () 1 1 7,
      .move () 3 () 2]
    (fun s => (s () 3).parent = 1) (by decide +kernel)
  exact ⟨s, hreach, of_decide_eq_true hs, (derivation_edges_of_leaf_moves hreach).1⟩

/-- Install at 0, copy to 1, move 0 to 2: slot 1 still names slot 0 as its parent
    and slot 0 is empty. -/
theorem moved_parent_leaves_child :
    ∃ s, cnodeBuild.Reach s ∧ (s () 1).type = .endpoint ∧ (s () 1).parent = 0 ∧
      (s () 0).type = .null ∧ ¬ DerivationEdges s := by
  obtain ⟨s, hreach, hs⟩ := cnodeBuild.exists_reach
    [.install () 0 ⟨.endpoint, 0xF, 0, 9, flintCapNoParent⟩, .copy () 1 () 0 0xF, .move () 2 () 0]
    (fun s => (s () 1).type = .endpoint ∧ (s () 1).parent = 0 ∧ (s () 0).type = .null)
    (by decide +kernel)
  obtain ⟨htype, hparent, hempty⟩ := of_decide_eq_true hs
  refine ⟨s, hreach, htype, hparent, hempty, fun hedges => ?_⟩
  have hsrc : (0 : UInt32).toNat = (0 : Slot).val := rfl
  exact hedges.parent_ne hsrc hempty (by simp [htype]) hparent

end FlintRTOS
