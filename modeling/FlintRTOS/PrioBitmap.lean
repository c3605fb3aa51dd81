import Mathlib.Algebra.Group.Nat.Defs
import Mathlib.Data.Finset.Basic
import Mathlib.Order.Bounds.Basic

/-!
# The two-level priority bitmap (`kernel/prio_bitmap.c`)

One bit per priority level in an array of 32-bit words, and a summary word with
one bit per word of that array.  `none` is an access outside the array.

`bm.Represents S` says that the bitmap stands for the set `S` of occupied
priorities and that the summary agrees with the array.  Every operation keeps it,
and the branch-only search for the highest bit finds the maximum of `S`.
-/

namespace FlintRTOS

abbrev flintWordBits : Nat := 32

abbrev flintCfgPrioCount : Nat := 256

abbrev flintPrioWords : Nat := flintCfgPrioCount / flintWordBits

structure FlintPrioBitmap where
  summary : UInt32
  level1 : Fin flintPrioWords → UInt32

/-! ### The search in one word -/

/-- One halving of the search: when the upper half, selected by `mask`, holds a
    bit, continue there. -/
def searchHalf (mask : UInt32) (width : UInt8) (x : UInt8 × UInt32) : UInt8 × UInt32 :=
  if x.2 &&& mask ≠ 0 then (x.1 + width, x.2 >>> width.toUInt32) else x

def wordHighestBit (w : UInt32) : UInt8 :=
  let x := searchHalf 0xFFFF0000 16 (0, w)
  let x := searchHalf 0x0000FF00 8 x
  let x := searchHalf 0x000000F0 4 x
  let x := searchHalf 0x0000000C 2 x
  -- the last test moves the position only
  if x.2 &&& 0x00000002 ≠ 0 then x.1 + 1 else x.1

/-! ### The operations -/

/-- An index into `level1`. -/
def levelIndex (word : UInt32) : Option (Fin flintPrioWords) :=
  if h : word.toNat < flintPrioWords then some ⟨word.toNat, h⟩ else none

def flintPrioBitmapInit : FlintPrioBitmap := ⟨0, fun _ => 0⟩

def flintPrioBitmapSet (prio : UInt16) (bm : FlintPrioBitmap) : Option FlintPrioBitmap := do
  let word := prio.toUInt32 / 32
  let bit := prio.toUInt32 % 32
  let i ← levelIndex word
  return ⟨bm.summary ||| (1 <<< word),
    Function.update bm.level1 i (bm.level1 i ||| (1 <<< bit))⟩

def flintPrioBitmapClear (prio : UInt16) (bm : FlintPrioBitmap) : Option FlintPrioBitmap := do
  let word := prio.toUInt32 / 32
  let bit := prio.toUInt32 % 32
  let i ← levelIndex word
  let left := bm.level1 i &&& ~~~(1 <<< bit)
  return ⟨if left = 0 then bm.summary &&& ~~~(1 <<< word) else bm.summary,
    Function.update bm.level1 i left⟩

def flintPrioBitmapEmpty (bm : FlintPrioBitmap) : Bool := bm.summary == 0

def flintPrioBitmapHighest (bm : FlintPrioBitmap) : Option UInt16 := do
  let topWord := wordHighestBit bm.summary
  let i ← levelIndex topWord.toUInt32
  let topBit := wordHighestBit (bm.level1 i)
  return (topWord.toUInt32 * 32 + topBit.toUInt32).toUInt16

/-- The two calls that change a bitmap. -/
inductive PrioOp where
  | set (prio : UInt16)
  | clear (prio : UInt16)
deriving DecidableEq, Repr

namespace PrioOp

def prio : PrioOp → UInt16
  | set p => p
  | clear p => p

def run (bm : FlintPrioBitmap) : PrioOp → Option FlintPrioBitmap
  | set p => flintPrioBitmapSet p bm
  | clear p => flintPrioBitmapClear p bm

/-- The call on the set of occupied priorities. -/
def apply (S : Finset Nat) : PrioOp → Finset Nat
  | set p => insert p.toNat S
  | clear p => S.erase p.toNat

end PrioOp

/-- The priorities set and not since cleared. -/
def occupied (ops : List PrioOp) : Finset Nat := ops.foldl PrioOp.apply ∅

/-! ### Bits of a word -/

variable {w b : UInt32} {i n k p : Nat} {bm : FlintPrioBitmap} {S : Finset Nat}

theorem word_eq_zero_iff : w = 0 ↔ ∀ i, w.toNat.testBit i = false := by
  constructor
  · rintro rfl i
    exact Nat.zero_testBit i
  · intro h
    refine UInt32.toNat_inj.mp (Nat.eq_of_testBit_eq fun i => ?_)
    rw [h i]
    exact (Nat.zero_testBit i).symm

theorem bit_lt (h : w.toNat.testBit i = true) : i < 32 := by
  have hpow : 2 ^ i < 2 ^ 32 := Nat.lt_of_le_of_lt (Nat.ge_two_pow_of_testBit h) w.toNat_lt
  exact (Nat.pow_lt_pow_iff_right (by decide)).mp hpow

theorem testBit_one_shiftLeft (hb : b.toNat < 32) (i : Nat) :
    (1 <<< b : UInt32).toNat.testBit i = decide (i = b.toNat) := by
  have hpow : (1 <<< b : UInt32).toNat = 2 ^ b.toNat := by
    have hlt : 2 ^ b.toNat < 2 ^ 32 := Nat.pow_lt_pow_right (by decide) hb
    rw [UInt32.toNat_shiftLeft, Nat.mod_eq_of_lt hb, Nat.shiftLeft_eq]
    simpa using hlt
  rw [hpow, Nat.testBit_two_pow]
  exact decide_eq_decide.mpr eq_comm

theorem testBit_setBit (w : UInt32) (hb : b.toNat < 32) (i : Nat) :
    (w ||| (1 <<< b)).toNat.testBit i = (w.toNat.testBit i || decide (i = b.toNat)) := by
  rw [UInt32.toNat_or, Nat.testBit_or, testBit_one_shiftLeft hb]

theorem testBit_setBit_self (w : UInt32) (hb : b.toNat < 32) :
    (w ||| (1 <<< b)).toNat.testBit b.toNat = true := by
  rw [testBit_setBit w hb, decide_eq_true rfl, Bool.or_true]

theorem testBit_not (w : UInt32) (hi : i < 32) : (~~~w).toNat.testBit i = !w.toNat.testBit i := by
  have h : (~~~w.toBitVec).getLsbD i = (decide (i < 32) && !w.toBitVec.getLsbD i) :=
    BitVec.getLsbD_not
  rw [decide_eq_true hi, Bool.true_and] at h
  exact h

theorem testBit_clearBit (w : UInt32) (hb : b.toNat < 32) (i : Nat) :
    (w &&& ~~~(1 <<< b)).toNat.testBit i = (w.toNat.testBit i && decide (i ≠ b.toNat)) := by
  rw [UInt32.toNat_and, Nat.testBit_and]
  by_cases hi : i < 32
  · rw [testBit_not _ hi, testBit_one_shiftLeft hb, decide_not]
  · have hout : w.toNat.testBit i = false := by
      by_contra hbit
      exact hi (bit_lt (Bool.eq_true_of_not_eq_false hbit))
    rw [hout, Bool.false_and, Bool.false_and]

theorem testBit_clearBit_self (w : UInt32) (hb : b.toNat < 32) :
    (w &&& ~~~(1 <<< b)).toNat.testBit b.toNat = false := by
  rw [testBit_clearBit w hb, decide_eq_false (not_not.mpr rfl), Bool.and_false]

/-! ### The search finds the highest bit -/

/-- `k` bits of `w` are left to search: the highest bit of `w₀` is `pos` above
    that of `w`. -/
structure Searching (w₀ : UInt32) (k : Nat) (x : UInt8 × UInt32) : Prop where
  nonzero : x.2.toNat ≠ 0
  bounded : x.2.toNat < 2 ^ k
  position : x.1.toNat + x.2.toNat.log2 = w₀.toNat.log2

/-- The mask of the upper half of `2 * k` bits selects exactly what the shift
    keeps. -/
theorem and_upper_half (h : n < 2 ^ (2 * k)) : n &&& ((2 ^ k - 1) <<< k) = (n >>> k) <<< k := by
  refine Nat.eq_of_testBit_eq fun i => ?_
  simp only [Nat.testBit_and, Nat.testBit_shiftLeft, Nat.testBit_two_pow_sub_one,
    Nat.testBit_shiftRight]
  by_cases hi : k ≤ i
  · rw [Nat.add_sub_cancel' hi]
    by_cases hin : i - k < k
    · simp [hi, hin]
    · have hlt : n < 2 ^ i := Nat.lt_of_lt_of_le h (Nat.pow_le_pow_right (by decide) (by omega))
      simp [Nat.testBit_lt_two_pow hlt]
  · simp [hi]

theorem and_upper_half_eq_zero (h : n < 2 ^ (2 * k)) :
    n &&& ((2 ^ k - 1) <<< k) = 0 ↔ n < 2 ^ k := by
  rw [and_upper_half h, Nat.shiftLeft_eq, Nat.shiftRight_eq_div_pow, Nat.mul_eq_zero,
    or_iff_left (Nat.pos_iff_ne_zero.mp (Nat.two_pow_pos k)), Nat.div_eq_zero_iff]
  constructor
  · rintro (hzero | hlt)
    · exact absurd hzero (Nat.pos_iff_ne_zero.mp (Nat.two_pow_pos k))
    · exact hlt
  · exact Or.inr

/-- Dropping `k` low bits lowers the highest bit by `k`. -/
theorem log2_shiftRight (h : 2 ^ k ≤ n) : k + (n >>> k).log2 = n.log2 := by
  have hpos : n ≠ 0 := Nat.ne_of_gt (Nat.lt_of_lt_of_le (Nat.two_pow_pos k) h)
  have hshift : n >>> k ≠ 0 := by
    rw [Nat.shiftRight_eq_div_pow]
    exact Nat.ne_of_gt (Nat.div_pos h (Nat.two_pow_pos k))
  symm
  rw [Nat.log2_eq_iff hpos]
  have hle := Nat.log2_self_le hshift
  have hlt := Nat.lt_log2_self (n := n >>> k)
  rw [Nat.shiftRight_eq_div_pow] at hle hlt ⊢
  constructor
  · rw [Nat.add_comm, Nat.pow_add]
    exact (Nat.le_div_iff_mul_le (Nat.two_pow_pos k)).mp hle
  · rw [Nat.add_assoc, Nat.add_comm, Nat.pow_add]
    exact (Nat.div_lt_iff_lt_mul (Nat.two_pow_pos k)).mp hlt

/-- One halving keeps the position of the highest bit. -/
theorem Searching.half {w₀ : UInt32} {x : UInt8 × UInt32} (h : Searching w₀ (2 * k) x)
    (mask : UInt32) (width : UInt8) (hwidth : width.toNat = k) (hk : k < 32)
    (hmask : mask.toNat = (2 ^ k - 1) <<< k) : Searching w₀ k (searchHalf mask width x) := by
  have hzero : x.2 &&& mask = 0 ↔ x.2.toNat < 2 ^ k := by
    rw [← UInt32.toNat_inj, UInt32.toNat_and, hmask]
    exact and_upper_half_eq_zero h.bounded
  unfold searchHalf
  by_cases hupper : x.2 &&& mask = 0
  · rw [if_neg (not_not.mpr hupper)]
    exact ⟨h.nonzero, hzero.mp hupper, h.position⟩
  · rw [if_pos hupper]
    have hle : 2 ^ k ≤ x.2.toNat := Nat.not_lt.mp fun hlt => hupper (hzero.mpr hlt)
    have hshift : (x.2 >>> width.toUInt32).toNat = x.2.toNat >>> k := by
      rw [UInt32.toNat_shiftRight, UInt8.toNat_toUInt32, hwidth, Nat.mod_eq_of_lt hk]
    have hlog := log2_shiftRight hle
    have htop : w₀.toNat.log2 < 32 := by
      rcases Nat.eq_zero_or_pos w₀.toNat with hw | hw
      · rw [hw]
        decide
      · exact (Nat.log2_lt (Nat.ne_of_gt hw)).mpr w₀.toNat_lt
    have hpos := h.position
    refine ⟨?_, ?_, ?_⟩
    · rw [hshift, Nat.shiftRight_eq_div_pow]
      exact Nat.ne_of_gt (Nat.div_pos hle (Nat.two_pow_pos k))
    · rw [hshift, Nat.shiftRight_eq_div_pow]
      refine Nat.div_lt_of_lt_mul ?_
      rw [← Nat.pow_add, ← Nat.two_mul]
      exact h.bounded
    · rw [hshift, UInt8.toNat_add, hwidth, Nat.mod_eq_of_lt (by omega)]
      omega

/-- The last test is a halving whose shifted word is not used. -/
theorem wordHighestBit_eq (w : UInt32) :
    wordHighestBit w = (searchHalf 0x00000002 1 (searchHalf 0x0000000C 2 (searchHalf 0x000000F0 4
      (searchHalf 0x0000FF00 8 (searchHalf 0xFFFF0000 16 (0, w)))))).1 := by
  rw [searchHalf, apply_ite Prod.fst]
  rfl

/-- The search returns the index of the highest bit of a non-zero word. -/
theorem wordHighestBit_eq_log2 (hw : w ≠ 0) : (wordHighestBit w).toNat = w.toNat.log2 := by
  have hne : w.toNat ≠ 0 := fun h => hw (UInt32.toNat_inj.mp h)
  have h32 : Searching w (2 * 16) (0, w) := ⟨hne, w.toNat_lt, Nat.zero_add _⟩
  have h16 : Searching w (2 * 8) _ := h32.half 0xFFFF0000 16 rfl (by decide) (by decide)
  have h8 : Searching w (2 * 4) _ := h16.half 0x0000FF00 8 rfl (by decide) (by decide)
  have h4 : Searching w (2 * 2) _ := h8.half 0x000000F0 4 rfl (by decide) (by decide)
  have h2 : Searching w (2 * 1) _ := h4.half 0x0000000C 2 rfl (by decide) (by decide)
  have h1 := h2.half 0x00000002 1 rfl (by decide) (by decide)
  -- one bit is left, so the position is the answer
  have hlast := (Nat.log2_lt h1.nonzero).mpr h1.bounded
  have hposition := h1.position
  rw [wordHighestBit_eq]
  omega

theorem testBit_wordHighestBit (hw : w ≠ 0) : w.toNat.testBit (wordHighestBit w).toNat = true := by
  rw [wordHighestBit_eq_log2 hw]
  exact Nat.testBit_log2 fun h => hw (UInt32.toNat_inj.mp h)

theorem le_wordHighestBit (h : w.toNat.testBit i = true) : i ≤ (wordHighestBit w).toNat := by
  have hw : w ≠ 0 := by
    rintro rfl
    rw [word_eq_zero_iff.mp rfl i] at h
    cases h
  rw [wordHighestBit_eq_log2 hw, Nat.le_log2 fun h => hw (UInt32.toNat_inj.mp h)]
  exact Nat.ge_two_pow_of_testBit h

/-! ### The bitmap stands for a set -/

/-- The bitmap `bm` stands for the set `S` of occupied priorities. -/
structure FlintPrioBitmap.Represents (bm : FlintPrioBitmap) (S : Finset Nat) : Prop where
  bounded : ∀ p ∈ S, p < flintCfgPrioCount
  level : ∀ (w : Fin flintPrioWords) (b : Nat), b < flintWordBits →
    ((bm.level1 w).toNat.testBit b = true ↔ w * flintWordBits + b ∈ S)
  summary : ∀ w, bm.summary.toNat.testBit w = true ↔
    ∃ h : w < flintPrioWords, bm.level1 ⟨w, h⟩ ≠ 0

theorem represents_init : flintPrioBitmapInit.Represents ∅ := by
  refine ⟨by simp, ?_, ?_⟩
  · intro w b _
    simp [flintPrioBitmapInit]
  · intro w
    simp [flintPrioBitmapInit]

theorem prio_position (p : UInt16) : (p.toUInt32 / 32).toNat = p.toNat / flintWordBits ∧
    (p.toUInt32 % 32).toNat = p.toNat % flintWordBits := by
  simp

theorem levelIndex_of_lt {word : UInt32} (h : word.toNat < flintPrioWords) :
    levelIndex word = some ⟨word.toNat, h⟩ := dif_pos h

/-- The positions of different bits are different priorities. -/
theorem position_eq_iff {j b c : Nat} (hb : b < n) (hc : c < n) :
    i * n + b = j * n + c ↔ i = j ∧ b = c := by
  constructor
  · intro h
    have hdiv : ∀ k a, a < n → (k * n + a) / n = k := by
      intro k a ha
      rw [Nat.add_comm, Nat.add_mul_div_right _ _ (Nat.zero_lt_of_lt ha), Nat.div_eq_of_lt ha,
        Nat.zero_add]
    have hij : i = j := by rw [← hdiv i b hb, h, hdiv j c hc]
    subst hij
    exact ⟨rfl, Nat.add_left_cancel h⟩
  · rintro ⟨rfl, rfl⟩
    rfl

/-- Writing the bit of priority `p`: the word at its place changes in that bit
    only, and the set in `p` only. -/
theorem FlintPrioBitmap.Represents.level_update {S' : Finset Nat} (h : bm.Represents S)
    {i : Fin flintPrioWords} {word : UInt32} (hi : i.val = p / flintWordBits)
    (hword : ∀ b, b ≠ p % flintWordBits →
      word.toNat.testBit b = (bm.level1 i).toNat.testBit b)
    (hbit : word.toNat.testBit (p % flintWordBits) = true ↔ p ∈ S')
    (hS : ∀ q, q ≠ p → (q ∈ S' ↔ q ∈ S)) (w : Fin flintPrioWords) (b : Nat)
    (hb : b < flintWordBits) :
    (Function.update bm.level1 i word w).toNat.testBit b = true ↔ w * flintWordBits + b ∈ S' := by
  have hp : w * flintWordBits + b = p ↔ w = i ∧ b = p % flintWordBits := by
    conv_lhs => rw [← Nat.div_add_mod' p flintWordBits, ← hi]
    rw [position_eq_iff hb (Nat.mod_lt _ (by decide)), Fin.val_inj]
  by_cases hw : w = i
  · rw [hw, Function.update_self, ← hw]
    by_cases hbp : b = p % flintWordBits
    · rw [hp.mpr ⟨hw, hbp⟩, hbp]
      exact hbit
    · rw [hword b hbp, hS _ fun heq => hbp (hp.mp heq).2, ← hw]
      exact h.level w b hb
  · rw [Function.update_of_ne hw, hS _ fun heq => hw (hp.mp heq).1]
    exact h.level w b hb

/-- The summary after the word at `i` was written: only its own bit may change. -/
theorem FlintPrioBitmap.Represents.summary_update (h : bm.Represents S) {i : Fin flintPrioWords}
    {word summary : UInt32} (hself : summary.toNat.testBit i = true ↔ word ≠ 0)
    (hother : ∀ w, w ≠ i.val → summary.toNat.testBit w = bm.summary.toNat.testBit w) (w : Nat) :
    summary.toNat.testBit w = true ↔
      ∃ hw : w < flintPrioWords, Function.update bm.level1 i word ⟨w, hw⟩ ≠ 0 := by
  by_cases hw : w = i.val
  · subst hw
    rw [hself]
    constructor
    · intro hne
      exact ⟨i.isLt, by rwa [Function.update_self]⟩
    · rintro ⟨_, hne⟩
      rwa [Function.update_self] at hne
  · rw [hother w hw, h.summary w]
    refine exists_congr fun hlt => ?_
    have hne : (⟨w, hlt⟩ : Fin flintPrioWords) ≠ i := fun heq => hw (congrArg Fin.val heq)
    rw [Function.update_of_ne hne]

/-- The word and the bit of a priority below the maximum are within the array and
    within a word. -/
theorem prio_place {p : UInt16} (hp : p.toNat < flintCfgPrioCount) :
    (p.toUInt32 / 32).toNat < flintPrioWords ∧ (p.toUInt32 / 32).toNat < 32 ∧
      (p.toUInt32 % 32).toNat < 32 := by
  obtain ⟨hword, hbit⟩ := prio_position p
  have hlt : (p.toUInt32 / 32).toNat < flintPrioWords := by
    rw [hword]
    exact Nat.div_lt_of_lt_mul hp
  refine ⟨hlt, Nat.lt_trans hlt (by decide), ?_⟩
  rw [hbit]
  exact Nat.mod_lt _ (by decide)

theorem FlintPrioBitmap.Represents.set (h : bm.Represents S) {p : UInt16}
    (hp : p.toNat < flintCfgPrioCount) :
    ∃ bm', flintPrioBitmapSet p bm = some bm' ∧ bm'.Represents (insert p.toNat S) := by
  obtain ⟨hword, hbit⟩ := prio_position p
  obtain ⟨hlt, hword32, hbit32⟩ := prio_place hp
  refine ⟨_, by rw [flintPrioBitmapSet, levelIndex_of_lt hlt]; rfl, ?_, ?_, ?_⟩
  · intro q hq
    rcases Finset.mem_insert.mp hq with rfl | hq
    · exact hp
    · exact h.bounded q hq
  · refine h.level_update hword ?_ ?_ ?_
    · intro b hb
      rw [testBit_setBit _ hbit32, hbit, decide_eq_false hb, Bool.or_false]
    · rw [← hbit, testBit_setBit_self _ hbit32]
      exact iff_of_true rfl (Finset.mem_insert_self _ _)
    · intro q hq
      simp [hq]
  · refine h.summary_update ?_ ?_
    · refine iff_of_true (testBit_setBit_self _ hword32) fun hzero => ?_
      -- the bit just set is in the word
      have hset := word_eq_zero_iff.mp hzero (p.toUInt32 % 32).toNat
      rw [testBit_setBit_self _ hbit32] at hset
      cases hset
    · intro w hw
      rw [testBit_setBit _ hword32, decide_eq_false hw, Bool.or_false]

theorem FlintPrioBitmap.Represents.clear (h : bm.Represents S) {p : UInt16}
    (hp : p.toNat < flintCfgPrioCount) :
    ∃ bm', flintPrioBitmapClear p bm = some bm' ∧ bm'.Represents (S.erase p.toNat) := by
  obtain ⟨hword, hbit⟩ := prio_position p
  obtain ⟨hlt, hword32, hbit32⟩ := prio_place hp
  refine ⟨_, by rw [flintPrioBitmapClear, levelIndex_of_lt hlt]; rfl, ?_, ?_, ?_⟩
  · exact fun q hq => h.bounded q (Finset.mem_of_mem_erase hq)
  · refine h.level_update hword ?_ ?_ ?_
    · intro b hb
      rw [testBit_clearBit _ hbit32, hbit, decide_eq_true hb, Bool.and_true]
    · rw [← hbit, testBit_clearBit_self _ hbit32]
      exact iff_of_false Bool.false_ne_true (Finset.notMem_erase _ _)
    · intro q hq
      simp [hq]
  · refine h.summary_update ?_ ?_
    · split
      · rename_i hzero
        refine iff_of_false ?_ (not_not.mpr hzero)
        rw [testBit_clearBit_self _ hword32]
        exact Bool.false_ne_true
      · rename_i hleft
        refine iff_of_true ((h.summary _).mpr ⟨hlt, fun hzero => hleft ?_⟩) hleft
        -- clearing a bit of an empty word leaves it empty
        rw [hzero]
        exact UInt32.zero_and
    · intro w hw
      split
      · rw [testBit_clearBit _ hword32, decide_eq_true hw, Bool.and_true]
      · rfl

theorem FlintPrioBitmap.Represents.op (h : bm.Represents S) {op : PrioOp}
    (hop : op.prio.toNat < flintCfgPrioCount) :
    ∃ bm', op.run bm = some bm' ∧ bm'.Represents (op.apply S) := by
  cases op with
  | set p => exact h.set hop
  | clear p => exact h.clear hop

/-- Any sequence of calls within the range runs and keeps the representation. -/
theorem FlintPrioBitmap.Represents.ops {ops : List PrioOp} : ∀ {bm : FlintPrioBitmap} {S : Finset Nat},
    bm.Represents S → (∀ op ∈ ops, op.prio.toNat < flintCfgPrioCount) →
    ∃ bm', ops.foldlM PrioOp.run bm = some bm' ∧ bm'.Represents (ops.foldl PrioOp.apply S) := by
  induction ops with
  | nil => exact fun h _ => ⟨_, rfl, h⟩
  | cons op ops ih =>
    intro bm S h hops
    obtain ⟨hop, hrest⟩ := List.forall_mem_cons.mp hops
    obtain ⟨bm₁, hrun, h₁⟩ := h.op hop
    obtain ⟨bm', hruns, h'⟩ := ih h₁ hrest
    exact ⟨bm', by rw [List.foldlM_cons, hrun]; exact hruns, h'⟩

/-! ### Empty and highest -/

theorem exists_bit (hw : w ≠ 0) : ∃ b < flintWordBits, w.toNat.testBit b = true :=
  ⟨_, bit_lt (testBit_wordHighestBit hw), testBit_wordHighestBit hw⟩

/-- A priority of the set is a bit of a non-zero word. -/
theorem FlintPrioBitmap.Represents.word_of_mem (h : bm.Represents S) (hp : p ∈ S) :
    ∃ hlt : p / flintWordBits < flintPrioWords,
      (bm.level1 ⟨p / flintWordBits, hlt⟩).toNat.testBit (p % flintWordBits) = true := by
  have hlt : p / flintWordBits < flintPrioWords := Nat.div_lt_of_lt_mul (h.bounded p hp)
  refine ⟨hlt, (h.level ⟨_, hlt⟩ _ (Nat.mod_lt _ (by decide))).mpr ?_⟩
  rwa [Nat.div_add_mod']

theorem FlintPrioBitmap.Represents.summary_of_mem (h : bm.Represents S) (hp : p ∈ S) :
    bm.summary.toNat.testBit (p / flintWordBits) = true := by
  obtain ⟨hlt, hbit⟩ := h.word_of_mem hp
  refine (h.summary _).mpr ⟨hlt, fun hzero => ?_⟩
  rw [word_eq_zero_iff.mp hzero] at hbit
  cases hbit

theorem FlintPrioBitmap.Represents.summary_eq_zero_iff (h : bm.Represents S) :
    bm.summary = 0 ↔ S = ∅ := by
  constructor
  · intro hzero
    refine Finset.eq_empty_of_forall_notMem fun p hp => ?_
    have hbit := h.summary_of_mem hp
    rw [word_eq_zero_iff.mp hzero] at hbit
    cases hbit
  · rintro rfl
    by_contra hne
    obtain ⟨w, _, hw⟩ := exists_bit hne
    obtain ⟨hlt, hword⟩ := (h.summary w).mp hw
    obtain ⟨b, hb, hbit⟩ := exists_bit hword
    exact absurd ((h.level ⟨w, hlt⟩ b hb).mp hbit) (Finset.notMem_empty _)

/-- The priority at bit `b` of word `w`, as `highest` computes it. -/
theorem toNat_position {w b : UInt8} (hw : w.toNat < flintPrioWords) (hb : b.toNat < flintWordBits) :
    (w.toUInt32 * 32 + b.toUInt32).toUInt16.toNat = w.toNat * flintWordBits + b.toNat := by
  have hw' : w.toNat < 8 := hw
  have hb' : b.toNat < 32 := hb
  rw [UInt32.toNat_toUInt16, UInt32.toNat_add, UInt32.toNat_mul, UInt8.toNat_toUInt32,
    UInt8.toNat_toUInt32]
  change (w.toNat * 32 % 2 ^ 32 + b.toNat) % 2 ^ 32 % 2 ^ 16 = w.toNat * 32 + b.toNat
  omega

/-- The highest bit of the highest word is the greatest priority of the set. -/
theorem FlintPrioBitmap.Represents.highest (h : bm.Represents S) (hS : S ≠ ∅) :
    ∃ p, flintPrioBitmapHighest bm = some p ∧ IsGreatest (S : Set Nat) p.toNat := by
  have hsummary : bm.summary ≠ 0 := fun hzero => hS (h.summary_eq_zero_iff.mp hzero)
  obtain ⟨hlt, hword⟩ := (h.summary _).mp (testBit_wordHighestBit hsummary)
  have hbit := testBit_wordHighestBit hword
  refine ⟨((wordHighestBit bm.summary).toUInt32 * 32 +
    (wordHighestBit (bm.level1 ⟨_, hlt⟩)).toUInt32).toUInt16, ?_, ?_⟩
  · rw [flintPrioBitmapHighest, levelIndex_of_lt (by rwa [UInt8.toNat_toUInt32])]
    rfl
  · rw [toNat_position hlt (bit_lt hbit)]
    refine ⟨(h.level ⟨_, hlt⟩ _ (bit_lt hbit)).mp hbit, fun p hp => ?_⟩
    obtain ⟨hltp, hbitp⟩ := h.word_of_mem hp
    rw [← Nat.div_add_mod' p flintWordBits]
    rcases Nat.lt_or_eq_of_le (le_wordHighestBit (h.summary_of_mem hp)) with hless | hsame
    · have hnext := Nat.mul_le_mul_right flintWordBits hless
      have hmod : p % flintWordBits < flintWordBits := Nat.mod_lt _ (by decide)
      rw [Nat.succ_mul] at hnext
      exact Nat.le_trans (Nat.le_of_lt (Nat.add_lt_add_left hmod _))
        (Nat.le_trans hnext (Nat.le_add_right _ _))
    · simp only [hsame] at hbitp ⊢
      exact Nat.add_le_add_left (le_wordHighestBit hbitp) _

/-- **The bitmap refines a set.**  After any sequence of `set` and `clear` within
    the range, `empty` tells whether the set of occupied priorities is empty,
    `highest` is its maximum otherwise, and the summary marks the words that are
    not zero. -/
theorem prio_bitmap_refines_set (ops : List PrioOp)
    (hops : ∀ op ∈ ops, op.prio.toNat < flintCfgPrioCount) :
    ∃ bm, ops.foldlM PrioOp.run flintPrioBitmapInit = some bm ∧
      (flintPrioBitmapEmpty bm = true ↔ occupied ops = ∅) ∧
      (occupied ops ≠ ∅ → ∃ p, flintPrioBitmapHighest bm = some p ∧
        IsGreatest (occupied ops : Set Nat) p.toNat) ∧
      ∀ w : Fin flintPrioWords, bm.summary.toNat.testBit w = true ↔ bm.level1 w ≠ 0 := by
  obtain ⟨bm, hrun, h⟩ := represents_init.ops hops
  refine ⟨bm, hrun, ?_, h.highest, ?_⟩
  · rw [flintPrioBitmapEmpty, beq_iff_eq]
    exact h.summary_eq_zero_iff
  · intro w
    rw [h.summary w]
    exact ⟨fun ⟨_, hw⟩ => hw, fun hw => ⟨w.isLt, hw⟩⟩

/-- A level set twice, cleared once and a clear of an absent one. -/
theorem prio_bitmap_refines_set_run :
    ∃ bm, [PrioOp.set 40, .set 255, .set 40, .clear 255, .clear 7].foldlM PrioOp.run
        flintPrioBitmapInit = some bm ∧
      ∃ p, flintPrioBitmapHighest bm = some p ∧ p.toNat = 40 := by
  obtain ⟨bm, hrun, _, hhighest, _⟩ := prio_bitmap_refines_set
    [.set 40, .set 255, .set 40, .clear 255, .clear 7] (by decide)
  have hset : occupied [.set 40, .set 255, .set 40, .clear 255, .clear 7] = {40} := by decide
  rw [hset] at hhighest
  obtain ⟨p, hp, hgreatest⟩ := hhighest (by decide)
  exact ⟨bm, hrun, p, hp, Finset.mem_singleton.mp hgreatest.1⟩

end FlintRTOS
