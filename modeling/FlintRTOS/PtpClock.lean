import FlintRTOS.Machine
import FlintRTOS.SignedArith
import Mathlib.Algebra.Order.Group.Abs
import Mathlib.Algebra.Order.Ring.Int

/-!
# The disciplined clock

`ptp_clock.c`: a piecewise linear map from counter ticks to nanoseconds, anchored
anew at every adjustment.  The counter is read from outside, so each function
takes the value it reads.

`advance` says what the map adds to its anchor, over the integers; the code
computes it exactly when nothing overflows, and it never decreases.
-/

namespace FlintRTOS

def nsPerS : Int64 := 1000000000

def ptpClockMaxPpb : Int32 := 500000

/-- `s_base_cnt`, `s_base_ns`, `s_ppb` and `s_epoch`. -/
structure PtpClock where
  baseCnt : UInt64
  baseNs : Int64
  ppb : Int32
  epoch : UInt32
deriving DecidableEq, Repr

section code

variable (o : Overflow) (freq : UInt64)

def ticksToNs (dt : Int64) : Option Int64 :=
  let f := freq.toInt64
  if f ≤ 0 then some 0
  else do
    let secs ← o.div dt f
    let rem ← o.mod dt f
    o.add (← o.mul secs nsPerS) (← o.div (← o.mul rem nsPerS) f)

def scalePpb (d : Int64) (ppb : Int32) : Option Int64 := do
  let whole ← o.div d nsPerS
  let frac ← o.mod d nsPerS
  o.add (← o.mul whole ppb.toInt64) (← o.div (← o.mul frac ppb.toInt64) nsPerS)

def ptpClockFromCnt (c : PtpClock) (cnt : UInt64) : Option Int64 := do
  let d ← ticksToNs o freq (cnt - c.baseCnt).toInt64
  o.add (← o.add c.baseNs d) (← scalePpb o d c.ppb)

/-- `now` is the counter value read. -/
def rebase (now : UInt64) (c : PtpClock) : Option PtpClock := do
  let ns ← ptpClockFromCnt o freq c now
  some { c with baseNs := ns, baseCnt := now }

def ptpClockStep (now : UInt64) (deltaNs : Int64) (c : PtpClock) : Option PtpClock := do
  let c ← rebase o freq now c
  let ns ← o.add c.baseNs deltaNs
  some { c with baseNs := ns, epoch := c.epoch + 1 }

/-- A frequency correction within the slew limit. -/
def clampFreq (ppb : Int32) : Int32 :=
  let ppb := if ppb > ptpClockMaxPpb then ptpClockMaxPpb else ppb
  if ppb < -ptpClockMaxPpb then -ptpClockMaxPpb else ppb

def ptpClockAdjfreq (now : UInt64) (ppb : Int32) (c : PtpClock) : Option PtpClock := do
  let c ← rebase o freq now c
  some { c with ppb := clampFreq ppb }

end code

/-! ### The map over the integers -/

/-- Nanoseconds in `dt` ticks of a counter of `f` Hz. -/
def exactTicks (f dt : Int) : Int := if f ≤ 0 then 0 else (dt * 1000000000).tdiv f

/-- Nanoseconds the clock advances in `d` nanoseconds of the counter. -/
def advance (ppb d : Int) : Int := d + (d * ppb).tdiv 1000000000

@[simp] theorem exactTicks_zero (f : Int) : exactTicks f 0 = 0 := by
  simp [exactTicks]

@[simp] theorem advance_zero (ppb : Int) : advance ppb 0 = 0 := by
  simp [advance]

theorem exactTicks_mono (f : Int) {dt dt' : Int} (hle : dt ≤ dt') :
    exactTicks f dt ≤ exactTicks f dt' := by
  unfold exactTicks
  split
  · exact Int.le_refl 0
  · rename_i hf
    exact Int.tdiv_le_tdiv (by omega) (by omega)

/-- A negative correction takes away what its opposite adds. -/
theorem scaled_neg (d ppb : Int) :
    (d * ppb).tdiv 1000000000 = -(d * -ppb).tdiv 1000000000 := by
  rw [Int.mul_neg, Int.neg_tdiv, Int.neg_neg]

/-- Slower than the counter by no more than the counter runs: over `k` more
    nanoseconds the correction takes away at most `k`. -/
theorem advance_mono {ppb : Int} (hppb : |ppb| ≤ 1000000000) {d d' : Int} (hd : 0 ≤ d)
    (hle : d ≤ d') : advance ppb d ≤ advance ppb d' := by
  obtain ⟨hlow, _⟩ := abs_le.mp hppb
  unfold advance
  rcases Int.le_total 0 ppb with hsign | hsign
  · have h := Int.tdiv_le_tdiv (c := 1000000000) (by decide)
      (Int.mul_le_mul_of_nonneg_right hle hsign)
    omega
  · -- with a negative correction both products are reflected to non-negative ones
    have hprod : d' * -ppb ≤ d * -ppb + (d' - d) * 1000000000 := by
      have h := Int.mul_le_mul_of_nonneg_left (show -ppb ≤ 1000000000 by omega)
        (show 0 ≤ d' - d by omega)
      rw [Int.sub_mul] at h
      omega
    have hnonneg : 0 ≤ d * -ppb := Int.mul_nonneg hd (by omega)
    have hnonneg' : 0 ≤ d' * -ppb := Int.mul_nonneg (by omega) (by omega)
    rw [scaled_neg d ppb, scaled_neg d' ppb, Int.tdiv_eq_ediv_of_nonneg hnonneg,
      Int.tdiv_eq_ediv_of_nonneg hnonneg']
    omega

/-! ### What the code computes when nothing overflows -/

theorem ticksToNs_exact {freq : UInt64} {dt d : Int64} (h : ticksToNs .trap freq dt = some d) :
    d.toInt = exactTicks freq.toInt64.toInt dt.toInt := by
  unfold ticksToNs at h
  unfold exactTicks
  by_cases hf : freq.toInt64 ≤ 0
  · rw [if_pos hf] at h
    cases h
    rw [if_pos (by simpa [Int64.le_iff_toInt_le] using hf)]
    rfl
  · have hf' : ¬ freq.toInt64.toInt ≤ 0 := by simpa [Int64.le_iff_toInt_le] using hf
    rw [if_neg hf] at h
    rw [if_neg hf']
    obtain ⟨secs, hsecs, h⟩ := Option.bind_eq_some_iff.mp h
    obtain ⟨rem, hrem, h⟩ := Option.bind_eq_some_iff.mp h
    obtain ⟨whole, hwhole, h⟩ := Option.bind_eq_some_iff.mp h
    obtain ⟨part, hpart, h⟩ := Option.bind_eq_some_iff.mp h
    obtain ⟨quot, hquot, h⟩ := Option.bind_eq_some_iff.mp h
    rw [Overflow.trap_add h, Overflow.trap_mul hwhole, Overflow.trap_div hquot,
      Overflow.trap_mul hpart, Overflow.trap_div hsecs, Overflow.trap_mod hrem]
    exact Overflow.tdiv_mul_split _ _ (by omega)

theorem scalePpb_exact {d r : Int64} {ppb : Int32} (h : scalePpb .trap d ppb = some r) :
    r.toInt = (d.toInt * ppb.toInt).tdiv 1000000000 := by
  unfold scalePpb at h
  obtain ⟨whole, hwhole, h⟩ := Option.bind_eq_some_iff.mp h
  obtain ⟨frac, hfrac, h⟩ := Option.bind_eq_some_iff.mp h
  obtain ⟨main, hmain, h⟩ := Option.bind_eq_some_iff.mp h
  obtain ⟨part, hpart, h⟩ := Option.bind_eq_some_iff.mp h
  obtain ⟨quot, hquot, h⟩ := Option.bind_eq_some_iff.mp h
  rw [Overflow.trap_add h, Overflow.trap_mul hmain, Overflow.trap_div hquot,
    Overflow.trap_mul hpart, Overflow.trap_div hwhole, Overflow.trap_mod hfrac,
    Int32.toInt_toInt64]
  exact Overflow.tdiv_mul_split _ _ (by decide)

variable {c c' : PtpClock} {v : Int64} {now : UInt64}

theorem ptpClockFromCnt_exact {freq cnt : UInt64} (h : ptpClockFromCnt .trap freq c cnt = some v) :
    v.toInt = c.baseNs.toInt + advance c.ppb.toInt
      (exactTicks freq.toInt64.toInt (cnt - c.baseCnt).toInt64.toInt) := by
  unfold ptpClockFromCnt at h
  obtain ⟨d, hd, h⟩ := Option.bind_eq_some_iff.mp h
  obtain ⟨sum, hsum, h⟩ := Option.bind_eq_some_iff.mp h
  obtain ⟨scaled, hscaled, h⟩ := Option.bind_eq_some_iff.mp h
  rw [Overflow.trap_add h, Overflow.trap_add hsum, scalePpb_exact hscaled, ticksToNs_exact hd,
    advance, Int.add_assoc]

/-- At its anchor the map reads the anchor, whatever overflow does. -/
theorem ptpClockFromCnt_base (o : Overflow) (freq : UInt64) (c : PtpClock) :
    ptpClockFromCnt o freq c c.baseCnt = some c.baseNs := by
  have hticks : ticksToNs o freq 0 = some 0 := by
    by_cases hf : freq.toInt64 ≤ 0
    · simp [ticksToNs, hf]
    · have hne : freq.toInt64 ≠ 0 := fun heq => hf (by simp [heq])
      simp [ticksToNs, hf, o.zero_div hne, o.zero_mod hne]
  have hne : nsPerS ≠ 0 := by decide
  have hscale : scalePpb o 0 c.ppb = some 0 := by
    simp [scalePpb, o.zero_div hne, o.zero_mod hne]
  simp [ptpClockFromCnt, hticks, hscale]

/-! ### The clock under a counter that never goes back -/

inductive ClockOp where
  | adjfreq (ppb : Int32) (now : UInt64)
  | step (deltaNs : Int64) (now : UInt64)
  | read (cnt : UInt64)
deriving DecidableEq, Repr

def ClockOp.cnt : ClockOp → UInt64
  | .adjfreq _ now => now
  | .step _ now => now
  | .read cnt => cnt

def ClockOp.isStep : ClockOp → Bool
  | .step .. => true
  | _ => false

/-- The clock, and the counter value used last. -/
structure ClockState where
  clock : PtpClock
  last : UInt64
deriving DecidableEq, Repr

/-- Adjustments, steps and readings at counter values that do not decrease, each
    less than `2^63` ticks from the anchor.  Overflow traps. -/
def ptpClock (freq : UInt64) : Machine ClockState ClockOp where
  init := ⟨⟨0, 0, 0, 0⟩, 0⟩
  guard s op := s.last ≤ op.cnt ∧ (op.cnt - s.clock.baseCnt).toNat < 2 ^ 63
  exec s
    | .adjfreq ppb now => (ptpClockAdjfreq .trap freq now ppb s.clock).map (⟨·, now⟩)
    | .step deltaNs now => (ptpClockStep .trap freq now deltaNs s.clock).map (⟨·, now⟩)
    | .read cnt => (ptpClockFromCnt .trap freq s.clock cnt).map fun _ => ⟨s.clock, cnt⟩

instance (freq : UInt64) (s : ClockState) (op : ClockOp) :
    Decidable ((ptpClock freq).guard s op) :=
  inferInstanceAs (Decidable (_ ∧ _))

theorem rebase_spec {o : Overflow} {freq : UInt64} (h : rebase o freq now c = some c') :
    ∃ ns, ptpClockFromCnt o freq c now = some ns ∧ c' = { c with baseNs := ns, baseCnt := now } := by
  obtain ⟨ns, hns, h⟩ := Option.bind_eq_some_iff.mp h
  cases h
  exact ⟨ns, hns, rfl⟩

theorem ptpClockStep_spec {o : Overflow} {freq : UInt64} {delta : Int64}
    (h : ptpClockStep o freq now delta c = some c') :
    ∃ ns ns', ptpClockFromCnt o freq c now = some ns ∧ o.add ns delta = some ns' ∧
      c' = ⟨now, ns', c.ppb, c.epoch + 1⟩ := by
  obtain ⟨c₁, hrebase, h⟩ := Option.bind_eq_some_iff.mp h
  obtain ⟨ns, hns, rfl⟩ := rebase_spec hrebase
  obtain ⟨ns', hadd, h⟩ := Option.bind_eq_some_iff.mp h
  cases h
  exact ⟨ns, ns', hns, hadd, rfl⟩

theorem ptpClockAdjfreq_spec {o : Overflow} {freq : UInt64} {ppb : Int32}
    (h : ptpClockAdjfreq o freq now ppb c = some c') :
    ∃ ns, ptpClockFromCnt o freq c now = some ns ∧ c' = ⟨now, ns, clampFreq ppb, c.epoch⟩ := by
  obtain ⟨c₁, hrebase, h⟩ := Option.bind_eq_some_iff.mp h
  obtain ⟨ns, hns, rfl⟩ := rebase_spec hrebase
  cases h
  exact ⟨ns, hns, rfl⟩

theorem abs_clampFreq_le (ppb : Int32) : |(clampFreq ppb).toInt| ≤ 500000 := by
  have hmax : ptpClockMaxPpb.toInt = 500000 := rfl
  have hmin : (-ptpClockMaxPpb).toInt = -500000 := rfl
  rw [abs_le]
  unfold clampFreq
  simp only [gt_iff_lt, Int32.lt_iff_toInt_lt]
  split <;> split <;> omega

/-- Everything a step of the clock does. -/
inductive ClockEffect (freq : UInt64) (s : ClockState) : ClockOp → ClockState → Prop where
  | adjfreq {ppb : Int32} {now : UInt64} {ns : Int64}
      (hns : ptpClockFromCnt .trap freq s.clock now = some ns) :
      ClockEffect freq s (.adjfreq ppb now) ⟨⟨now, ns, clampFreq ppb, s.clock.epoch⟩, now⟩
  | step {delta ns ns' : Int64} {now : UInt64}
      (hns : ptpClockFromCnt .trap freq s.clock now = some ns)
      (hadd : Overflow.trap.add ns delta = some ns') :
      ClockEffect freq s (.step delta now) ⟨⟨now, ns', s.clock.ppb, s.clock.epoch + 1⟩, now⟩
  | read {cnt : UInt64} {v : Int64} (hv : ptpClockFromCnt .trap freq s.clock cnt = some v) :
      ClockEffect freq s (.read cnt) ⟨s.clock, cnt⟩

variable {s s' : ClockState}

theorem ptpClock_effect {freq : UInt64} {op : ClockOp} (h : (ptpClock freq).Step s op s') :
    ClockEffect freq s op s' := by
  obtain ⟨_, hexec⟩ := h
  cases op with
  | adjfreq ppb now =>
    obtain ⟨c, hc, rfl⟩ := Option.map_eq_some_iff.mp hexec
    obtain ⟨ns, hns, rfl⟩ := ptpClockAdjfreq_spec hc
    exact .adjfreq hns
  | step delta now =>
    obtain ⟨c, hc, rfl⟩ := Option.map_eq_some_iff.mp hexec
    obtain ⟨ns, ns', hns, hadd, rfl⟩ := ptpClockStep_spec hc
    exact .step hns hadd
  | read cnt =>
    obtain ⟨v, hv, rfl⟩ := Option.map_eq_some_iff.mp hexec
    exact .read hv

/-- The anchor is not ahead of the counter and the correction is within its limit. -/
structure ClockState.Inv (s : ClockState) : Prop where
  anchor : s.clock.baseCnt ≤ s.last
  ppb : |s.clock.ppb.toInt| ≤ 500000

theorem clockInv_step {freq : UInt64} {op : ClockOp} (hinv : s.Inv)
    (h : (ptpClock freq).Step s op s') : s'.Inv := by
  have hguard := h.1.1
  cases ptpClock_effect h with
  | adjfreq => exact ⟨UInt64.le_refl _, abs_clampFreq_le _⟩
  | step => exact ⟨UInt64.le_refl _, hinv.ppb⟩
  | read => exact ⟨UInt64.le_trans hinv.anchor hguard, hinv.ppb⟩

theorem clockInv_of_reach {freq : UInt64} (h : (ptpClock freq).Reach s) : s.Inv :=
  h.invariant ⟨UInt64.le_refl 0, by simp [ptpClock]⟩ fun _ _ _ _ => clockInv_step

/-- The reading at a counter value the guards admit. -/
theorem reading_exact {freq cnt : UInt64} (hinv : s.Inv) (hlast : s.last ≤ cnt)
    (hspan : (cnt - s.clock.baseCnt).toNat < 2 ^ 63)
    (hv : ptpClockFromCnt .trap freq s.clock cnt = some v) :
    v.toInt = s.clock.baseNs.toInt + advance s.clock.ppb.toInt
      (exactTicks freq.toInt64.toInt (cnt.toNat - s.clock.baseCnt.toNat)) := by
  have hle : s.clock.baseCnt ≤ cnt := UInt64.le_trans hinv.anchor hlast
  rw [ptpClockFromCnt_exact hv, Overflow.toInt_toInt64 hspan, UInt64.toNat_sub_of_le _ _ hle,
    Nat.cast_sub (UInt64.le_iff_toNat_le.mp hle)]

theorem advance_ticks_mono (freq : UInt64) (hinv : s.Inv) {dt dt' : Int} (hdt : 0 ≤ dt)
    (hle : dt ≤ dt') :
    advance s.clock.ppb.toInt (exactTicks freq.toInt64.toInt dt) ≤
      advance s.clock.ppb.toInt (exactTicks freq.toInt64.toInt dt') := by
  have hppb := hinv.ppb
  refine advance_mono (by omega) ?_ (exactTicks_mono _ hle)
  have h := exactTicks_mono freq.toInt64.toInt hdt
  rwa [exactTicks_zero] at h

/-- Every reading from here on is at least `v`. -/
def NotBelow (freq : UInt64) (v : Int64) (s : ClockState) : Prop :=
  ∀ cnt v', s.last ≤ cnt → (cnt - s.clock.baseCnt).toNat < 2 ^ 63 →
    ptpClockFromCnt .trap freq s.clock cnt = some v' → v.toInt ≤ v'.toInt

/-- A reading is not above any later one on the same anchor. -/
theorem notBelow_read {freq cnt : UInt64} (hinv : s.Inv) (hlast : s.last ≤ cnt)
    (hspan : (cnt - s.clock.baseCnt).toNat < 2 ^ 63)
    (hv : ptpClockFromCnt .trap freq s.clock cnt = some v) : NotBelow freq v ⟨s.clock, cnt⟩ := by
  intro cnt' v' hlast' hspan' hv'
  have hle := UInt64.le_iff_toNat_le.mp (UInt64.le_trans hinv.anchor hlast)
  have hle' := UInt64.le_iff_toNat_le.mp hlast'
  rw [reading_exact hinv hlast hspan hv,
    reading_exact hinv (UInt64.le_trans hlast hlast') hspan' hv']
  refine Int.add_le_add_left (advance_ticks_mono freq hinv (by omega) ?_) _
  exact Int.sub_le_sub_right (Int.ofNat_le.mpr hle') _

theorem notBelow_anchor {freq : UInt64} (hinv : s.Inv) : NotBelow freq s.clock.baseNs s := by
  intro cnt v' hlast hspan hv
  have hle := UInt64.le_iff_toNat_le.mp (UInt64.le_trans hinv.anchor hlast)
  have h := advance_ticks_mono freq hinv (Int.le_refl 0)
    (show (0 : Int) ≤ cnt.toNat - s.clock.baseCnt.toNat by omega)
  rw [exactTicks_zero, advance_zero] at h
  rw [reading_exact hinv hlast hspan hv]
  omega

theorem notBelow_step {freq : UInt64} {op : ClockOp} (hinv : s.Inv)
    (h : (ptpClock freq).Step s op s') (hop : op.isStep = false) (hbelow : NotBelow freq v s) :
    NotBelow freq v s' := by
  have hinv' := clockInv_step hinv h
  obtain ⟨hlast, hspan⟩ := h.1
  cases ptpClock_effect h with
  | adjfreq hns =>
    intro cnt v' hcnt hspan' hv'
    exact Int.le_trans (hbelow _ _ hlast hspan hns) (notBelow_anchor hinv' cnt v' hcnt hspan' hv')
  | step => cases hop
  | read =>
    intro cnt' v' hcnt hspan' hv'
    exact hbelow cnt' v' (UInt64.le_trans hlast hcnt) hspan' hv'

theorem notBelow_run {freq : UInt64} {ops : List ClockOp} (hinv : s.Inv)
    (hrun : (ptpClock freq).Run s ops s') (hops : ∀ op ∈ ops, op.isStep = false)
    (hbelow : NotBelow freq v s) : s'.Inv ∧ NotBelow freq v s' := by
  induction hrun with
  | refl => exact ⟨hinv, hbelow⟩
  | tail _ hstep ih =>
    obtain ⟨hinv₁, hbelow₁⟩ := ih fun op hop => hops op (by simp [hop])
    exact ⟨clockInv_step hinv₁ hstep, notBelow_step hinv₁ hstep (hops _ (by simp)) hbelow₁⟩

/-- The clock never runs backwards.  Its correction stays within 500 ppm, an
    adjustment changes no reading at its instant, a step by `delta` changes it by
    `delta`, and without a step no reading is below an earlier one. -/
theorem clock_never_runs_backwards (freq : UInt64) {s : ClockState}
    (h : (ptpClock freq).Reach s) :
    |s.clock.ppb.toInt| ≤ 500000 ∧
      (∀ ppb now s', (ptpClock freq).Step s (.adjfreq ppb now) s' →
        ∃ v, ptpClockFromCnt .trap freq s.clock now = some v ∧
          ptpClockFromCnt .trap freq s'.clock now = some v) ∧
      (∀ delta now s', (ptpClock freq).Step s (.step delta now) s' →
        ∃ v v', ptpClockFromCnt .trap freq s.clock now = some v ∧
          ptpClockFromCnt .trap freq s'.clock now = some v' ∧
          v'.toInt = v.toInt + delta.toInt) ∧
      ∀ cnt₁ s₁ ops s₂ cnt₂ s₃, (ptpClock freq).Step s (.read cnt₁) s₁ →
        (ptpClock freq).Run s₁ ops s₂ → (∀ op ∈ ops, op.isStep = false) →
        (ptpClock freq).Step s₂ (.read cnt₂) s₃ →
        ∃ v₁ v₂, ptpClockFromCnt .trap freq s.clock cnt₁ = some v₁ ∧
          ptpClockFromCnt .trap freq s₂.clock cnt₂ = some v₂ ∧ v₁ ≤ v₂ := by
  have hinv := clockInv_of_reach h
  refine ⟨hinv.ppb, ?_, ?_, ?_⟩
  · intro ppb now s' hstep
    cases ptpClock_effect hstep with
    | adjfreq hns => exact ⟨_, hns, ptpClockFromCnt_base _ _ ⟨now, _, _, _⟩⟩
  · intro delta now s' hstep
    cases ptpClock_effect hstep with
    | step hns hadd =>
      exact ⟨_, _, hns, ptpClockFromCnt_base _ _ ⟨now, _, _, _⟩, Overflow.trap_add hadd⟩
  · intro cnt₁ s₁ ops s₂ cnt₂ s₃ hread hrun hops hread'
    obtain ⟨hlast, hspan⟩ := hread.1
    have hinv₁ := clockInv_step hinv hread
    cases ptpClock_effect hread with
    | read hv₁ =>
      obtain ⟨_, hbelow⟩ := notBelow_run hinv₁ hrun hops (notBelow_read hinv hlast hspan hv₁)
      obtain ⟨hlast', hspan'⟩ := hread'.1
      cases ptpClock_effect hread' with
      | read hv₂ =>
        exact ⟨_, _, hv₁, hv₂, Int64.le_iff_toInt_le.mpr (hbelow _ _ hlast' hspan' hv₂)⟩

/-- At 54 MHz, half a second slowed by 500 ppm and the next sped up. -/
theorem clock_never_runs_backwards_slewed :
    ∃ s, (ptpClock 54000000).Reach s ∧ s.clock.ppb = 500000 ∧ |s.clock.ppb.toInt| ≤ 500000 := by
  obtain ⟨s, hreach, hs⟩ := (ptpClock 54000000).exists_reach
    [.step 5000 0, .adjfreq (-2000000) 0, .read 27000000, .adjfreq 600000 27000000, .read 54000000]
    (fun s => s.clock.ppb = 500000) (by decide +kernel)
  exact ⟨s, hreach, of_decide_eq_true hs, (clock_never_runs_backwards _ hreach).1⟩

end FlintRTOS
