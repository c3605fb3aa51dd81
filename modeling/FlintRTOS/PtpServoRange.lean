import FlintRTOS.PtpCore
import FlintRTOS.PtpServoPlan

/-!
# The range of the servo and of the statistics

What a sample computes, in the servo and in the statistics of `report`, stays within 64
bits only as long as the master's time does not jump too far.  `SampleFits` says how far
it may, in each state of the servo: in `PTP_SERVO_STEPPED` the change of the offset is
multiplied by `10 ^ 9` before it is looked at, and whatever sample leaves the servo
locked, an ignored outlier included, is squared.

The clock has arithmetic of its own, which is left out here: of the clock only the
frequency is kept.
-/

namespace FlintRTOS

/-! ### The statistics -/

/-- The statistics start again after the last sample of a window. -/
def closeStats (g : PtpCore) : PtpCore :=
  if g.stN ≥ ptpStatsWin then { g with stN := 0, stSum := 0, stSq := 0, stMax := 0 } else g

theorem report_eq (o : Overflow) (freq now : UInt64) (offset : Int64) (g : PtpCore) (c : PtpClock) :
    report o freq now offset g c = (countOffset o offset g).bind fun g' =>
      (ptpCoreUtcNowNs o freq now g' c).map fun _ => closeStats g' := by
  simp only [report, closeStats, Option.bind_eq_bind, Option.map_eq_bind, Function.comp_def]
  congr 1
  funext g'
  congr 1
  funext _
  split <;> rfl

/-! ### The system -/

/-- The servo and the statistics, the frequency of the clock, and the last counter
    value. -/
structure StatState where
  core : PtpCore
  ppb : Int32
  last : UInt64
deriving DecidableEq, Repr

/-- What `sync_complete` computes from a sample. -/
def sampleStats (o : Overflow) (freq : UInt64) (a : RawSample) (core : PtpCore) (ppb : Int32) :
    Option (ServoPlan × PtpCore) := do
  let p ← servoPlan o freq a.rawNs a.delayNs a.rxCnt core.servo ppb
  let g ← countOffset o p.offset { core with servo := p.servo }
  some (p, g)

/-- The statistics alone. -/
structure Stats where
  sum : Int64
  max : Int64
  sq : UInt64
  n : UInt32

def PtpCore.stats (g : PtpCore) : Stats := ⟨g.stSum, g.stMax, g.stSq, g.stN⟩

/-- Counting reads nothing but the servo and the statistics. -/
theorem countOffset_congr {o : Overflow} {offset : Int64} {g₁ g₁' : PtpCore} (g₂ : PtpCore)
    (h : countOffset o offset g₁ = some g₁') (hservo : g₁.servo = g₂.servo)
    (hstats : g₁.stats = g₂.stats) :
    ∃ g₂', countOffset o offset g₂ = some g₂' ∧ g₁'.stats = g₂'.stats ∧ g₁'.servo = g₂.servo := by
  have hstats' := hstats
  simp only [PtpCore.stats, Stats.mk.injEq] at hstats'
  obtain ⟨hsum, hmax, hsq, hn⟩ := hstats'
  unfold countOffset at h
  split at h
  · rename_i hlocked
    simp only [Option.bind_eq_bind, Option.bind_eq_some_iff] at h
    obtain ⟨ao, hao, sum, hadd, square, hmul, heq⟩ := h
    cases heq
    rw [hsum] at hadd
    rw [hservo] at hlocked
    simp only [countOffset, if_pos hlocked, hao, hadd, hmul, Option.bind_eq_bind, Option.bind_some]
    refine ⟨_, rfl, ?_, hservo⟩
    simp only [PtpCore.stats, hmax, hsq, hn]
  · rename_i hother
    cases h
    rw [hservo] at hother
    exact ⟨g₂, if_neg hother, hstats, hservo⟩

theorem closeStats_servo (g : PtpCore) : (closeStats g).servo = g.servo := by
  unfold closeStats
  split <;> rfl

theorem closeStats_stats {g₁ g₂ : PtpCore} (h : g₁.stats = g₂.stats) :
    (closeStats g₁).stats = (closeStats g₂).stats := by
  have hn : g₁.stN = g₂.stN := congrArg Stats.n h
  unfold closeStats
  rw [hn]
  split
  · rfl
  · exact h

/-- A completed Sync leaves the servo, the frequency and the statistics that
    `sampleStats` computes. -/
theorem syncComplete_sampleStats {o : Overflow} {freq : UInt64} {cnt : CntReads} {t1 corr : Int64}
    {g : PtpCore} {c : PtpClock} {out : PtpOut}
    (h : syncComplete o freq cnt t1 corr g c = some out) (hepoch : g.t2Epoch = c.epoch) :
    ∃ raw p g', sampleStats o freq ⟨raw, g.delayNs, g.t2Cnt⟩ g c.ppb = some (p, g') ∧
      out.core.servo = p.servo ∧ out.clock.ppb = p.adjfreq.elim c.ppb clampFreq ∧
      out.core.stats = (closeStats g').stats := by
  simp only [syncComplete, hepoch, ne_eq, not_true_eq_false, if_false, Option.bind_eq_bind,
    Option.bind_eq_some_iff, ptpServoSample_eq, report_eq, Option.map_eq_some_iff] at h
  obtain ⟨sum, -, raw, -, r, ⟨p, hplan, c', hcalls, rfl⟩, g', ⟨g₁, hcount, _, -, rfl⟩, heq⟩ := h
  cases heq
  obtain ⟨g₂, hcount₂, hstats, hservo⟩ := countOffset_congr { g with servo := p.servo } hcount
    (by split <;> rfl) (by split <;> rfl)
  obtain ⟨-, hppb, -⟩ := ServoPlan.apply_spec hcalls
  refine ⟨raw, p, g₂, ?_, ?_, hppb, closeStats_stats hstats⟩
  · simp only [sampleStats, hplan, hcount₂, Option.bind_eq_bind, Option.bind_some]
  · change (closeStats g₁).servo = p.servo
    rw [closeStats_servo]
    exact hservo

/-- The sum of squares does not wrap. -/
def SquareFits (core : PtpCore) (p : ServoPlan) : Prop :=
  p.servo.state = .locked → core.stSq.toNat + p.offset.toInt ^ 2 < 2 ^ 64

instance (core : PtpCore) (p : ServoPlan) : Decidable (SquareFits core p) :=
  inferInstanceAs (Decidable (_ → _))

/-- Samples of a bounded offset and delay at counter values that do not decrease, after
    a reset.  A sample on which anything leaves its 64 bits is not survived. -/
def statRun (freq : UInt64) (g₀ : PtpCore) (ppb₀ : Int32) : Machine StatState RawSample where
  init := ⟨resetMeasurements g₀, ppb₀, 0⟩
  guard x a := |a.rawNs.toInt| ≤ 2 ^ 61 ∧ |a.delayNs.toInt| ≤ 10000000 ∧ x.last ≤ a.rxCnt
  exec x a := do
    let (p, g) ← sampleStats .trap freq a x.core x.ppb
    if SquareFits x.core p then some ⟨closeStats g, p.adjfreq.elim x.ppb clampFreq, a.rxCnt⟩
    else none

instance (freq : UInt64) (g₀ : PtpCore) (ppb₀ : Int32) (x : StatState) (a : RawSample) :
    Decidable ((statRun freq g₀ ppb₀).guard x a) :=
  inferInstanceAs (Decidable (_ ∧ _))

/-- The sample leaves the servo locked. -/
def EndsLocked (freq : UInt64) (s : PtpServo) (a : RawSample) : Prop :=
  (s.state = .stepped ∧ ¬ spanNs freq s.refCnt a.rxCnt < nsPerS / 8 ∧ 0 ≤ a.delayNs.toInt) ∨
  (s.state = .locked ∧ ¬ (1000000 < |a.offset| ∧ s.outliers + 1 ≥ ptpServoOutliers))

/-- How far a sample may be off. -/
structure SampleFits (freq : UInt64) (x : StatState) (a : RawSample) : Prop where
  /-- A slope is measured of a change of less than 9.3 seconds. -/
  slope : x.core.servo.state = .stepped →
    ¬ spanNs freq x.core.servo.refCnt a.rxCnt < nsPerS / 8 →
    |a.rawNs.toInt - x.core.servo.refRaw.toInt| ≤ 9223372036
  /-- A sample that is counted is off by less than 3.1 seconds. -/
  square : EndsLocked freq x.core.servo a → |a.offset| ≤ 3037000499
  /-- The squares of a window add up to less than `2 ^ 64`. -/
  squares : EndsLocked freq x.core.servo a → x.core.stSq.toNat + a.offset ^ 2 < 2 ^ 64

/-! ### One operation after the other -/

section range

variable {freq : UInt64} {a : RawSample} {s : PtpServo} {ppb : Int32}

theorem exists_offset (o : Overflow) (hraw : |a.rawNs.toInt| ≤ 2 ^ 61)
    (hdelay : |a.delayNs.toInt| ≤ 10000000) :
    ∃ offset : Int64, o.sub a.rawNs (usedDelay a.delayNs) = some offset ∧ offset.toInt = a.offset := by
  have hused := toInt_usedDelay a.delayNs
  rw [abs_le] at hraw hdelay
  exact o.exists_sub rfl hused (by constructor <;> omega)

theorem abs_offset_le (hraw : |a.rawNs.toInt| ≤ 2 ^ 61) (hdelay : |a.delayNs.toInt| ≤ 10000000) :
    |a.offset| ≤ 2 ^ 61 + 10000000 := by
  rw [abs_le] at *
  unfold RawSample.offset
  omega

/-- The slope fits if and only if the change of the offset does, in nanoseconds times
    `10 ^ 9`. -/
theorem slopeDrift_iff {rawNs span : Int64} (hspan : ¬ span < nsPerS / 8)
    (hchange : |rawNs.toInt - s.refRaw.toInt| ≤ 2 ^ 62) :
    (∃ drift, slopeDrift .trap rawNs span s ppb = some drift) ↔
      |rawNs.toInt - s.refRaw.toInt| ≤ 9223372036 := by
  have hns : nsPerS.toInt = 1000000000 := rfl
  obtain ⟨change, hsub, hchangeval⟩ :=
    Overflow.trap.exists_sub rfl rfl (fits64_of_abs hchange (by decide))
  constructor
  · rintro ⟨drift, h⟩
    simp only [slopeDrift, hsub, Option.bind_eq_bind, Option.bind_some,
      Option.bind_eq_some_iff] at h
    obtain ⟨product, hmul, -⟩ := h
    have hval := Overflow.trap_mul hmul
    rw [hchangeval, hns] at hval
    have hlow := product.le_toInt
    have hhigh := product.toInt_lt
    rw [abs_le]
    omega
  · intro hsmall
    have hlong : 125000000 ≤ span.toInt := by
      rw [Int64.lt_iff_toInt_lt, not_lt] at hspan
      exact hspan
    have hproduct : |change.toInt * nsPerS.toInt| ≤ 125000000 * 73786976288 := by
      rw [hchangeval, hns]
      rw [abs_le] at *
      omega
    obtain ⟨product, hmul, hproductval⟩ :=
      Overflow.trap.exists_mul rfl rfl (fits64_of_abs hproduct (by decide))
    have hquot := Overflow.abs_tdiv_le (by decide) hlong (hproductval ▸ hproduct)
    have hne : span ≠ 0 := by
      rintro rfl
      simp at hlong
    obtain ⟨slope, hdiv, hslopeval⟩ := Overflow.trap.exists_div hne
      (fits64_of_abs hquot (by decide))
    obtain ⟨diff, hdiff, -⟩ := Overflow.trap.exists_sub hslopeval (Int32.toInt_toInt64 ppb) (by
      have hlow := ppb.le_toInt
      have hhigh := ppb.toInt_lt
      rw [abs_le] at hquot
      constructor <;> omega)
    exact ⟨clampPpb diff, by simp only [slopeDrift, hsub, hmul, hdiv, hdiff, Option.bind_eq_bind,
      Option.bind_some]⟩

variable {offset : Int64}

/-- A term of the controller, with any sampling interval it admits. -/
theorem exists_term {span : Int64} (num den : Int64) (hoffset : |offset.toInt| ≤ 1000000)
    (hnum : 0 ≤ num.toInt ∧ num.toInt ≤ 3) (hden : 10 ≤ den.toInt ∧ den.toInt ≤ 20)
    (hspan : 1 ≤ span.toInt ∧ span.toInt ≤ 8000000000) :
    ∃ v₁ v₂ v₃ r : Int64, Overflow.trap.mul offset num = some v₁ ∧
      Overflow.trap.mul v₁ nsPerS = some v₂ ∧ Overflow.trap.mul den span = some v₃ ∧
      Overflow.trap.div v₂ v₃ = some r ∧ |r.toInt| ≤ 300000000000000 := by
  have hns : nsPerS.toInt = 1000000000 := rfl
  have hfirst : |offset.toInt * num.toInt| ≤ 1000000 * 3 := by
    rw [abs_mul, abs_of_nonneg hnum.1]
    exact mul_le_mul hoffset hnum.2 hnum.1 (by decide)
  obtain ⟨v₁, h₁, hval₁⟩ := Overflow.trap.exists_mul rfl rfl (fits64_of_abs hfirst (by decide))
  have hsecond : |v₁.toInt * nsPerS.toInt| ≤ 10 * 300000000000000 := by
    rw [hval₁, hns]
    rw [abs_le] at *
    omega
  obtain ⟨v₂, h₂, hval₂⟩ := Overflow.trap.exists_mul rfl rfl (fits64_of_abs hsecond (by decide))
  have hlow : 10 * 1 ≤ den.toInt * span.toInt :=
    mul_le_mul hden.1 hspan.1 (by decide) (by omega)
  have hhigh : den.toInt * span.toInt ≤ 20 * 8000000000 :=
    mul_le_mul hden.2 hspan.2 (by omega) (by decide)
  obtain ⟨v₃, h₃, hval₃⟩ :=
    Overflow.trap.exists_mul (a := den) (b := span) rfl rfl (by constructor <;> omega)
  have hquot := Overflow.abs_tdiv_le (m := v₃.toInt) (by decide) (by omega)
    (hval₂ ▸ hsecond)
  have hne : v₃ ≠ 0 := by
    rintro rfl
    simp only [Int64.toInt_zero] at hval₃
    omega
  obtain ⟨r, hr, hrval⟩ := Overflow.trap.exists_div hne (fits64_of_abs hquot (by decide))
  exact ⟨v₁, v₂, v₃, r, h₁, h₂, h₃, hr, by rw [hrval]; exact hquot⟩

theorem exists_servoOutput_trap {rxCnt : UInt64} (hoffset : |offset.toInt| ≤ 1000000)
    (hdrift : |s.driftPpb.toInt| ≤ 500000) :
    ∃ out, servoOutput .trap freq offset rxCnt s = some out := by
  have hspan : ∀ span : Int64,
      1 ≤ (if span ≤ 0 ∨ span > 8000000000 then nsPerS else span).toInt ∧
        (if span ≤ 0 ∨ span > 8000000000 then nsPerS else span).toInt ≤ 8000000000 := by
    intro span
    split
    · decide
    · rename_i hin
      obtain ⟨hpos, hle⟩ := not_or.mp hin
      rw [gt_iff_lt, Int64.lt_iff_toInt_lt, not_lt] at hle
      rw [Int64.le_iff_toInt_le, not_le] at hpos
      exact ⟨hpos, hle⟩
  obtain ⟨p₁, p₂, p₃, p, hp₁, hp₂, hp₃, hp, hple⟩ := exists_term 3 10 hoffset (by decide) (by decide)
    (hspan (spanNs freq s.lastCnt rxCnt))
  obtain ⟨i₁, i₂, i₃, i, hi₁, hi₂, hi₃, hi, hile⟩ := exists_term 1 20 hoffset (by decide) (by decide)
    (hspan (spanNs freq s.lastCnt rxCnt))
  obtain ⟨sum, hsum, -⟩ := Overflow.trap.exists_add (a := s.driftPpb) (b := i) rfl rfl (by
    rw [abs_le] at *
    constructor <;> omega)
  have hclamp := abs_clampPpb_le sum
  obtain ⟨total, htotal, htotalval⟩ :=
    Overflow.trap.exists_add (a := clampPpb sum) (b := p) rfl rfl (by
      rw [abs_le] at *
      constructor <;> omega)
  obtain ⟨neg, hneg, -⟩ := Overflow.trap.exists_neg (a := total) (by
    rw [abs_le] at *
    rw [abs_lt, htotalval]
    omega)
  refine ⟨(clampPpb sum, (clampPpb neg).toInt32), ?_⟩
  simp only [servoOutput, hp₁, hp₂, hp₃, hp, hi₁, hi₂, hi₃, hi, hsum, htotal, hneg,
    Option.bind_eq_bind, Option.bind_some]

/-- An offset is counted if and only if its square fits. -/
theorem countOffset_iff {g : PtpCore} (hlocked : g.servo.state = .locked)
    (hoffset : |offset.toInt| ≤ 2 ^ 61 + 10000000) (hsum : |g.stSum.toInt| ≤ 2 ^ 61) :
    (∃ g', countOffset .trap offset g = some g') ↔ |offset.toInt| ≤ 3037000499 := by
  obtain ⟨ao, habs, habsval⟩ := exists_abs64 .trap (v := offset) (hoffset.trans_lt (by decide))
  obtain ⟨sum, hadd, -⟩ := Overflow.trap.exists_add (a := g.stSum) (b := offset) rfl rfl (by
    rw [abs_le] at *
    constructor <;> omega)
  simp only [countOffset, if_pos hlocked, habs, hadd, Option.bind_eq_bind, Option.bind_some]
  rw [← habsval]
  constructor
  · rintro ⟨g', h⟩
    obtain ⟨square, hsquare, -⟩ := Option.bind_eq_some_iff.mp h
    have hval := Overflow.trap_mul hsquare
    have hlt := square.toInt_lt
    by_contra hlarge
    have hmul : 3037000500 * 3037000500 ≤ ao.toInt * ao.toInt :=
      mul_le_mul (by omega) (by omega) (by decide) (by omega)
    omega
  · intro hsmall
    have hnonneg : 0 ≤ ao.toInt := by
      rw [habsval]
      exact abs_nonneg _
    have hmul : ao.toInt * ao.toInt ≤ 3037000499 * 3037000499 :=
      mul_le_mul hsmall hsmall hnonneg (by decide)
    have hpos : 0 ≤ ao.toInt * ao.toInt := mul_nonneg hnonneg hnonneg
    obtain ⟨square, hsquare, -⟩ :=
      Overflow.trap.exists_mul (a := ao) (b := ao) rfl rfl (by constructor <;> omega)
    rw [hsquare]
    exact ⟨_, rfl⟩

theorem countOffset_spec {g g' : PtpCore} (h : countOffset .trap offset g = some g') :
    g'.servo = g.servo ∧ (g.servo.state ≠ .locked → g' = g) ∧
      (g.servo.state = .locked →
        g'.stSum.toInt = g.stSum.toInt + offset.toInt ∧ g'.stN = g.stN + 1) := by
  unfold countOffset at h
  split at h
  · rename_i hlocked
    simp only [Option.bind_eq_bind, Option.bind_eq_some_iff] at h
    obtain ⟨_, _, sum, hsum, _, _, heq⟩ := h
    cases heq
    exact ⟨rfl, fun hne => absurd hlocked hne, fun _ => ⟨Overflow.trap_add hsum, rfl⟩⟩
  · rename_i hother
    cases h
    exact ⟨rfl, fun _ => rfl, fun hlocked => absurd hlocked hother⟩

end range

/-! ### Runs -/

/-- What runs keep: the drift within its limit, the reference within the range of the
    samples, and the sum within that of a window of counted offsets. -/
structure StatInv (x : StatState) : Prop where
  drift : |x.core.servo.driftPpb.toInt| ≤ 500000
  ref : |x.core.servo.refRaw.toInt| ≤ 2 ^ 61
  sum : |x.core.stSum.toInt| ≤ x.core.stN.toNat * 3037000499
  few : x.core.stN.toNat < 16

section runs

variable {freq : UInt64} {g₀ : PtpCore} {ppb₀ : Int32} {x y : StatState} {a : RawSample}

/-- A sample runs if its plan, its statistics and its square are in range. -/
theorem statRun_exec_iff :
    (statRun freq g₀ ppb₀).exec x a = some y ↔
      ∃ p g, servoPlan .trap freq a.rawNs a.delayNs a.rxCnt x.core.servo x.ppb = some p ∧
        countOffset .trap p.offset { x.core with servo := p.servo } = some g ∧
        SquareFits x.core p ∧ y = ⟨closeStats g, p.adjfreq.elim x.ppb clampFreq, a.rxCnt⟩ := by
  simp only [statRun, sampleStats, Option.bind_eq_bind, Option.bind_assoc, Option.bind_some,
    Option.bind_eq_some_iff]
  constructor
  · rintro ⟨p, hp, g, hg, h⟩
    split at h
    · rename_i hfits
      cases h
      exact ⟨p, g, hp, hg, hfits, rfl⟩
    · cases h
  · rintro ⟨p, g, hp, hg, hfits, rfl⟩
    exact ⟨p, hp, g, hg, if_pos hfits⟩

variable {offset : Int64} {p : ServoPlan}

theorem ServoExit.bounds {o : Overflow} {s : PtpServo} {ppb : Int32}
    (h : ServoExit o freq a.rawNs a.delayNs a.rxCnt s ppb offset p)
    (hraw : |a.rawNs.toInt| ≤ 2 ^ 61) (hdelay : |a.delayNs.toInt| ≤ 10000000)
    (hdrift : |s.driftPpb.toInt| ≤ 500000) (href : |s.refRaw.toInt| ≤ 2 ^ 61) :
    p.offset = offset ∧ |p.servo.driftPpb.toInt| ≤ 500000 ∧ |p.servo.refRaw.toInt| ≤ 2 ^ 61 := by
  have hused : |(usedDelay a.delayNs).toInt| ≤ 2 ^ 61 := by
    rw [toInt_usedDelay]
    rw [abs_le] at *
    omega
  cases h with
  | first => exact ⟨rfl, hdrift, hused⟩
  | early => exact ⟨rfl, hdrift, href⟩
  | lock _ _ _ hslope => exact ⟨rfl, slopeDrift_bound hslope, hused⟩
  | rereference _ _ _ hslope => exact ⟨rfl, slopeDrift_bound hslope, hraw⟩
  | outlier => exact ⟨rfl, hdrift, href⟩
  | jump => exact ⟨rfl, hdrift, hused⟩
  | steer _ _ _ hout => exact ⟨rfl, servoOutput_bound hout, href⟩

theorem statInv_step (hinv : StatInv x) (h : (statRun freq g₀ ppb₀).Step x a y) : StatInv y := by
  obtain ⟨⟨hraw, hdelay, -⟩, hexec⟩ := h
  obtain ⟨p, g, hplan, hcount, -, rfl⟩ := statRun_exec_iff.mp hexec
  obtain ⟨offset, hoffset, hexit⟩ := servoPlan_exit hplan
  obtain ⟨rfl, hdrift, href⟩ := hexit.bounds hraw hdelay hinv.drift hinv.ref
  obtain ⟨hservo, hkept, hcounted⟩ := countOffset_spec hcount
  have hsum := hinv.sum
  have hfew := hinv.few
  -- the window before it is closed
  have hwindow : |g.stSum.toInt| ≤ g.stN.toNat * 3037000499 ∧ g.stN.toNat ≤ 16 := by
    by_cases hlocked : p.servo.state = .locked
    · obtain ⟨hval, hn⟩ := hcounted hlocked
      have hle : |p.offset.toInt| ≤ 3037000499 := by
        refine (countOffset_iff hlocked ?_ ?_).mp ⟨g, hcount⟩
        · rw [Overflow.trap_to64 hoffset, toInt_usedDelay]
          exact abs_offset_le hraw hdelay
        · exact hsum.trans (by omega)
      have hnext : g.stN.toNat = x.core.stN.toNat + 1 := by
        have hone : (1 : UInt32).toNat = 1 := rfl
        rw [hn]
        change (x.core.stN + 1).toNat = _
        rw [UInt32.toNat_add, hone]
        omega
      have hval' : g.stSum.toInt = x.core.stSum.toInt + p.offset.toInt := hval
      rw [hval', hnext]
      rw [abs_le] at *
      omega
    · rw [hkept hlocked]
      exact ⟨hsum, Nat.le_of_lt hfew⟩
  have hlimit : ptpStatsWin.toNat = 16 := rfl
  unfold closeStats
  split
  · refine ⟨?_, ?_, ?_, ?_⟩
    · change |g.servo.driftPpb.toInt| ≤ 500000
      rw [hservo]
      exact hdrift
    · change |g.servo.refRaw.toInt| ≤ 2 ^ 61
      rw [hservo]
      exact href
    · simp
    · simp
  · rename_i hopen
    rw [ge_iff_le, UInt32.le_iff_toNat_le, hlimit] at hopen
    refine ⟨?_, ?_, hwindow.1, ?_⟩
    · rw [hservo]
      exact hdrift
    · rw [hservo]
      exact href
    · change g.stN.toNat < 16
      omega

theorem statInv_of_reach (h : (statRun freq g₀ ppb₀).Reach x) : StatInv x := by
  refine h.invariant ⟨?_, ?_, ?_, ?_⟩ fun _ _ _ _ => statInv_step
  all_goals simp [statRun, resetMeasurements, ptpServoInit]

/-- An exit leaves the servo locked as `EndsLocked` says. -/
theorem ServoExit.locked_iff {s : PtpServo} {ppb : Int32}
    (h : ServoExit .trap freq a.rawNs a.delayNs a.rxCnt s ppb offset p)
    (hoffset : offset.toInt = a.offset) : p.servo.state = .locked ↔ EndsLocked freq s a := by
  have hsign : a.delayNs ≥ 0 ↔ 0 ≤ a.delayNs.toInt := Int64.le_iff_toInt_le
  unfold EndsLocked
  cases h with
  | first hstate => simp [hstate]
  | early hstate hspan => simp [hstate, hspan]
  | lock hstate hspan hdelay => simp [hstate, hspan, hsign.mp hdelay]
  | rereference hstate _ hdelay => simp [hstate, mt hsign.mpr hdelay]
  | outlier hstate _ _ hfew => simp [hstate, hfew]
  | jump hstate habs hlarge hmany => simp [hstate, (large_iff hoffset habs).mp hlarge, hmany]
  | steer hstate habs hsmall => simp [hstate, mt (large_iff hoffset habs).mpr hsmall]

theorem ServoExit.slope {o : Overflow} {s : PtpServo} {ppb : Int32}
    (h : ServoExit o freq a.rawNs a.delayNs a.rxCnt s ppb offset p) (hstate : s.state = .stepped)
    (hspan : ¬ spanNs freq s.refCnt a.rxCnt < nsPerS / 8) :
    ∃ drift, slopeDrift o a.rawNs (spanNs freq s.refCnt a.rxCnt) s ppb = some drift := by
  cases h with
  | first hother => cases hstate.symm.trans hother
  | early _ hclose => exact absurd hclose hspan
  | lock _ _ _ hdrift => exact ⟨_, hdrift⟩
  | rereference _ _ _ hdrift => exact ⟨_, hdrift⟩
  | outlier hother => cases hstate.symm.trans hother
  | jump hother => cases hstate.symm.trans hother
  | steer hother => cases hstate.symm.trans hother

/-- The servo computes in range whenever the slope, if one is measured, does. -/
theorem exists_exit {s : PtpServo} {ppb : Int32} (hoffset : offset.toInt = a.offset)
    (hrange : |a.offset| < 2 ^ 63) (hdrift : |s.driftPpb.toInt| ≤ 500000)
    (hslope : s.state = .stepped → ¬ spanNs freq s.refCnt a.rxCnt < nsPerS / 8 →
      ∃ drift, slopeDrift .trap a.rawNs (spanNs freq s.refCnt a.rxCnt) s ppb = some drift) :
    ∃ p, ServoExit .trap freq a.rawNs a.delayNs a.rxCnt s ppb offset p := by
  rw [← hoffset] at hrange
  obtain ⟨delta, hdelta, -⟩ := Overflow.trap.exists_neg hrange
  obtain ⟨magnitude, habs, habsval⟩ := exists_abs64 .trap hrange
  cases hstate : s.state with
  | unlocked => exact ⟨_, .first hstate hdelta⟩
  | stepped =>
    by_cases hspan : spanNs freq s.refCnt a.rxCnt < nsPerS / 8
    · exact ⟨_, .early hstate hspan⟩
    obtain ⟨drift, hdrift⟩ := hslope hstate hspan
    obtain ⟨neg, hneg, -⟩ := Overflow.trap.exists_neg ((slopeDrift_bound hdrift).trans_lt (by decide))
    by_cases hdelay : a.delayNs ≥ 0
    · exact ⟨_, .lock hstate hspan hdelay hdrift hneg hdelta⟩
    · exact ⟨_, .rereference hstate hspan hdelay hdrift hneg⟩
  | locked =>
    by_cases hlarge : magnitude > ptpServoStepNs
    · by_cases hmany : s.outliers + 1 ≥ ptpServoOutliers
      · exact ⟨_, .jump hstate habs hlarge hmany hdelta⟩
      · exact ⟨_, .outlier hstate habs hlarge hmany⟩
    · have hsmall : |offset.toInt| ≤ 1000000 := by
        rw [hoffset]
        exact not_lt.mp (mt (large_iff hoffset habs).mpr hlarge)
      obtain ⟨⟨drift, passed⟩, hout⟩ := exists_servoOutput_trap hsmall hdrift
      exact ⟨_, .steer hstate habs hlarge hout⟩

/-- A sample is in range if and only if it is not off too far. -/
theorem statRun_exec_isSome_iff (hinv : StatInv x) (hguard : (statRun freq g₀ ppb₀).guard x a) :
    (∃ y, (statRun freq g₀ ppb₀).exec x a = some y) ↔ SampleFits freq x a := by
  obtain ⟨hraw, hdelay, -⟩ := hguard
  obtain ⟨offset, hsub, hoffset⟩ := exists_offset .trap hraw hdelay
  have hrange := abs_offset_le hraw hdelay
  have hchange : |a.rawNs.toInt - x.core.servo.refRaw.toInt| ≤ 2 ^ 62 := by
    have href := hinv.ref
    rw [abs_le] at *
    omega
  have hsum : |x.core.stSum.toInt| ≤ 2 ^ 61 := hinv.sum.trans (by have := hinv.few; omega)
  constructor
  · rintro ⟨y, hexec⟩
    obtain ⟨p, g, hplan, hcount, hsquare, -⟩ := statRun_exec_iff.mp hexec
    obtain ⟨offset', hsub', hexit⟩ := servoPlan_exit hplan
    cases hsub.symm.trans hsub'
    have hp := (hexit.bounds hraw hdelay hinv.drift hinv.ref).1
    have hlocked := hexit.locked_iff hoffset
    refine ⟨fun hstate hspan => (slopeDrift_iff hspan hchange).mp (hexit.slope hstate hspan),
      fun hends => ?_, fun hends => ?_⟩
    · rw [← hoffset, ← hp]
      refine (countOffset_iff (g := { x.core with servo := p.servo }) (hlocked.mpr hends) ?_ hsum).mp
        ⟨g, hcount⟩
      rw [hp, hoffset]
      exact hrange
    · have hsq := hsquare (hlocked.mpr hends)
      rwa [hp, hoffset] at hsq
  · intro hfits
    obtain ⟨p, hexit⟩ : ∃ p,
        ServoExit .trap freq a.rawNs a.delayNs a.rxCnt x.core.servo x.ppb offset p :=
      exists_exit hoffset (hrange.trans_lt (by decide)) hinv.drift fun hstate hspan =>
        (slopeDrift_iff hspan hchange).mpr (hfits.slope hstate hspan)
    have hp := (hexit.bounds hraw hdelay hinv.drift hinv.ref).1
    have hlocked := hexit.locked_iff hoffset
    have hcount : ∃ g, countOffset .trap p.offset { x.core with servo := p.servo } = some g := by
      by_cases hends : p.servo.state = .locked
      · refine (countOffset_iff (g := { x.core with servo := p.servo }) hends ?_ hsum).mpr ?_
        · rw [hp, hoffset]
          exact hrange
        · rw [hp, hoffset]
          exact hfits.square (hlocked.mp hends)
      · exact ⟨_, if_neg hends⟩
    obtain ⟨g, hg⟩ := hcount
    refine ⟨_, statRun_exec_iff.mpr ⟨p, g, servoPlan_of_exit hsub hexit, hg, fun hends => ?_, rfl⟩⟩
    rw [hp, hoffset]
    exact hfits.squares (hlocked.mp hends)

end runs

/-- **The range of the servo and of the statistics.**  After any samples that were in
    range, a sample of a bounded offset and delay is in range too, in everything that the
    servo and the statistics compute, if and only if it is not off too far. -/
theorem sample_in_range_iff (freq : UInt64) (g₀ : PtpCore) (ppb₀ : Int32) (x : StatState)
    (h : (statRun freq g₀ ppb₀).Reach x) (a : RawSample)
    (hguard : (statRun freq g₀ ppb₀).guard x a) :
    (∃ y, (statRun freq g₀ ppb₀).exec x a = some y) ↔ SampleFits freq x a :=
  statRun_exec_isSome_iff (statInv_of_reach h) hguard

/-- A counter of 54 MHz and an engine that was just initialised. -/
abbrev plainStats : Machine StatState RawSample :=
  statRun 54000000 (ptpCoreInit (Vector.replicate 6 0) 0 true) 0

/-- Once the servo is locked, an offset of 200 ns is in range and one of five seconds is not. -/
theorem sample_in_range_iff_locked :
    ∃ x, plainStats.Reach x ∧ x.core.servo.state = .locked ∧
      SampleFits 54000000 x ⟨200, 50, 162000000⟩ ∧
      ¬ SampleFits 54000000 x ⟨5000000000, 50, 162000000⟩ := by
  obtain ⟨x, hreach, hx⟩ := plainStats.exists_reach [⟨0, -1, 54000000⟩, ⟨100, 50, 108000000⟩]
    (fun x => decide (x.core.servo.state = .locked ∧
      plainStats.guard x ⟨200, 50, 162000000⟩ ∧ plainStats.guard x ⟨5000000000, 50, 162000000⟩ ∧
      (plainStats.exec x ⟨200, 50, 162000000⟩).isSome ∧
      plainStats.exec x ⟨5000000000, 50, 162000000⟩ = none)) (by decide +kernel)
  obtain ⟨hlocked, hguard, hguard', hsome, hnone⟩ := of_decide_eq_true hx
  refine ⟨x, hreach, hlocked, ?_, ?_⟩
  · obtain ⟨y, hy⟩ := Option.isSome_iff_exists.mp hsome
    exact (sample_in_range_iff 54000000 _ 0 x hreach _ hguard).mp ⟨y, hy⟩
  · intro hfits
    obtain ⟨y, hy⟩ := (sample_in_range_iff 54000000 _ 0 x hreach _ hguard').mpr hfits
    rw [hnone] at hy
    cases hy

/-- A master whose time jumps by ten seconds one second after the first sample: the
    slope overflows.  And one whose time jumps by five seconds once the servo is locked:
    the outlier is ignored by the servo, but its square overflows. -/
theorem sample_overflows :
    ∃ x x', plainStats.Reach x ∧ plainStats.guard x ⟨10000000000, -1, 108000000⟩ ∧
      servoPlan .trap 54000000 10000000000 (-1) 108000000 x.core.servo x.ppb = none ∧
      plainStats.Reach x' ∧ plainStats.guard x' ⟨5000000000, 50, 162000000⟩ ∧
      (servoPlan .trap 54000000 5000000000 50 162000000 x'.core.servo x'.ppb).isSome ∧
      sampleStats .trap 54000000 ⟨5000000000, 50, 162000000⟩ x'.core x'.ppb = none := by
  obtain ⟨x, hreach, hx⟩ := plainStats.exists_reach [⟨0, -1, 54000000⟩]
    (fun x => decide (plainStats.guard x ⟨10000000000, -1, 108000000⟩ ∧
      servoPlan .trap 54000000 10000000000 (-1) 108000000 x.core.servo x.ppb = none))
    (by decide +kernel)
  obtain ⟨x', hreach', hx'⟩ := plainStats.exists_reach [⟨0, -1, 54000000⟩, ⟨100, 50, 108000000⟩]
    (fun x' => decide (plainStats.guard x' ⟨5000000000, 50, 162000000⟩ ∧
      (servoPlan .trap 54000000 5000000000 50 162000000 x'.core.servo x'.ppb).isSome ∧
      sampleStats .trap 54000000 ⟨5000000000, 50, 162000000⟩ x'.core x'.ppb = none))
    (by decide +kernel)
  obtain ⟨hguard, hnone⟩ := of_decide_eq_true hx
  obtain ⟨hguard', hsome, hnone'⟩ := of_decide_eq_true hx'
  exact ⟨x, x', hreach, hguard, hnone, hreach', hguard', hsome, hnone'⟩

end FlintRTOS
