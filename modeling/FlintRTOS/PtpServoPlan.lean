import FlintRTOS.PtpStability

/-!
# What a sample does

`ptp_servo_sample` computes and acts at once.  Here the two are taken apart:
`servoPlan` is what the servo computes, with the arguments of the clock functions it
calls, and `ServoPlan.apply` is these calls (`ptpServoSample_eq`).  `ServoExit` lists the
exits of the function; what is proved of runs rests on them.

Over whole runs the clock is stepped on the first sample, on the one that locks the
servo and on the third outlier in a row, and on no other.
-/

namespace FlintRTOS

/-- What the servo computes from a sample, and what it passes to `ptp_clock_adjfreq` and
    to `ptp_clock_step` if it calls them. -/
structure ServoPlan where
  offset : Int64
  servo : PtpServo
  adjfreq : Option Int32
  step : Option Int64
deriving DecidableEq, Repr

section plan

variable (o : Overflow) (freq : UInt64)

/-- The drift that `PTP_SERVO_STEPPED` measures, with `ppb` in effect. -/
def slopeDrift (rawNs span : Int64) (s : PtpServo) (ppb : Int32) : Option Int64 := do
  let slope ← o.div (← o.mul (← o.sub rawNs s.refRaw) nsPerS) span
  some (clampPpb (← o.sub slope ppb.toInt64))

/-- The delay as it is used: an unknown one counts as zero. -/
def usedDelay (delayNs : Int64) : Int64 := if delayNs ≥ 0 then delayNs else 0

/-- The arithmetic of `ptp_servo_sample`; `ppb` is the frequency it reads. -/
def servoPlan (rawNs delayNs : Int64) (rxCnt : UInt64) (s : PtpServo) (ppb : Int32) :
    Option ServoPlan := do
  let d := usedDelay delayNs
  let offset ← o.sub rawNs d
  match s.state with
  | .unlocked =>
      let delta ← o.neg offset
      some ⟨offset, { s with refCnt := rxCnt, refRaw := d, state := .stepped }, none, some delta⟩
  | .stepped =>
      let span := spanNs freq s.refCnt rxCnt
      if span < nsPerS / 8 then some ⟨offset, s, none, none⟩
      else
        let drift ← slopeDrift o rawNs span s ppb
        let ppb := (clampPpb (← o.neg drift)).toInt32
        if delayNs ≥ 0 then
          let delta ← o.neg offset
          some ⟨offset, { s with
            driftPpb := drift, refCnt := rxCnt, refRaw := d, state := .locked, lastCnt := rxCnt },
            some ppb, some delta⟩
        else
          some ⟨offset, { s with driftPpb := drift, refCnt := rxCnt, refRaw := rawNs }, some ppb, none⟩
  | .locked =>
      if (← abs64 o offset) > ptpServoStepNs then
        if s.outliers + 1 ≥ ptpServoOutliers then
          let delta ← o.neg offset
          some ⟨offset, { s with outliers := 0, refCnt := rxCnt, refRaw := d, state := .stepped },
            none, some delta⟩
        else some ⟨offset, { s with outliers := s.outliers + 1 }, none, none⟩
      else
        let out ← servoOutput o freq offset rxCnt s
        some ⟨offset, { s with outliers := 0, lastCnt := rxCnt, driftPpb := out.1 }, some out.2, none⟩

/-- The calls of the clock functions. -/
def ServoPlan.apply (cnt : CntReads) (p : ServoPlan) (c : PtpClock) : Option PtpClock := do
  let c ← p.adjfreq.elim (some c) fun ppb => ptpClockAdjfreq o freq cnt.adjfreq ppb c
  p.step.elim (some c) fun delta => ptpClockStep o freq cnt.step delta c

theorem doStep_eq {cnt : CntReads} {rawNs d offset : Int64} (h : o.sub rawNs d = some offset)
    (rxCnt : UInt64) (s : PtpServo) (c : PtpClock) :
    doStep o freq cnt rawNs d rxCnt s c = (o.neg offset).bind fun delta =>
      (ptpClockStep o freq cnt.step delta c).map fun c' => ({ s with refCnt := rxCnt, refRaw := d }, c') := by
  simp only [doStep, h, Option.bind_eq_bind, Option.bind_some, Option.map_eq_bind,
    Function.comp_def]

theorem servoSlope_eq {cnt : CntReads} {rawNs d offset : Int64} (h : o.sub rawNs d = some offset)
    (delayNs : Int64) (rxCnt : UInt64) (span : Int64) (s : PtpServo) (c : PtpClock) :
    servoSlope o freq cnt rawNs delayNs d rxCnt span s c =
      (slopeDrift o rawNs span s c.ppb).bind fun drift => (o.neg drift).bind fun neg =>
        (ptpClockAdjfreq o freq cnt.adjfreq (clampPpb neg).toInt32 c).bind fun c' =>
          if delayNs ≥ 0 then (o.neg offset).bind fun delta =>
            (ptpClockStep o freq cnt.step delta c').map fun c'' =>
              ({ s with driftPpb := drift, refCnt := rxCnt, refRaw := d, state := .locked,
                        lastCnt := rxCnt }, c'')
          else some ({ s with driftPpb := drift, refCnt := rxCnt, refRaw := rawNs }, c') := by
  simp only [servoSlope, slopeDrift, doStep_eq o freq h, Option.bind_eq_bind, Option.bind_assoc,
    Option.bind_some, Option.map_eq_bind, Function.comp_def]

/-- A sample is its plan and then the calls. -/
theorem ptpServoSample_eq (cnt : CntReads) (rawNs delayNs : Int64) (rxCnt : UInt64) (s : PtpServo)
    (c : PtpClock) :
    ptpServoSample o freq cnt rawNs delayNs rxCnt s c =
      (servoPlan o freq rawNs delayNs rxCnt s c.ppb).bind fun p =>
        (p.apply o freq cnt c).map fun c' => (p.offset, p.servo, c') := by
  have hused : (if delayNs ≥ 0 then delayNs else 0) = usedDelay delayNs := rfl
  simp only [ptpServoSample, servoPlan, hused, Option.bind_eq_bind]
  cases hsub : o.sub rawNs (usedDelay delayNs) with
  | none => rfl
  | some offset =>
    simp only [Option.bind_some]
    cases hstate : s.state with
    | unlocked =>
      simp only [doStep_eq o freq hsub, ServoPlan.apply, Option.elim_none, Option.elim_some,
        Option.bind_assoc, Option.bind_some, Option.map_eq_bind, Function.comp_def,
        Option.bind_eq_bind]
    | stepped =>
      by_cases hspan : spanNs freq s.refCnt rxCnt < nsPerS / 8
      · simp [hspan, ServoPlan.apply]
      · simp only [if_neg hspan, servoSlope_eq o freq hsub, Option.bind_assoc]
        by_cases hdelay : delayNs ≥ 0
        · -- the two calls of the clock come after all that is computed
          simp only [if_pos hdelay, ServoPlan.apply, Option.elim_some, Option.bind_assoc,
            Option.bind_some, Option.map_eq_bind, Function.comp_def, Option.bind_eq_bind]
          congr 1
          funext drift
          congr 1
          funext neg
          rw [Option.bind_comm]
        · simp only [if_neg hdelay, hstate, ServoPlan.apply, Option.elim_none, Option.elim_some,
            Option.bind_assoc, Option.bind_some, Option.map_eq_bind, Function.comp_def,
            Option.bind_eq_bind]
    | locked =>
      cases habs : abs64 o offset with
      | none => rfl
      | some magnitude =>
        simp only [Option.bind_some]
        by_cases hlarge : magnitude > ptpServoStepNs
        · by_cases hjump : s.outliers + 1 ≥ ptpServoOutliers
          · simp only [if_pos hlarge, if_pos hjump, doStep_eq o freq hsub, ServoPlan.apply,
              Option.elim_none, Option.elim_some, Option.bind_assoc, Option.bind_some,
              Option.map_eq_bind, Function.comp_def, Option.bind_eq_bind]
          · simp [hlarge, hjump, ServoPlan.apply]
        · simp only [if_neg hlarge, hstate, servoSteer_eq, ServoPlan.apply, Option.elim_none,
            Option.elim_some, Option.bind_assoc, Option.bind_some, Option.map_eq_bind,
            Function.comp_def, Option.bind_eq_bind]

end plan

/-! ### The exits -/

/-- The exits of `ptp_servo_sample`, for the offset it computes. -/
inductive ServoExit (o : Overflow) (freq : UInt64) (rawNs delayNs : Int64) (rxCnt : UInt64)
    (s : PtpServo) (ppb : Int32) (offset : Int64) : ServoPlan → Prop where
  | first {delta : Int64} (hstate : s.state = .unlocked) (hdelta : o.neg offset = some delta) :
      ServoExit o freq rawNs delayNs rxCnt s ppb offset ⟨offset,
        { s with refCnt := rxCnt, refRaw := usedDelay delayNs, state := .stepped }, none, some delta⟩
  /-- Too close to the reference to measure a slope. -/
  | early (hstate : s.state = .stepped) (hspan : spanNs freq s.refCnt rxCnt < nsPerS / 8) :
      ServoExit o freq rawNs delayNs rxCnt s ppb offset ⟨offset, s, none, none⟩
  | lock {drift neg delta : Int64} (hstate : s.state = .stepped)
      (hspan : ¬ spanNs freq s.refCnt rxCnt < nsPerS / 8) (hdelay : delayNs ≥ 0)
      (hdrift : slopeDrift o rawNs (spanNs freq s.refCnt rxCnt) s ppb = some drift)
      (hneg : o.neg drift = some neg) (hdelta : o.neg offset = some delta) :
      ServoExit o freq rawNs delayNs rxCnt s ppb offset ⟨offset,
        { s with
          driftPpb := drift, refCnt := rxCnt, refRaw := usedDelay delayNs, state := .locked
          lastCnt := rxCnt }, some (clampPpb neg).toInt32, some delta⟩
  /-- The delay is not known yet. -/
  | rereference {drift neg : Int64} (hstate : s.state = .stepped)
      (hspan : ¬ spanNs freq s.refCnt rxCnt < nsPerS / 8) (hdelay : ¬ delayNs ≥ 0)
      (hdrift : slopeDrift o rawNs (spanNs freq s.refCnt rxCnt) s ppb = some drift)
      (hneg : o.neg drift = some neg) :
      ServoExit o freq rawNs delayNs rxCnt s ppb offset ⟨offset,
        { s with driftPpb := drift, refCnt := rxCnt, refRaw := rawNs },
        some (clampPpb neg).toInt32, none⟩
  | outlier {magnitude : Int64} (hstate : s.state = .locked)
      (habs : abs64 o offset = some magnitude) (hlarge : magnitude > ptpServoStepNs)
      (hfew : ¬ s.outliers + 1 ≥ ptpServoOutliers) :
      ServoExit o freq rawNs delayNs rxCnt s ppb offset
        ⟨offset, { s with outliers := s.outliers + 1 }, none, none⟩
  | jump {magnitude delta : Int64} (hstate : s.state = .locked)
      (habs : abs64 o offset = some magnitude) (hlarge : magnitude > ptpServoStepNs)
      (hmany : s.outliers + 1 ≥ ptpServoOutliers) (hdelta : o.neg offset = some delta) :
      ServoExit o freq rawNs delayNs rxCnt s ppb offset ⟨offset,
        { s with outliers := 0, refCnt := rxCnt, refRaw := usedDelay delayNs, state := .stepped },
        none, some delta⟩
  | steer {magnitude drift : Int64} {passed : Int32} (hstate : s.state = .locked)
      (habs : abs64 o offset = some magnitude) (hsmall : ¬ magnitude > ptpServoStepNs)
      (hout : servoOutput o freq offset rxCnt s = some (drift, passed)) :
      ServoExit o freq rawNs delayNs rxCnt s ppb offset
        ⟨offset, { s with outliers := 0, lastCnt := rxCnt, driftPpb := drift }, some passed, none⟩

variable {rawNs : Int64} {rxCnt : UInt64} {s : PtpServo} {ppb : Int32} {p : ServoPlan}

/-- There are no other exits. -/
theorem servoPlan_exit {o : Overflow} {freq : UInt64} {delayNs : Int64}
    (h : servoPlan o freq rawNs delayNs rxCnt s ppb = some p) :
    ∃ offset, o.sub rawNs (usedDelay delayNs) = some offset ∧
      ServoExit o freq rawNs delayNs rxCnt s ppb offset p := by
  simp only [servoPlan, Option.bind_eq_bind, Option.bind_eq_some_iff] at h
  obtain ⟨offset, hoffset, h⟩ := h
  refine ⟨offset, hoffset, ?_⟩
  cases hstate : s.state with
  | unlocked =>
    simp only [hstate, Option.bind_eq_some_iff] at h
    obtain ⟨delta, hdelta, heq⟩ := h
    cases heq
    exact .first hstate hdelta
  | stepped =>
    simp only [hstate] at h
    by_cases hspan : spanNs freq s.refCnt rxCnt < nsPerS / 8
    · rw [if_pos hspan] at h
      cases h
      exact .early hstate hspan
    simp only [if_neg hspan, Option.bind_eq_some_iff] at h
    obtain ⟨drift, hdrift, neg, hneg, h⟩ := h
    by_cases hdelay : delayNs ≥ 0
    · simp only [if_pos hdelay, Option.bind_eq_some_iff] at h
      obtain ⟨delta, hdelta, heq⟩ := h
      cases heq
      exact .lock hstate hspan hdelay hdrift hneg hdelta
    · rw [if_neg hdelay] at h
      cases h
      rw [← hstate]
      exact .rereference hstate hspan hdelay hdrift hneg
  | locked =>
    simp only [hstate, Option.bind_eq_some_iff] at h
    obtain ⟨magnitude, habs, h⟩ := h
    by_cases hlarge : magnitude > ptpServoStepNs
    · rw [if_pos hlarge] at h
      by_cases hmany : s.outliers + 1 ≥ ptpServoOutliers
      · simp only [if_pos hmany, Option.bind_eq_some_iff] at h
        obtain ⟨delta, hdelta, heq⟩ := h
        cases heq
        exact .jump hstate habs hlarge hmany hdelta
      · rw [if_neg hmany] at h
        cases h
        rw [← hstate]
        exact .outlier hstate habs hlarge hmany
    · simp only [if_neg hlarge, Option.bind_eq_some_iff] at h
      obtain ⟨⟨drift, passed⟩, hout, heq⟩ := h
      cases heq
      rw [← hstate]
      exact .steer hstate habs hlarge hout

/-- Each of them is taken. -/
theorem servoPlan_of_exit {o : Overflow} {freq : UInt64} {delayNs : Int64} {offset : Int64}
    (hoffset : o.sub rawNs (usedDelay delayNs) = some offset)
    (h : ServoExit o freq rawNs delayNs rxCnt s ppb offset p) :
    servoPlan o freq rawNs delayNs rxCnt s ppb = some p := by
  simp only [servoPlan, hoffset, Option.bind_eq_bind, Option.bind_some]
  cases h with
  | first hstate hdelta => simp [hstate, hdelta]
  | early hstate hspan => simp [hstate, hspan]
  | lock hstate hspan hdelay hdrift hneg hdelta =>
    simp [hstate, hspan, hdelay, hdrift, hneg, hdelta]
  | rereference hstate hspan hdelay hdrift hneg =>
    simp [hstate, hspan, hdelay, hdrift, hneg]
  | outlier hstate habs hlarge hfew => simp [hstate, habs, hlarge, hfew]
  | jump hstate habs hlarge hmany hdelta => simp [hstate, habs, hlarge, hmany, hdelta]
  | steer hstate habs hsmall hout => simp [hstate, habs, hsmall, hout]

/-! ### Spans and offsets as numbers -/

/-- Nanoseconds from one counter value to another. -/
def elapsedNs (freq start stop : UInt64) : Nat := (stop - start).toNat * 1000000000 / freq.toNat

/-- Close enough that `span_ns` does not wrap. -/
def SpanFits (freq start stop : UInt64) : Prop :=
  freq = 0 ∨
    ((stop - start).toNat % freq.toNat * 1000000000 < 2 ^ 64 ∧ elapsedNs freq start stop < 2 ^ 63)

instance (freq start stop : UInt64) : Decidable (SpanFits freq start stop) :=
  inferInstanceAs (Decidable (_ ∨ _))

/-- Quotient and remainder are converted apart and added. -/
theorem mul_div_split (dt m : Nat) {f : Nat} (hf : 0 < f) :
    dt * m / f = dt / f * m + dt % f * m / f := by
  have hnum : dt * m = dt % f * m + f * (dt / f * m) := by
    calc dt * m = (f * (dt / f) + dt % f) * m := by rw [Nat.div_add_mod]
      _ = dt % f * m + f * (dt / f * m) := by ring
  rw [hnum, Nat.add_mul_div_left _ _ hf, Nat.add_comm]

theorem toInt_spanNs {freq start stop : UInt64} (h : SpanFits freq start stop) :
    (spanNs freq start stop).toInt = elapsedNs freq start stop := by
  by_cases hfreq : freq = 0
  · simp [spanNs, elapsedNs, hfreq]
  obtain ⟨hrem, hspan⟩ := h.resolve_left hfreq
  have hpos : 0 < freq.toNat := by
    rcases Nat.eq_zero_or_pos freq.toNat with hzero | hpos
    · exact absurd (UInt64.toNat_inj.mp hzero) hfreq
    · exact hpos
  have hlt : elapsedNs freq start stop < 2 ^ 64 := hspan.trans (by decide)
  have hsplit : elapsedNs freq start stop = _ := mul_div_split _ 1000000000 hpos
  have hwhole : ((stop - start) / freq * 1000000000).toNat =
      (stop - start).toNat / freq.toNat * 1000000000 := by
    rw [UInt64.toNat_mul, UInt64.toNat_div]
    refine Nat.mod_eq_of_lt (Nat.lt_of_le_of_lt ?_ hlt)
    rw [hsplit]
    exact Nat.le_add_right _ _
  have hpart : ((stop - start) % freq * 1000000000 / freq).toNat =
      (stop - start).toNat % freq.toNat * 1000000000 / freq.toNat := by
    rw [UInt64.toNat_div, UInt64.toNat_mul, UInt64.toNat_mod]
    exact congrArg (· / freq.toNat) (Nat.mod_eq_of_lt hrem)
  have hsum : ((stop - start) / freq * 1000000000 +
      (stop - start) % freq * 1000000000 / freq).toNat = elapsedNs freq start stop := by
    rw [UInt64.toNat_add, hwhole, hpart, ← hsplit, Nat.mod_eq_of_lt hlt]
  simp only [spanNs, if_neg hfreq]
  rw [Overflow.toInt_toInt64 (by rw [hsum]; exact hspan), hsum]

theorem toInt_usedDelay (delayNs : Int64) : (usedDelay delayNs).toInt = max delayNs.toInt 0 := by
  have hzero : (0 : Int64).toInt = 0 := rfl
  unfold usedDelay
  simp only [ge_iff_le, Int64.le_iff_toInt_le, hzero]
  split
  · rw [max_eq_left (by assumption)]
  · rw [max_eq_right (by omega)]
    rfl

theorem trap_abs64 {v r : Int64} (h : abs64 .trap v = some r) : r.toInt = |v.toInt| := by
  have hzero : (0 : Int64).toInt = 0 := rfl
  unfold abs64 at h
  simp only [Int64.lt_iff_toInt_lt, hzero] at h
  split at h
  · rename_i hneg
    rw [Overflow.trap_to64 h, abs_of_neg hneg]
  · rename_i hpos
    cases h
    rw [abs_of_nonneg (not_lt.mp hpos)]

theorem abs_clampPpb_le (v : Int64) : |(clampPpb v).toInt| ≤ 500000 := by
  have hmax : (500000 : Int64).toInt = 500000 := rfl
  have hmin : (-500000 : Int64).toInt = -500000 := rfl
  rw [abs_le]
  unfold clampPpb
  simp only [gt_iff_lt, Int64.lt_iff_toInt_lt]
  split
  · omega
  · split <;> omega

/-! ### Runs -/

/-- A sample as `sync_complete` passes it on. -/
structure RawSample where
  rawNs : Int64
  delayNs : Int64
  rxCnt : UInt64
deriving DecidableEq, Repr

/-- The offset, as a number. -/
def RawSample.offset (a : RawSample) : Int := a.rawNs.toInt - max a.delayNs.toInt 0

/-- A sample with what the clock functions read. -/
structure ServoSample extends RawSample where
  cnt : CntReads
deriving DecidableEq, Repr

structure ServoClock where
  servo : PtpServo
  clock : PtpClock
deriving DecidableEq, Repr

/-- Any samples, from a servo that was initialised and from any clock, as long as
    nothing overflows: overflow traps, and a span that decides on a slope does not
    wrap. -/
def servoRun (freq : UInt64) (c₀ : PtpClock) : Machine ServoClock ServoSample where
  init := ⟨ptpServoInit, c₀⟩
  guard x a := x.servo.state = .stepped → SpanFits freq x.servo.refCnt a.rxCnt
  exec x a :=
    (ptpServoSample .trap freq a.cnt a.rawNs a.delayNs a.rxCnt x.servo x.clock).map fun r =>
      ⟨r.2.1, r.2.2⟩

instance (freq : UInt64) (c₀ : PtpClock) (x : ServoClock) (a : ServoSample) :
    Decidable ((servoRun freq c₀).guard x a) :=
  inferInstanceAs (Decidable (_ → _))

/-- A sample in the past: the state it was taken in, and its offset. -/
structure SampleRecord where
  state : PtpServoState
  offset : Int
deriving DecidableEq, Repr

def SampleRecord.isOutlier (r : SampleRecord) : Bool :=
  decide (r.state = .locked ∧ 1000000 < |r.offset|)

/-- How many samples in a row, up to the latest, were outliers of a locked servo. -/
def outlierStreak (past : List SampleRecord) : Nat :=
  (past.takeWhile SampleRecord.isOutlier).length

/-- The samples with their past, newest first. -/
def servoHistory (freq : UInt64) (c₀ : PtpClock) :
    Machine (ServoClock × List SampleRecord) ServoSample :=
  (servoRun freq c₀).ghost [] fun past x a => ⟨x.servo.state, a.offset⟩ :: past

instance (freq : UInt64) (c₀ : PtpClock) (x : ServoClock × List SampleRecord) (a : ServoSample) :
    Decidable ((servoHistory freq c₀).guard x a) :=
  inferInstanceAs (Decidable (_ → _))

theorem outlierStreak_cons (r : SampleRecord) (past : List SampleRecord) :
    outlierStreak (r :: past) = if r.isOutlier then outlierStreak past + 1 else 0 := by
  unfold outlierStreak
  cases h : r.isOutlier <;> simp [h]

theorem ServoPlan.apply_spec {o : Overflow} {freq : UInt64} {cnt : CntReads} {c c' : PtpClock}
    (h : p.apply o freq cnt c = some c') :
    (c'.epoch = if p.step.isSome then c.epoch + 1 else c.epoch) ∧
      c'.ppb = p.adjfreq.elim c.ppb clampFreq ∧
      (p.adjfreq = none → p.step = none → c' = c) := by
  obtain ⟨c₁, hadj, hstep⟩ := Option.bind_eq_some_iff.mp h
  have hc₁ : c₁.epoch = c.epoch ∧ c₁.ppb = p.adjfreq.elim c.ppb clampFreq ∧
      (p.adjfreq = none → c₁ = c) := by
    cases hplan : p.adjfreq with
    | none =>
      rw [hplan] at hadj
      cases hadj
      exact ⟨rfl, rfl, fun _ => rfl⟩
    | some ppb =>
      rw [hplan] at hadj
      obtain ⟨ns, -, rfl⟩ := ptpClockAdjfreq_spec hadj
      exact ⟨rfl, rfl, fun hnone => by cases hnone⟩
  obtain ⟨hepoch, hppb, hsame⟩ := hc₁
  cases hplan : p.step with
  | none =>
    rw [hplan] at hstep
    cases hstep
    exact ⟨hepoch, hppb, fun hnone _ => hsame hnone⟩
  | some delta =>
    rw [hplan] at hstep
    obtain ⟨ns, ns', -, -, rfl⟩ := ptpClockStep_spec hstep
    refine ⟨?_, hppb, fun _ hnone => by cases hnone⟩
    rw [← hepoch]
    rfl

/-- A step of a run is one of the exits, and then the calls. -/
theorem servoRun_step {freq : UInt64} {c₀ : PtpClock} {x y : ServoClock} {a : ServoSample}
    (h : (servoRun freq c₀).Step x a y) :
    ∃ p offset, offset.toInt = a.offset ∧ y.servo = p.servo ∧
      ServoExit .trap freq a.rawNs a.delayNs a.rxCnt x.servo x.clock.ppb offset p ∧
      p.apply .trap freq a.cnt x.clock = some y.clock := by
  obtain ⟨_, hexec⟩ := h
  obtain ⟨r, hr, rfl⟩ := Option.map_eq_some_iff.mp hexec
  rw [ptpServoSample_eq] at hr
  obtain ⟨p, hplan, hr⟩ := Option.bind_eq_some_iff.mp hr
  obtain ⟨c', hc', rfl⟩ := Option.map_eq_some_iff.mp hr
  obtain ⟨offset, hoffset, hexit⟩ := servoPlan_exit hplan
  refine ⟨p, offset, ?_, rfl, hexit, hc'⟩
  rw [Overflow.trap_to64 hoffset, toInt_usedDelay]
  rfl

/-- What runs keep.  The counter of outliers counts the streak while the servo is
    locked and is zero otherwise. -/
structure ServoInv (c₀ : PtpClock) (x : ServoClock) (past : List SampleRecord) : Prop where
  drift : |x.servo.driftPpb.toInt| ≤ 500000
  ppb : |c₀.ppb.toInt| ≤ 500000 → |x.clock.ppb.toInt| ≤ 500000
  count : x.servo.outliers.toNat = if x.servo.state = .locked then outlierStreak past else 0
  few : x.servo.outliers.toNat < 3

theorem isOutlier_iff {state : PtpServoState} {offset : Int} :
    SampleRecord.isOutlier ⟨state, offset⟩ = true ↔ state = .locked ∧ 1000000 < |offset| :=
  decide_eq_true_iff

theorem slopeDrift_bound {o : Overflow} {span drift : Int64}
    (h : slopeDrift o rawNs span s ppb = some drift) : |drift.toInt| ≤ 500000 := by
  simp only [slopeDrift, Option.bind_eq_bind, Option.bind_eq_some_iff] at h
  obtain ⟨_, _, _, _, _, _, _, _, heq⟩ := h
  cases heq
  exact abs_clampPpb_le _

theorem servoOutput_bound {o : Overflow} {freq : UInt64} {offset drift : Int64}
    (h : servoOutput o freq offset rxCnt s = some (drift, ppb)) : |drift.toInt| ≤ 500000 := by
  simp only [servoOutput, Option.bind_eq_bind, Option.bind_eq_some_iff] at h
  obtain ⟨_, _, _, _, _, _, _, _, _, _, _, _, _, _, _, _, _, _, _, _, _, _, heq⟩ := h
  cases heq
  exact abs_clampPpb_le _

section step

variable {freq : UInt64} {c₀ : PtpClock} {x y : ServoClock} {past : List SampleRecord}
  {a : ServoSample}

theorem large_iff {offset magnitude : Int64} {z : Int} (hoffset : offset.toInt = z)
    (habs : abs64 .trap offset = some magnitude) :
    magnitude > ptpServoStepNs ↔ 1000000 < |z| := by
  rw [gt_iff_lt, Int64.lt_iff_toInt_lt, trap_abs64 habs, hoffset]
  exact Iff.rfl

theorem many_iff {n : UInt32} (hfew : n.toNat < 3) : n + 1 ≥ ptpServoOutliers ↔ n.toNat = 2 := by
  have hlimit : ptpServoOutliers.toNat = 3 := rfl
  have hone : (1 : UInt32).toNat = 1 := rfl
  rw [ge_iff_le, UInt32.le_iff_toNat_le, UInt32.toNat_add, hlimit, hone]
  omega

theorem servoInv_step (hinv : ServoInv c₀ x past) (h : (servoRun freq c₀).Step x a y) :
    ServoInv c₀ y (⟨x.servo.state, a.offset⟩ :: past) := by
  obtain ⟨p, offset, hoffset, hservo, hexit, happly⟩ := servoRun_step h
  obtain ⟨servo, clock⟩ := y
  obtain rfl : servo = p.servo := hservo
  have hppb : |c₀.ppb.toInt| ≤ 500000 → |clock.ppb.toInt| ≤ 500000 := by
    obtain ⟨-, heq, -⟩ := ServoPlan.apply_spec happly
    rw [heq]
    cases p.adjfreq with
    | none => exact hinv.ppb
    | some ppb => exact fun _ => abs_clampFreq_le ppb
  have hcons := outlierStreak_cons ⟨x.servo.state, a.offset⟩ past
  simp only [isOutlier_iff] at hcons
  have hcount := hinv.count
  cases hexit with
  | first hstate =>
    rw [hstate] at hcount
    exact ⟨hinv.drift, hppb, hcount, hinv.few⟩
  | early hstate =>
    rw [hstate] at hcount
    refine ⟨hinv.drift, hppb, ?_, hinv.few⟩
    change x.servo.outliers.toNat = if x.servo.state = .locked then _ else 0
    rw [hcount, hstate]
    rfl
  | lock hstate _ _ hdrift =>
    rw [hstate] at hcount
    refine ⟨slopeDrift_bound hdrift, hppb, ?_, hinv.few⟩
    change x.servo.outliers.toNat = outlierStreak _
    rw [hcount, hcons, hstate]
    rfl
  | rereference hstate _ _ hdrift =>
    rw [hstate] at hcount
    refine ⟨slopeDrift_bound hdrift, hppb, ?_, hinv.few⟩
    change x.servo.outliers.toNat = if x.servo.state = .locked then _ else 0
    rw [hcount, hstate]
    rfl
  | outlier hstate habs hlarge hfew =>
    have hlarge' := (large_iff hoffset habs).mp hlarge
    have hne := mt (many_iff hinv.few).mpr hfew
    have hlt := hinv.few
    have hnext : (x.servo.outliers + 1).toNat = x.servo.outliers.toNat + 1 := by
      have hone : (1 : UInt32).toNat = 1 := rfl
      rw [UInt32.toNat_add, hone]
      omega
    rw [if_pos hstate] at hcount
    refine ⟨hinv.drift, hppb, ?_, ?_⟩
    · change (x.servo.outliers + 1).toNat = if x.servo.state = .locked then _ else 0
      rw [hnext, if_pos hstate, hcons, if_pos ⟨hstate, hlarge'⟩, hcount]
    · change (x.servo.outliers + 1).toNat < 3
      omega
  | jump => exact ⟨hinv.drift, hppb, rfl, Nat.zero_lt_succ 2⟩
  | steer hstate habs hsmall hout =>
    have hsmall' := mt (large_iff hoffset habs).mpr hsmall
    refine ⟨servoOutput_bound hout, hppb, ?_, Nat.zero_lt_succ 2⟩
    change 0 = if x.servo.state = .locked then _ else 0
    rw [if_pos hstate, hcons, if_neg (fun hboth => hsmall' hboth.2)]

theorem servoInv_init (c₀ : PtpClock) : ServoInv c₀ ⟨ptpServoInit, c₀⟩ [] where
  drift := by simp [ptpServoInit]
  ppb := id
  count := by simp [ptpServoInit]
  few := by simp [ptpServoInit]

theorem servoInv_of_reach (h : (servoHistory freq c₀).Reach (x, past)) : ServoInv c₀ x past := by
  refine h.invariant (P := fun z => ServoInv c₀ z.1 z.2) (servoInv_init c₀) ?_
  rintro ⟨x, past⟩ a ⟨y, past'⟩ _ hinv hst
  obtain ⟨hstep, rfl⟩ := Machine.ghost_step.mp hst
  exact servoInv_step hinv hstep

/-- The samples to step the clock on: the first, one that measures the frequency with
    the path delay known, and the third outlier in a row. -/
def StepsClock (freq : UInt64) (x : ServoClock) (past : List SampleRecord) (a : ServoSample) :
    Prop :=
  x.servo.state = .unlocked ∨
  (x.servo.state = .stepped ∧ 1000000000 / 8 ≤ elapsedNs freq x.servo.refCnt a.rxCnt ∧
    0 ≤ a.delayNs.toInt) ∨
  (x.servo.state = .locked ∧ 1000000 < |a.offset| ∧ outlierStreak past = 2)

theorem span_iff (h : (servoRun freq c₀).guard x a) (hstate : x.servo.state = .stepped) :
    spanNs freq x.servo.refCnt a.rxCnt < nsPerS / 8 ↔
      ¬ 1000000000 / 8 ≤ elapsedNs freq x.servo.refCnt a.rxCnt := by
  have heighth : (nsPerS / 8).toInt = 125000000 := rfl
  rw [Int64.lt_iff_toInt_lt, toInt_spanNs (h hstate), heighth]
  omega

/-- Whether a sample steps the clock, and the state it leaves. -/
theorem servo_step_epoch (hinv : ServoInv c₀ x past) (h : (servoRun freq c₀).Step x a y) :
    (StepsClock freq x past a → y.clock.epoch = x.clock.epoch + 1 ∧
      y.servo.state = if x.servo.state = .stepped then .locked else .stepped) ∧
    (¬ StepsClock freq x past a →
      y.clock.epoch = x.clock.epoch ∧ y.servo.state = x.servo.state) := by
  obtain ⟨p, offset, hoffset, hservo, hexit, happly⟩ := servoRun_step h
  obtain ⟨hepoch, -, -⟩ := ServoPlan.apply_spec happly
  rw [hservo, hepoch]
  have hdelay : a.delayNs ≥ 0 ↔ 0 ≤ a.delayNs.toInt := Int64.le_iff_toInt_le
  have hcount := hinv.count
  cases hexit with
  | first hstate =>
    refine ⟨fun _ => ⟨rfl, ?_⟩, fun hnot => absurd (Or.inl hstate) hnot⟩
    rw [hstate]
    rfl
  | early hstate hspan =>
    have hclose := (span_iff h.1 hstate).mp hspan
    refine ⟨fun hsteps => ?_, fun _ => ⟨rfl, rfl⟩⟩
    simp only [StepsClock, hstate, hclose, reduceCtorEq, false_and, and_false, or_self] at hsteps
  | lock hstate hspan hpos =>
    have hfar := not_not.mp (mt (span_iff h.1 hstate).mpr hspan)
    refine ⟨fun _ => ⟨rfl, by rw [if_pos hstate]⟩, fun hnot => ?_⟩
    exact absurd (Or.inr (Or.inl ⟨hstate, hfar, hdelay.mp hpos⟩)) hnot
  | rereference hstate _ hneg =>
    have hneg' := mt hdelay.mpr hneg
    refine ⟨fun hsteps => ?_, fun _ => ⟨rfl, rfl⟩⟩
    simp only [StepsClock, hstate, hneg', reduceCtorEq, false_and, and_false, or_self] at hsteps
  | outlier hstate habs hlarge hfew =>
    rw [if_pos hstate] at hcount
    have hne : outlierStreak past ≠ 2 := hcount ▸ mt (many_iff hinv.few).mpr hfew
    refine ⟨fun hsteps => ?_, fun _ => ⟨rfl, rfl⟩⟩
    simp only [StepsClock, hstate, hne, reduceCtorEq, false_and, and_false, or_self] at hsteps
  | jump hstate habs hlarge hmany =>
    rw [if_pos hstate] at hcount
    have htwo : outlierStreak past = 2 := hcount ▸ (many_iff hinv.few).mp hmany
    have hlarge' := (large_iff hoffset habs).mp hlarge
    refine ⟨fun _ => ⟨rfl, by rw [hstate]; rfl⟩, fun hnot => ?_⟩
    exact absurd (Or.inr (Or.inr ⟨hstate, hlarge', htwo⟩)) hnot
  | steer hstate habs hsmall =>
    have hsmall' := mt (large_iff hoffset habs).mpr hsmall
    refine ⟨fun hsteps => ?_, fun _ => ⟨rfl, rfl⟩⟩
    simp only [StepsClock, hstate, hsmall', reduceCtorEq, false_and, and_false, or_self] at hsteps

/-- The first and the second outlier in a row change only the counter. -/
theorem servo_step_outlier (hinv : ServoInv c₀ x past) (h : (servoRun freq c₀).Step x a y)
    (hstate : x.servo.state = .locked) (hlarge : 1000000 < |a.offset|)
    (hfew : outlierStreak past < 2) :
    y.clock = x.clock ∧ y.servo = { x.servo with outliers := x.servo.outliers + 1 } := by
  obtain ⟨p, offset, hoffset, hservo, hexit, happly⟩ := servoRun_step h
  obtain ⟨-, -, hsame⟩ := ServoPlan.apply_spec happly
  have hcount := hinv.count
  rw [if_pos hstate] at hcount
  cases hexit with
  | first hother => rw [hstate] at hother; cases hother
  | early hother => rw [hstate] at hother; cases hother
  | lock hother => rw [hstate] at hother; cases hother
  | rereference hother => rw [hstate] at hother; cases hother
  | outlier => exact ⟨hsame rfl rfl, hservo⟩
  | jump _ _ _ hmany =>
    have htwo := (many_iff hinv.few).mp hmany
    omega
  | steer _ habs hsmall => exact absurd ((large_iff hoffset habs).mpr hlarge) hsmall

end step

/-- **The servo's states over any samples** since it was initialised, as long as nothing
    overflows.  The drift stays within the limit, and so does the clock's frequency if it
    was.  A sample calls `ptp_clock_step`, which alone counts the epoch up, if and only if
    it is taken unlocked; or stepped, an eighth of a second or more after the reference
    and with a delay, which locks the servo; or is the third outlier in a row of a locked
    servo, which is stepped again.  The first two of such outliers leave the drift, the
    reference of the integral and the clock as they are. -/
theorem servo_steps_clock_exactly (freq : UInt64) (c₀ : PtpClock) (x : ServoClock)
    (past : List SampleRecord) (h : (servoHistory freq c₀).Reach (x, past)) :
    |x.servo.driftPpb.toInt| ≤ 500000 ∧
    (|c₀.ppb.toInt| ≤ 500000 → |x.clock.ppb.toInt| ≤ 500000) ∧
    ∀ a y, (servoHistory freq c₀).Step (x, past) a y →
      (StepsClock freq x past a → y.1.clock.epoch = x.clock.epoch + 1 ∧
        y.1.servo.state = if x.servo.state = .stepped then .locked else .stepped) ∧
      (¬ StepsClock freq x past a →
        y.1.clock.epoch = x.clock.epoch ∧ y.1.servo.state = x.servo.state) ∧
      (x.servo.state = .locked → 1000000 < |a.offset| → outlierStreak past < 2 →
        y.1.servo.driftPpb = x.servo.driftPpb ∧ y.1.servo.lastCnt = x.servo.lastCnt ∧
          y.1.clock = x.clock) := by
  have hinv := servoInv_of_reach h
  refine ⟨hinv.drift, hinv.ppb, fun a y hst => ?_⟩
  have hstep := (Machine.ghost_step.mp hst).1
  obtain ⟨hsteps, hrests⟩ := servo_step_epoch hinv hstep
  refine ⟨hsteps, hrests, fun hstate hlarge hfew => ?_⟩
  obtain ⟨hclock, hservo⟩ := servo_step_outlier hinv hstep hstate hlarge hfew
  rw [hservo]
  exact ⟨rfl, rfl, hclock⟩

/-- A sample of a counter of 54 MHz, `n` seconds after its start. -/
def plainSample (n : Nat) (rawNs delayNs : Int64) : ServoSample :=
  let cnt := UInt64.ofNat (54000000 * n)
  ⟨⟨rawNs, delayNs, cnt⟩, ⟨cnt, cnt, cnt⟩⟩

/-- After a first sample, one that locks and two outliers, a third outlier steps the
    clock. -/
theorem servo_steps_clock_exactly_jump :
    ∃ x past y, (servoHistory 54000000 ⟨0, 0, 0, 0⟩).Reach (x, past) ∧
      (servoHistory 54000000 ⟨0, 0, 0, 0⟩).Step (x, past) (plainSample 5 2000000 50) y ∧
      x.servo.state = .locked ∧ outlierStreak past = 2 ∧
      y.1.clock.epoch = x.clock.epoch + 1 ∧ y.1.servo.state = .stepped := by
  obtain ⟨⟨x, past⟩, hreach, hx⟩ := (servoHistory 54000000 ⟨0, 0, 0, 0⟩).exists_reach
    [plainSample 1 5000 (-1), plainSample 2 100 50, plainSample 3 2000000 50,
      plainSample 4 2000000 50]
    (fun z => decide (z.1.servo.state = .locked ∧ outlierStreak z.2 = 2) &&
      ((servoHistory 54000000 ⟨0, 0, 0, 0⟩).exec z (plainSample 5 2000000 50)).isSome)
    (by decide +kernel)
  obtain ⟨hbefore, hsome⟩ := Bool.and_eq_true_iff.mp hx
  obtain ⟨hstate, hstreak⟩ := of_decide_eq_true hbefore
  obtain ⟨y, hy⟩ := Option.isSome_iff_exists.mp hsome
  have hguard : (servoHistory 54000000 ⟨0, 0, 0, 0⟩).guard (x, past) (plainSample 5 2000000 50) := by
    intro hstepped
    exact absurd (hstate.symm.trans hstepped) (by decide)
  obtain ⟨-, -, hall⟩ := servo_steps_clock_exactly 54000000 ⟨0, 0, 0, 0⟩ x past hreach
  obtain ⟨hsteps, -, -⟩ := hall _ y ⟨hguard, hy⟩
  obtain ⟨hepoch, hnext⟩ := hsteps (Or.inr (Or.inr ⟨hstate, by decide, hstreak⟩))
  have hstate' : x.servo.state = .locked := hstate
  rw [hstate'] at hnext
  exact ⟨x, past, y, hreach, ⟨hguard, hy⟩, hstate, hstreak, hepoch, hnext⟩

end FlintRTOS
