import FlintRTOS.PtpClock

/-!
# The clock servo

`ptp_servo.c`: an integer PI controller that steps the clock onto the master and
then steers its frequency.  It changes the clock itself, so its functions take and
return the clock with the servo.
-/

namespace FlintRTOS

def ptpServoStepNs : Int64 := 1000000

def ptpServoOutliers : UInt32 := 3

inductive PtpServoState where
  | unlocked
  | stepped
  | locked
deriving DecidableEq, Repr

structure PtpServo where
  state : PtpServoState
  driftPpb : Int64
  refCnt : UInt64
  refRaw : Int64
  lastCnt : UInt64
  outliers : UInt32
deriving DecidableEq, Repr

/-- The counter values read while one message is handled: by `ptp_clock_adjfreq`,
    by `ptp_clock_step` and for the report. -/
structure CntReads where
  adjfreq : UInt64
  step : UInt64
  report : UInt64
deriving DecidableEq, Repr

def ptpServoInit : PtpServo := ⟨.unlocked, 0, 0, 0, 0, 0⟩

section

variable (o : Overflow) (freq : UInt64)

def abs64 (v : Int64) : Option Int64 := if v < 0 then o.neg v else some v

def clampPpb (v : Int64) : Int64 :=
  if v > 500000 then 500000 else if v < -500000 then -500000 else v

/-- Unsigned, so it wraps. -/
def spanNs (start stop : UInt64) : Int64 :=
  let dt := stop - start
  if freq = 0 then 0
  else (dt / freq * 1000000000 + dt % freq * 1000000000 / freq).toInt64

def doStep (cnt : CntReads) (rawNs d : Int64) (rxCnt : UInt64) (s : PtpServo) (c : PtpClock) :
    Option (PtpServo × PtpClock) := do
  let offset ← o.sub rawNs d
  let c ← ptpClockStep o freq cnt.step (← o.neg offset) c
  some ({ s with refCnt := rxCnt, refRaw := d }, c)

/-- The branch of `PTP_SERVO_STEPPED` after enough time for a slope. -/
def servoSlope (cnt : CntReads) (rawNs delayNs d : Int64) (rxCnt : UInt64) (span : Int64)
    (s : PtpServo) (c : PtpClock) : Option (PtpServo × PtpClock) := do
  let slope ← o.div (← o.mul (← o.sub rawNs s.refRaw) nsPerS) span
  let drift := clampPpb (← o.sub slope c.ppb.toInt64)
  let s := { s with driftPpb := drift }
  let c ← ptpClockAdjfreq o freq cnt.adjfreq (clampPpb (← o.neg drift)).toInt32 c
  if delayNs ≥ 0 then
    let (s, c) ← doStep o freq cnt rawNs d rxCnt s c
    some ({ s with state := .locked, lastCnt := rxCnt }, c)
  else some ({ s with refCnt := rxCnt, refRaw := rawNs }, c)

/-- The branch of `PTP_SERVO_LOCKED` for an offset within the limit. -/
def servoSteer (cnt : CntReads) (offset : Int64) (rxCnt : UInt64) (s : PtpServo) (c : PtpClock) :
    Option (PtpServo × PtpClock) := do
  let span := spanNs freq s.lastCnt rxCnt
  let span := if span ≤ 0 ∨ span > 8000000000 then nsPerS else span
  let p ← o.div (← o.mul (← o.mul offset 3) nsPerS) (← o.mul 10 span)
  let i ← o.div (← o.mul (← o.mul offset 1) nsPerS) (← o.mul 20 span)
  let drift := clampPpb (← o.add s.driftPpb i)
  let c ← ptpClockAdjfreq o freq cnt.adjfreq (clampPpb (← o.neg (← o.add drift p))).toInt32 c
  some ({ s with outliers := 0, lastCnt := rxCnt, driftPpb := drift }, c)

/-- Returns the offset with the servo and the clock. -/
def ptpServoSample (cnt : CntReads) (rawNs delayNs : Int64) (rxCnt : UInt64) (s : PtpServo)
    (c : PtpClock) : Option (Int64 × PtpServo × PtpClock) := do
  let d := if delayNs ≥ 0 then delayNs else 0
  let offset ← o.sub rawNs d
  match s.state with
  | .unlocked =>
      let (s, c) ← doStep o freq cnt rawNs d rxCnt s c
      some (offset, { s with state := .stepped }, c)
  | .stepped =>
      let span := spanNs freq s.refCnt rxCnt
      if span < nsPerS / 8 then some (offset, s, c)
      else
        let (s, c) ← servoSlope o freq cnt rawNs delayNs d rxCnt span s c
        some (offset, s, c)
  | .locked =>
      if (← abs64 o offset) > ptpServoStepNs then
        let s := { s with outliers := s.outliers + 1 }
        if s.outliers ≥ ptpServoOutliers then
          let (s, c) ← doStep o freq cnt rawNs d rxCnt { s with outliers := 0 } c
          some (offset, { s with state := .stepped }, c)
        else some (offset, s, c)
      else
        let (s, c) ← servoSteer o freq cnt offset rxCnt s c
        some (offset, s, c)

end

/-- The magnitude of anything but the least number of the type. -/
theorem exists_abs64 (o : Overflow) {v : Int64} (h : |v.toInt| < 2 ^ 63) :
    ∃ r : Int64, abs64 o v = some r ∧ r.toInt = |v.toInt| := by
  have hzero : (0 : Int64).toInt = 0 := rfl
  unfold abs64
  simp only [Int64.lt_iff_toInt_lt, hzero]
  split
  · rename_i hneg
    rw [abs_of_neg hneg]
    exact o.exists_neg h
  · rename_i hpos
    exact ⟨v, rfl, (abs_of_nonneg (not_lt.mp hpos)).symm⟩

end FlintRTOS
