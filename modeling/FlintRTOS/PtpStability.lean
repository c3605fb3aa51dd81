import FlintRTOS.PtpServo
import Mathlib.Tactic.Linarith
import Mathlib.Tactic.NormNum
import Mathlib.Tactic.Positivity

/-!
# The locked servo is stable

With one sample a second the locked servo closes a loop: on the offset `x` it sets
the frequency `-(drift + p)`, where `drift` has just grown by `i`, and the clock,
which drifts by `delta` on its own, carries the offset to the next sample.  In
`x` and `e = delta - drift` one round is the linear map

  `20 x' = 13 x + 20 e`,  `20 e' = 20 e - x`

up to the remainders of the two truncating divisions.  The map scales the
quadratic form `energy` by 7/10, so with the remainders the energy contracts by
21/25 a round down to a small constant.  Everything that is claimed of the
offset, of the drift and of the frequency is read off the energy.
-/

namespace FlintRTOS

/-! ### The energy -/

def energy (x e : Int) : Int := x ^ 2 - 7 * x * e + 20 * e ^ 2

section energy

variable (x e y d : Int)

theorem sq_offset_le : 31 * x ^ 2 ≤ 80 * energy x e := by
  have hsq : 80 * energy x e = 31 * x ^ 2 + (40 * e - 7 * x) ^ 2 := by
    unfold energy
    ring
  rw [hsq]
  exact le_add_of_nonneg_right (sq_nonneg _)

theorem sq_error_le : 31 * e ^ 2 ≤ 4 * energy x e := by
  have hsq : 4 * energy x e = 31 * e ^ 2 + (2 * x - 7 * e) ^ 2 := by
    unfold energy
    ring
  rw [hsq]
  exact le_add_of_nonneg_right (sq_nonneg _)

/-- `(20 e - 7 x) / 20` is the change of the offset in one round. -/
theorem sq_change_le : 31 * (20 * e - 7 * x) ^ 2 ≤ 1600 * energy x e := by
  have hsq : 1600 * energy x e = 31 * (20 * e - 7 * x) ^ 2 + (9 * x - 140 * e) ^ 2 := by
    unfold energy
    ring
  rw [hsq]
  exact le_add_of_nonneg_right (sq_nonneg _)

theorem energy_nonneg : 0 ≤ energy x e := by
  have h := sq_offset_le x e
  have hsq := sq_nonneg x
  linarith

/-- A perturbation costs a fifth of the energy and six times its own. -/
theorem energy_add_le : 5 * energy (x + y) (e + d) ≤ 6 * energy x e + 30 * energy y d := by
  have hparallelogram : 6 * energy x e + 30 * energy y d =
      5 * energy (x + y) (e + d) + energy (x - 5 * y) (e - 5 * d) := by
    unfold energy
    ring
  rw [hparallelogram]
  exact le_add_of_nonneg_right (energy_nonneg _ _)

theorem energy_round : energy (13 * x + 20 * e) (20 * e - x) = 280 * energy x e := by
  unfold energy
  ring

end energy

/-- The remainders of the two divisions carry little energy. -/
theorem energy_remainders_le {a b : Int} (ha : |a| ≤ 9) (hb : |b| ≤ 19) :
    energy (b + 2 * a) b ≤ 7088 := by
  have hsplit : energy (b + 2 * a) b = 4 * a ^ 2 - 10 * (a * b) + 14 * b ^ 2 := by
    unfold energy
    ring
  have hab : |a * b| ≤ 9 * 19 := by
    rw [abs_mul]
    exact mul_le_mul ha hb (abs_nonneg b) (by decide)
  have ha' : a ^ 2 ≤ 9 ^ 2 := sq_le_sq' (abs_le.mp ha).1 (abs_le.mp ha).2
  have hb' : b ^ 2 ≤ 19 ^ 2 := sq_le_sq' (abs_le.mp hb).1 (abs_le.mp hb).2
  have hlow := (abs_le.mp hab).1
  rw [hsplit]
  linarith

/-- **One round** contracts the energy, up to the remainders. -/
theorem energy_step {x e x' e' a b : Int} (ha : |a| ≤ 9) (hb : |b| ≤ 19)
    (hx' : 20 * x' = 13 * x + 20 * e + (b + 2 * a)) (he' : 20 * e' = 20 * e - x + b) :
    25 * energy x' e' ≤ 21 * energy x e + 2700 := by
  have hscale : 400 * energy x' e' = energy (20 * x') (20 * e') := by
    unfold energy
    ring
  have hadd := energy_add_le (13 * x + 20 * e) (20 * e - x) (b + 2 * a) b
  rw [← hx', ← he', ← hscale, energy_round] at hadd
  have hrem := energy_remainders_le ha hb
  linarith

/-! ### The truncating divisions -/

theorem exists_tdiv (z : Int) {m : Int} (hm : 0 < m) :
    ∃ r, m * z.tdiv m = z - r ∧ |r| ≤ m - 1 := by
  refine ⟨z.tmod m, ?_, ?_⟩
  · have h := Int.mul_tdiv_add_tmod z m
    omega
  · rw [abs_le]
    have hlow := Int.lt_tmod_of_pos z hm
    have hhigh := Int.tmod_lt_of_pos z hm
    omega

/-- **One round of the loop** in a bounded energy, over the integers: the offset is no
    outlier, neither the drift nor the frequency reaches the clamp, and the energy
    contracts. -/
theorem round_bounds {x e delta : Int} (hdelta : |delta| ≤ 100000)
    (henergy : energy x e ≤ 280000000675) :
    |x| ≤ 1000000 ∧ |delta - e + x.tdiv 20| < 500000 ∧
      |delta - e + x.tdiv 20 + (3 * x).tdiv 10| < 500000 ∧
      25 * energy (x + (e - x.tdiv 20) - (3 * x).tdiv 10) (e - x.tdiv 20) ≤
        21 * energy x e + 2700 := by
  obtain ⟨b, hb, hble⟩ := exists_tdiv x (m := 20) (by decide)
  obtain ⟨a, ha, hale⟩ := exists_tdiv (3 * x) (m := 10) (by decide)
  have hx : |x| ≤ 900000 := abs_le_of_sq_le_sq (by linarith [sq_offset_le x e]) (by decide)
  have he : |e| ≤ 200000 := abs_le_of_sq_le_sq (by linarith [sq_error_le x e]) (by decide)
  have hchange : |20 * e - 7 * x| ≤ 4000000 :=
    abs_le_of_sq_le_sq (by linarith [sq_change_le x e]) (by decide)
  rw [abs_le] at hdelta hx he hchange
  have hstep : 25 * energy (x + (e - x.tdiv 20) - (3 * x).tdiv 10) (e - x.tdiv 20) ≤
      21 * energy x e + 2700 :=
    energy_step hale hble (by linarith) (by linarith)
  rw [abs_le] at hale hble
  refine ⟨abs_le.mpr ?_, abs_lt.mpr ?_, abs_lt.mpr ?_, hstep⟩ <;> omega

/-! ### One sample -/

section sample

variable {o : Overflow} {freq : UInt64} {s : PtpServo}

theorem clampPpb_eq {v : Int64} (h : |v.toInt| ≤ 500000) : clampPpb v = v := by
  obtain ⟨hlow, hhigh⟩ := abs_le.mp h
  have hhigh' : ¬ v > 500000 := by
    rw [gt_iff_lt, Int64.lt_iff_toInt_lt, not_lt]
    exact hhigh
  have hlow' : ¬ v < -500000 := by
    rw [Int64.lt_iff_toInt_lt, not_lt]
    exact hlow
  rw [clampPpb, if_neg hhigh', if_neg hlow']

theorem fits64_of_abs {z b : Int} (h : |z| ≤ b) (hb : b < 2 ^ 63) : Fits64 z := by
  obtain ⟨hlow, hhigh⟩ := abs_le.mp h
  unfold Fits64
  omega

theorem toInt_toInt32 {v : Int64} (h : |v.toInt| ≤ 500000) : v.toInt32.toInt = v.toInt := by
  obtain ⟨hlow, hhigh⟩ := abs_le.mp h
  rw [Int64.toInt_toInt32]
  exact Int.bmod_eq_of_le (by omega) (by omega)

/-- One term of the controller, with a sampling interval of one second. -/
theorem exists_gain {offset : Int64} (num den : Int64) (hx : |offset.toInt| ≤ 1000000)
    (hnum : 0 < num.toInt ∧ num.toInt ≤ 3) (hden : 10 ≤ den.toInt ∧ den.toInt ≤ 20) :
    ∃ r : Int64, r.toInt = (num.toInt * offset.toInt).tdiv den.toInt ∧
      ∀ {α : Type} (k : Int64 → Option α), (do
        let r ← o.div (← o.mul (← o.mul offset num) nsPerS) (← o.mul den nsPerS)
        k r) = k r := by
  have hns : nsPerS.toInt = 1000000000 := rfl
  obtain ⟨hlow, hhigh⟩ := abs_le.mp hx
  obtain ⟨hnumpos, hnumle⟩ := hnum
  have hprod : |offset.toInt * num.toInt| ≤ 1000000 * 3 := by
    rw [abs_mul, abs_of_pos hnumpos]
    exact mul_le_mul hx hnumle hnumpos.le (by decide)
  obtain ⟨hprodlow, hprodhigh⟩ := abs_le.mp hprod
  obtain ⟨m, hm, hmval⟩ := o.exists_mul rfl rfl (fits64_of_abs hprod (by decide))
  obtain ⟨p, hp, hpval⟩ := o.exists_mul hmval hns (by constructor <;> omega)
  obtain ⟨d, hd, hdval⟩ := o.exists_mul (a := den) rfl hns (by constructor <;> omega)
  have hquot : (offset.toInt * num.toInt * 1000000000).tdiv (den.toInt * 1000000000) =
      (offset.toInt * num.toInt).tdiv den.toInt :=
    Int.mul_tdiv_mul_of_pos_left _ _ (by decide)
  have hle := Int.natAbs_tdiv_le_natAbs (offset.toInt * num.toInt) den.toInt
  obtain ⟨r, hr, hrval⟩ := o.exists_tdiv hpval hdval (by omega) (by
    rw [hquot]
    constructor <;> omega)
  refine ⟨r, by rw [hrval, hquot, mul_comm], fun k => ?_⟩
  simp only [hm, hp, hd, hr, Option.bind_eq_bind, Option.bind_some]

end sample

section output

variable (o : Overflow) (freq : UInt64)

/-- The drift the locked branch keeps and the frequency it passes to
    `ptp_clock_adjfreq`. -/
def servoOutput (offset : Int64) (rxCnt : UInt64) (s : PtpServo) : Option (Int64 × Int32) := do
  let span := spanNs freq s.lastCnt rxCnt
  let span := if span ≤ 0 ∨ span > 8000000000 then nsPerS else span
  let p ← o.div (← o.mul (← o.mul offset 3) nsPerS) (← o.mul 10 span)
  let i ← o.div (← o.mul (← o.mul offset 1) nsPerS) (← o.mul 20 span)
  let drift := clampPpb (← o.add s.driftPpb i)
  some (drift, (clampPpb (← o.neg (← o.add drift p))).toInt32)

/-- The frequency that `ptp_servo_sample` passes on, when it is locked and does not
    take the sample for an outlier. -/
def passedPpb (rawNs delayNs : Int64) (rxCnt : UInt64) (s : PtpServo) : Option Int32 := do
  let offset ← o.sub rawNs (if delayNs ≥ 0 then delayNs else 0)
  match s.state with
  | .locked =>
      if (← abs64 o offset) > ptpServoStepNs then none
      else (servoOutput o freq offset rxCnt s).map Prod.snd
  | _ => none

theorem servoSteer_eq (cnt : CntReads) (offset : Int64) (rxCnt : UInt64) (s : PtpServo)
    (c : PtpClock) :
    servoSteer o freq cnt offset rxCnt s c =
      (servoOutput o freq offset rxCnt s).bind fun out =>
        (ptpClockAdjfreq o freq cnt.adjfreq out.2 c).map fun c' =>
          ({ s with outliers := 0, lastCnt := rxCnt, driftPpb := out.1 }, c') := by
  simp only [servoSteer, servoOutput, Option.bind_eq_bind, Option.bind_assoc, Option.bind_some,
    Option.map_eq_bind, Function.comp_def]

end output

section sample

variable {o : Overflow} {freq : UInt64} {s : PtpServo}

/-- The output on an offset within the limit, when neither clamp binds. -/
theorem exists_servoOutput {offset : Int64} {rxCnt : UInt64} (hx : |offset.toInt| ≤ 1000000)
    (hspan : spanNs freq s.lastCnt rxCnt = nsPerS)
    (hdrift : |s.driftPpb.toInt + offset.toInt.tdiv 20| ≤ 500000)
    (hppb : |s.driftPpb.toInt + offset.toInt.tdiv 20 + (3 * offset.toInt).tdiv 10| ≤ 500000) :
    ∃ (drift : Int64) (ppb : Int32),
      drift.toInt = s.driftPpb.toInt + offset.toInt.tdiv 20 ∧
      ppb.toInt = -(drift.toInt + (3 * offset.toInt).tdiv 10) ∧
      servoOutput o freq offset rxCnt s = some (drift, ppb) := by
  obtain ⟨p, hpval, hp⟩ := exists_gain (o := o) 3 10 hx (by decide) (by decide)
  obtain ⟨i, hival, hi⟩ := exists_gain (o := o) 1 20 hx (by decide) (by decide)
  have hpval : p.toInt = (3 * offset.toInt).tdiv 10 := hpval
  have hival : i.toInt = offset.toInt.tdiv 20 := by
    rw [hival, Int64.toInt_one, one_mul]
    rfl
  rw [← hival] at hdrift hppb
  rw [← hpval] at hppb
  obtain ⟨drift, hsum, hdriftval⟩ := o.exists_add rfl rfl (fits64_of_abs hdrift (by decide))
  rw [← hdriftval] at hdrift hppb
  obtain ⟨total, htotal, htotalval⟩ := o.exists_add rfl rfl (fits64_of_abs hppb (by decide))
  rw [← htotalval] at hppb
  obtain ⟨neg, hneg, hnegval⟩ := o.exists_neg (hppb.trans_lt (by decide))
  have hnegle : |neg.toInt| ≤ 500000 := by
    rwa [hnegval, abs_neg]
  refine ⟨drift, neg.toInt32, by rw [hdriftval, hival], ?_, ?_⟩
  · rw [toInt_toInt32 hnegle, hnegval, htotalval, hpval]
  · have hone : ¬ (nsPerS ≤ 0 ∨ nsPerS > 8000000000) := by decide
    simp only [servoOutput, hspan, if_neg hone]
    rw [hp, hi]
    simp only [hsum, clampPpb_eq hdrift, htotal, hneg, clampPpb_eq hnegle, Option.bind_eq_bind,
      Option.bind_some]

end sample

/-! ### The closed loop -/

/-- What one sample reads.  The clock is not the loop's: the servo only writes it. -/
structure ServoInput where
  rawNs : Int64
  delayNs : Int64
  rxCnt : UInt64
  cnt : CntReads
  clock : PtpClock
deriving DecidableEq, Repr

/-- The servo with the offset it measures next. -/
structure ServoLoop where
  servo : PtpServo
  offset : Int
deriving DecidableEq, Repr

namespace ServoLoop

variable (o : Overflow) (freq : UInt64) (delta : Int)

/-- Samples one second apart.  Over the second the offset changes by the clock's own
    drift and by the frequency it was given. -/
def locked (l₀ : ServoLoop) : Machine ServoLoop ServoInput where
  init := l₀
  guard l a :=
    a.rawNs.toInt - max a.delayNs.toInt 0 = l.offset ∧
      spanNs freq l.servo.lastCnt a.rxCnt = nsPerS
  exec l a := do
    let ppb ← passedPpb o freq a.rawNs a.delayNs a.rxCnt l.servo
    let (_, servo, _) ← ptpServoSample o freq a.cnt a.rawNs a.delayNs a.rxCnt l.servo a.clock
    some ⟨servo, l.offset + delta + ppb.toInt⟩

instance (l₀ l : ServoLoop) (a : ServoInput) :
    Decidable ((locked o freq delta l₀).guard l a) :=
  inferInstanceAs (Decidable (_ ∧ _))

/-- The sample `a` steers: it counts no outlier, stays locked and passes `ppb` to
    `ptp_clock_adjfreq` as all it does to the clock. -/
structure Steers (l : ServoLoop) (a : ServoInput) (drift : Int64) (ppb : Int32) : Prop where
  passed : passedPpb o freq a.rawNs a.delayNs a.rxCnt l.servo = some ppb
  sample : ∀ cnt c, ptpServoSample o freq cnt a.rawNs a.delayNs a.rxCnt l.servo c =
    (ptpClockAdjfreq o freq cnt.adjfreq ppb c).map fun c' =>
      (Int64.ofInt l.offset,
        { l.servo with outliers := 0, lastCnt := a.rxCnt, driftPpb := drift }, c')

variable {o freq delta}

variable {a : ServoInput} {l₀ l : ServoLoop} {k : Nat}

theorem sub_delay_eq {x : Int} (hx : |x| ≤ 1000000)
    (hraw : a.rawNs.toInt - max a.delayNs.toInt 0 = x) :
    o.sub a.rawNs (if a.delayNs ≥ 0 then a.delayNs else 0) = some (Int64.ofInt x) := by
  have hdelay : (if a.delayNs ≥ 0 then a.delayNs else 0).toInt = max a.delayNs.toInt 0 := by
    split
    · rename_i hge
      rw [ge_iff_le, Int64.le_iff_toInt_le] at hge
      exact (max_eq_left hge).symm
    · rename_i hlt
      rw [ge_iff_le, Int64.le_iff_toInt_le, not_le] at hlt
      exact (max_eq_right hlt.le).symm
  rw [Overflow.sub, hdelay, hraw, Overflow.to64, if_pos (fits64_of_abs hx (by decide))]

theorem exists_abs64_small {v : Int64} (hv : |v.toInt| ≤ 1000000) :
    ∃ r, abs64 o v = some r ∧ ¬ r > ptpServoStepNs := by
  obtain ⟨r, hr, hrval⟩ := exists_abs64 o (hv.trans_lt (by decide))
  refine ⟨r, hr, ?_⟩
  rw [gt_iff_lt, Int64.lt_iff_toInt_lt, not_lt, hrval]
  exact hv

/-- **One sample** of a locked servo whose energy is bounded. -/
theorem exists_steers (hdelta : |delta| ≤ 100000) (hlocked : l.servo.state = .locked)
    (henergy : energy l.offset (delta - l.servo.driftPpb.toInt) ≤ 280000000675)
    (hguard : (locked o freq delta l₀).guard l a) :
    ∃ (drift : Int64) (ppb : Int32), Steers o freq l a drift ppb ∧
      drift.toInt = l.servo.driftPpb.toInt + l.offset.tdiv 20 ∧ |drift.toInt| < 500000 ∧
      ppb.toInt = -(drift.toInt + (3 * l.offset).tdiv 10) ∧ |ppb.toInt| < 500000 := by
  obtain ⟨hraw, hspan⟩ := hguard
  obtain ⟨hx, hdrift, hppb, -⟩ := round_bounds hdelta henergy
  rw [sub_sub_cancel] at hdrift hppb
  have hval : (Int64.ofInt l.offset).toInt = l.offset :=
    Overflow.toInt_ofInt_of_fits (fits64_of_abs hx (by decide))
  have hsub := sub_delay_eq (o := o) hx hraw
  have hle : |(Int64.ofInt l.offset).toInt| ≤ 1000000 := by
    rwa [hval]
  obtain ⟨r, habs, hinlier⟩ := exists_abs64_small (o := o) hle
  obtain ⟨drift, ppb, hdriftval, hppbval, hout⟩ :=
    exists_servoOutput (o := o) (s := l.servo) hle hspan (by rw [hval]; exact hdrift.le)
      (by rw [hval]; exact hppb.le)
  rw [hval] at hdriftval hppbval
  refine ⟨drift, ppb, ⟨?_, fun cnt c => ?_⟩, hdriftval, by rwa [hdriftval], hppbval, ?_⟩
  · simp only [passedPpb, hsub, hlocked, habs, hout, if_neg hinlier, Option.bind_eq_bind,
      Option.bind_some, Option.map_some]
  · simp only [ptpServoSample, hsub, hlocked, habs, if_neg hinlier, servoSteer_eq, hout,
      Option.bind_eq_bind, Option.bind_some]
    cases ptpClockAdjfreq o freq cnt.adjfreq ppb c with
    | none => rfl
    | some c' => rfl
  · rwa [hppbval, abs_neg, hdriftval]

/-- Bounded energy that contracts with every sample taken. -/
structure Contracted (delta : Int) (k : Nat) (l : ServoLoop) : Prop where
  locked : l.servo.state = .locked
  energy : 25 ^ k * (energy l.offset (delta - l.servo.driftPpb.toInt) - 675) ≤
    21 ^ k * 280000000000

theorem Contracted.energy_le (h : Contracted delta k l) :
    FlintRTOS.energy l.offset (delta - l.servo.driftPpb.toInt) ≤ 280000000675 := by
  have hpow : (21 : Int) ^ k ≤ 25 ^ k := pow_le_pow_left₀ (by decide) (by decide) k
  have hpos : (0 : Int) < 25 ^ k := by positivity
  have hscaled := h.energy.trans (mul_le_mul_of_nonneg_right hpow (by decide))
  have hcancel := le_of_mul_le_mul_left hscaled hpos
  linarith

theorem Contracted.offset_le (h : Contracted delta k l) (hk : 200 ≤ k) : |l.offset| ≤ 100 := by
  have hpow : (21 : Int) ^ k * 280000000000 ≤ 25 ^ k * 1 := by
    obtain ⟨m, rfl⟩ := Nat.exists_eq_add_of_le hk
    calc (21 : Int) ^ (200 + m) * 280000000000
        = 21 ^ 200 * 280000000000 * 21 ^ m := by ring
      _ ≤ 25 ^ 200 * 25 ^ m :=
        mul_le_mul (by norm_num) (pow_le_pow_left₀ (by decide) (by decide) m) (by positivity)
          (by positivity)
      _ = 25 ^ (200 + m) * 1 := by ring
  have hpos : (0 : Int) < 25 ^ k := by positivity
  have hcancel := le_of_mul_le_mul_left (h.energy.trans hpow) hpos
  exact abs_le_of_sq_le_sq (by linarith [sq_offset_le l.offset (delta - l.servo.driftPpb.toInt)])
    (by decide)

theorem Contracted.init (hlocked : l.servo.state = .locked) (hoffset : |l.offset| ≤ 100000)
    (hdrift : |l.servo.driftPpb.toInt - delta| ≤ 100000) : Contracted delta 0 l := by
  refine ⟨hlocked, ?_⟩
  rw [abs_sub_comm] at hdrift
  generalize delta - l.servo.driftPpb.toInt = e at hdrift ⊢
  have hxe : |l.offset * e| ≤ 100000 * 100000 := by
    rw [abs_mul]
    exact mul_le_mul hoffset hdrift (abs_nonneg e) (by decide)
  have hx := sq_le_sq' (abs_le.mp hoffset).1 (abs_le.mp hoffset).2
  have he := sq_le_sq' (abs_le.mp hdrift).1 (abs_le.mp hdrift).2
  have hlow := (abs_le.mp hxe).1
  unfold FlintRTOS.energy
  linarith

theorem Contracted.step {l' : ServoLoop} (hdelta : |delta| ≤ 100000) (h : Contracted delta k l)
    (hst : (ServoLoop.locked o freq delta l₀).Step l a l') : Contracted delta (k + 1) l' := by
  obtain ⟨hguard, hexec⟩ := hst
  obtain ⟨drift, ppb, hsteers, hdrift, -, hppb, -⟩ :=
    exists_steers hdelta h.locked h.energy_le hguard
  obtain ⟨-, -, -, hround⟩ := round_bounds hdelta h.energy_le
  simp only [ServoLoop.locked, hsteers.passed, hsteers.sample, Option.bind_eq_bind,
    Option.bind_some] at hexec
  obtain ⟨⟨_, servo, _⟩, hsample, hl'⟩ := Option.bind_eq_some_iff.mp hexec
  obtain ⟨c', -, hservo⟩ := Option.map_eq_some_iff.mp hsample
  cases hservo
  cases hl'
  refine ⟨h.locked, ?_⟩
  have hx : l.offset + delta + ppb.toInt = l.offset +
      (delta - l.servo.driftPpb.toInt - l.offset.tdiv 20) - (3 * l.offset).tdiv 10 := by
    rw [hppb, hdrift]
    ring
  have he : delta - drift.toInt = delta - l.servo.driftPpb.toInt - l.offset.tdiv 20 := by
    rw [hdrift]
    ring
  simp only [hx, he]
  have hpos : (0 : Int) ≤ 25 ^ k := by positivity
  have hscaled := mul_le_mul_of_nonneg_left hround hpos
  have henergy := h.energy
  rw [pow_succ, pow_succ]
  linarith

theorem Contracted.run {as : List ServoInput} (hdelta : |delta| ≤ 100000)
    (hinit : Contracted delta 0 l₀) (hrun : (ServoLoop.locked o freq delta l₀).Run l₀ as l) :
    Contracted delta as.length l := by
  induction hrun with
  | refl => exact hinit
  | tail _ hst ih =>
    rw [List.length_append]
    exact ih.step hdelta hst

/-- **The locked loop is stable.**  After any number of samples one second apart the
    offset is no outlier, the next sample steers with no clamp binding, and from the
    two-hundredth sample on the offset stays within 100 ns. -/
theorem locked_loop_stable {l₀ l : ServoLoop} {as : List ServoInput}
    (hdelta : |delta| ≤ 100000) (hlocked : l₀.servo.state = .locked)
    (hoffset : |l₀.offset| ≤ 100000) (hdrift : |l₀.servo.driftPpb.toInt - delta| ≤ 100000)
    (hrun : (locked o freq delta l₀).Run l₀ as l) :
    |l.offset| ≤ 1000000 ∧ l.servo.state = .locked ∧ (200 ≤ as.length → |l.offset| ≤ 100) ∧
      ∀ a, (locked o freq delta l₀).guard l a →
        ∃ (drift : Int64) (ppb : Int32), Steers o freq l a drift ppb ∧
          drift.toInt = l.servo.driftPpb.toInt + l.offset.tdiv 20 ∧ |drift.toInt| < 500000 ∧
          ppb.toInt = -(drift.toInt + (3 * l.offset).tdiv 10) ∧ |ppb.toInt| < 500000 := by
  have h := (Contracted.init hlocked hoffset hdrift).run hdelta hrun
  obtain ⟨hx, -⟩ := round_bounds hdelta h.energy_le
  exact ⟨hx, h.locked, h.offset_le, fun a => exists_steers hdelta h.locked h.energy_le⟩

/-- A servo that has just locked, 5 us off. -/
def justLocked : ServoLoop := ⟨⟨.locked, 0, 0, 0, 0, 0⟩, 5000⟩

/-- The sample at tick `rxCnt` of a clock that reads zero, with the delay unknown. -/
def sampleAt (rawNs : Int64) (rxCnt : UInt64) : ServoInput :=
  ⟨rawNs, -1, rxCnt, ⟨0, 0, 0⟩, ⟨0, 0, 0, 0⟩⟩

theorem locked_loop_stable_two :
    ∃ l, (locked .trap 1000 100 justLocked).Run justLocked
        [sampleAt 5000 1000, sampleAt 3350 2000] l ∧
      l.offset = 2028 ∧ l.servo.state = .locked ∧
      ∃ drift ppb, Steers .trap 1000 l (sampleAt 2028 3000) drift ppb := by
  obtain ⟨l, hrun, hl⟩ := (locked .trap 1000 100 justLocked).exists_run
    [sampleAt 5000 1000, sampleAt 3350 2000]
    (fun l => l.offset = 2028 ∧ (locked .trap 1000 100 justLocked).guard l (sampleAt 2028 3000))
    (by decide)
  obtain ⟨hoffset, hguard⟩ := of_decide_eq_true hl
  obtain ⟨-, hstate, -, hsteers⟩ :=
    locked_loop_stable (by decide) rfl (by decide) (by decide) hrun
  obtain ⟨drift, ppb, h, -⟩ := hsteers _ hguard
  exact ⟨l, hrun, hoffset, hstate, drift, ppb, h⟩

end ServoLoop

end FlintRTOS
