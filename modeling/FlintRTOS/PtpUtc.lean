import FlintRTOS.Gregorian
import FlintRTOS.Numeral
import FlintRTOS.PtpClock
import FlintRTOS.SignedArith
import Mathlib.Data.List.Basic

/-!
# Writing the time

`ptp_format_utc`: a number of nanoseconds as date and time of day, in UTC.

The code divides towards zero and mends the negative times; from the day on its numbers
are small, so its arithmetic is that of the calendar (`exists_civilFromDays`).  What it
writes is stated as the text of a `Stamp`, which can hold valid dates and times only.
-/

namespace FlintRTOS

/-! ### The code -/

/-- `put_num(&buf[p], v, width)`. -/
def putNum (p : Nat) (buf : Nat → UInt8) (v : UInt32) : Nat → Nat → UInt8
  | 0 => buf
  | i + 1 => putNum p (Function.update buf (p + i) ('0'.toUInt8 + (v % 10).toUInt8)) (v / 10) i

section code

variable (o : Overflow)

/-- `secs` and `ns`. -/
def splitSeconds (utcNs : Int64) : Option (Int64 × Int64) := do
  let secs ← o.div utcNs nsPerS
  let ns ← o.mod utcNs nsPerS
  if ns < 0 then
    let ns ← o.add ns nsPerS
    let secs ← o.sub secs 1
    return (secs, ns)
  else return (secs, ns)

/-- `z`. -/
def dayOf (secs : Int64) : Option Int64 :=
  if secs ≥ 0 then o.div secs 86400 else do o.div (← o.sub secs 86399) 86400

/-- `z` and `sod`. -/
def splitDays (secs : Int64) : Option (Int64 × Int64) := do
  let z ← dayOf o secs
  let sod ← o.sub secs (← o.mul z 86400)
  return (z, sod)

/-- `era`. -/
def eraOf (zz : Int64) : Option Int64 :=
  if zz ≥ 0 then o.div zz 146097 else do o.div (← o.sub zz 146096) 146097

/-- `era` and `doe`. -/
def splitEra (zz : Int64) : Option (Int64 × Int64) := do
  let era ← eraOf o zz
  let doe ← o.sub zz (← o.mul era 146097)
  return (era, doe)

/-- `yoe`. -/
def yearOfEra (doe : Int64) : Option Int64 := do
  let days ← o.sub doe (← o.div doe 1460)
  let days ← o.add days (← o.div doe 36524)
  let days ← o.sub days (← o.div doe 146096)
  o.div days 365

/-- `doy`. -/
def dayOfYear (doe yoe : Int64) : Option Int64 := do
  let before ← o.add (← o.mul 365 yoe) (← o.div yoe 4)
  let before ← o.sub before (← o.div yoe 100)
  o.sub doe before

/-- `mp`. -/
def monthOfYear (doy : Int64) : Option Int64 := do
  o.div (← o.add (← o.mul 5 doy) 2) 153

/-- `d`. -/
def dayOfMonth (doy mp : Int64) : Option Int64 := do
  let before ← o.div (← o.add (← o.mul 153 mp) 2) 5
  o.add (← o.sub doy before) 1

/-- `m`. -/
def calendarMonth (mp : Int64) : Option Int64 :=
  if mp < 10 then o.add mp 3 else o.sub mp 9

/-- `y`, `m` and `d`. -/
def civilFromDays (z : Int64) : Option (Int64 × Int64 × Int64) := do
  let zz ← o.add z 719468
  let (era, doe) ← splitEra o zz
  let yoe ← yearOfEra o doe
  let y ← o.add yoe (← o.mul era 400)
  let doy ← dayOfYear o doe yoe
  let mp ← monthOfYear o doy
  let d ← dayOfMonth o doy mp
  let m ← calendarMonth o mp
  if m ≤ 2 then
    let y ← o.add y 1
    return (y, m, d)
  else return (y, m, d)

/-- `(uint32_t)`. -/
def toU32 (a : Int64) : UInt32 := a.toUInt64.toUInt32

def ptpFormatUtc (utcNs : Int64) (buf : Nat → UInt8) : Option (Nat → UInt8) := do
  let (secs, ns) ← splitSeconds o utcNs
  let (z, sod) ← splitDays o secs
  let (y, m, d) ← civilFromDays o z
  let buf := Function.update (putNum 0 buf (toU32 y) 4) 4 '-'.toUInt8
  let buf := Function.update (putNum 5 buf (toU32 m) 2) 7 '-'.toUInt8
  let buf := Function.update (putNum 8 buf (toU32 d) 2) 10 ' '.toUInt8
  let buf := Function.update (putNum 11 buf (toU32 (← o.div sod 3600)) 2) 13 ':'.toUInt8
  let minutes ← o.mod (← o.div sod 60) 60
  let buf := Function.update (putNum 14 buf (toU32 minutes) 2) 16 ':'.toUInt8
  let buf := Function.update (putNum 17 buf (toU32 (← o.mod sod 60)) 2) 19 '.'.toUInt8
  return Function.update (putNum 20 buf (toU32 (← o.div ns 1000)) 6) 26 0

end code

/-! ### The numbers -/

section numbers

variable (o : Overflow)

open Overflow

variable {n k : Nat}

theorem toNat_toU32 {a : Int64} (h : a.toInt = n) (hn : n < 2 ^ 32) : (toU32 a).toNat = n := by
  rw [toU32, UInt64.toNat_toUInt32, toNat_toUInt64 h, Nat.mod_eq_of_lt hn]

/-- Truncating and mending is dividing downwards. -/
theorem exists_splitSeconds (utcNs : Int64) :
    ∃ out, splitSeconds o utcNs = some out ∧
      out.1.toInt = utcNs.toInt / 1000000000 ∧ out.2.toInt = utcNs.toInt % 1000000000 := by
  have hscale : nsPerS.toInt = 1000000000 := rfl
  have hzero : (0 : Int64).toInt = 0 := rfl
  have hne : (1000000000 : Int) ≠ 0 := by decide
  have hlow := utcNs.le_toInt
  have hhigh := utcNs.toInt_lt
  have hdiv := Int.tmod_add_tdiv_mul utcNs.toInt 1000000000
  have hrem := abs_lt.mp (abs_tmod_lt utcNs.toInt (m := 1000000000) (by decide))
  unfold splitSeconds
  refine exists_bind (o.exists_tdiv rfl hscale hne (by constructor <;> omega)) fun secs hsecs => ?_
  refine exists_bind (o.exists_tmod rfl hscale hne (by constructor <;> omega)) fun ns hns => ?_
  simp only [Int64.lt_iff_toInt_lt, hzero]
  split
  · refine exists_bind (o.exists_add hns hscale (by constructor <;> omega)) fun ns' hns' => ?_
    refine exists_bind (o.exists_sub (y := 1) hsecs rfl (by constructor <;> omega))
      fun secs' hsecs' => ?_
    refine ⟨_, rfl, ?_, ?_⟩ <;> simp only <;> omega
  · refine ⟨_, rfl, ?_, ?_⟩ <;> simp only <;> omega

theorem exists_dayOf {secs : Int64} {x : Int} (h : secs.toInt = x) (hx : |x| ≤ 10000000000) :
    ∃ z, dayOf o secs = some z ∧ z.toInt = x / 86400 := by
  have hzero : (0 : Int64).toInt = 0 := rfl
  unfold dayOf
  split
  · rename_i hnonneg
    rw [ge_iff_le, Int64.le_iff_toInt_le, hzero, h] at hnonneg
    obtain ⟨n, rfl⟩ := Int.eq_ofNat_of_zero_le hnonneg
    exact o.exists_div_nat (n := 86400) h rfl (by decide)
  · rename_i hneg
    rw [ge_iff_le, Int64.le_iff_toInt_le, hzero, h] at hneg
    have hfloor : (x - 86399).tdiv 86400 = x / 86400 :=
      sub_tdiv_eq_ediv (y := 86400) (not_le.mp hneg) (by decide)
    rw [abs_le] at hx
    refine exists_bind (o.exists_sub (y := 86399) h rfl (by constructor <;> omega))
      fun shifted hshifted => ?_
    rw [← hfloor]
    exact o.exists_tdiv (y := 86400) hshifted rfl (by decide) (by
      rw [hfloor]
      constructor <;> omega)

theorem exists_splitDays {secs : Int64} {x : Int} (h : secs.toInt = x) (hx : |x| ≤ 10000000000) :
    ∃ out, splitDays o secs = some out ∧
      out.1.toInt = x / 86400 ∧ out.2.toInt = x % 86400 := by
  unfold splitDays
  refine exists_bind (exists_dayOf o h hx) fun z hz => ?_
  rw [abs_le] at hx
  refine exists_bind (o.exists_mul (y := 86400) hz rfl (by constructor <;> omega)) fun s hs => ?_
  refine exists_bind (o.exists_sub h hs (by constructor <;> omega)) fun sod hsod => ?_
  refine ⟨_, rfl, hz, ?_⟩
  simp only
  omega

theorem exists_splitEra {zz : Int64} (h : zz.toInt = n) :
    ∃ out, splitEra o zz = some out ∧
      out.1.toInt = (n / 146097 : Nat) ∧ out.2.toInt = (n % 146097 : Nat) := by
  have hnonneg : zz ≥ 0 := by
    rw [ge_iff_le, Int64.le_iff_toInt_le, h]
    exact Int.natCast_nonneg n
  have hlt := zz.toInt_lt
  have hle : n / 146097 * 146097 ≤ n := Nat.div_mul_le_self n 146097
  unfold splitEra eraOf
  rw [if_pos hnonneg]
  refine exists_bind (o.exists_div_nat (n := 146097) h rfl (by decide)) fun era hera => ?_
  refine exists_bind (o.exists_mul_nat (n := 146097) hera rfl (by omega)) fun days hdays => ?_
  refine exists_bind (o.exists_sub_nat h hdays hle) fun doe hdoe => ?_
  refine ⟨_, rfl, hera, hdoe.trans ?_⟩
  rw [Nat.mod_eq_sub_div_mul]

theorem exists_yearOfEra {doe : Int64} (h : doe.toInt = n) (hn : n < 146097) :
    ∃ yoe, yearOfEra o doe = some yoe ∧ yoe.toInt = Gregorian.yearOfEra n := by
  unfold yearOfEra
  refine exists_bind (o.exists_div_nat (n := 1460) h rfl (by decide)) fun groups hgroups => ?_
  refine exists_bind (o.exists_sub_nat h hgroups (Nat.div_le_self _ _)) fun days hdays => ?_
  refine exists_bind (o.exists_div_nat (n := 36524) h rfl (by decide))
    fun centuries hcenturies => ?_
  refine exists_bind (o.exists_add_nat hdays hcenturies (by omega)) fun days' hdays' => ?_
  refine exists_bind (o.exists_div_nat (n := 146096) h rfl (by decide)) fun last hlast => ?_
  refine exists_bind (o.exists_sub_nat hdays' hlast (by omega)) fun days'' hdays'' => ?_
  exact o.exists_div_nat (n := 365) hdays'' rfl (by decide)

theorem exists_dayOfYear {doe yoe : Int64} (hdoe : doe.toInt = n) (hyoe : yoe.toInt = k)
    (hk : k < 400) (hle : Gregorian.yearStart k ≤ n) :
    ∃ doy, dayOfYear o doe yoe = some doy ∧ doy.toInt = (n - Gregorian.yearStart k : Nat) := by
  unfold dayOfYear
  refine exists_bind (o.exists_mul_nat (m := 365) rfl hyoe (by omega)) fun days hdays => ?_
  refine exists_bind (o.exists_div_nat (n := 4) hyoe rfl (by decide)) fun leaps hleaps => ?_
  refine exists_bind (o.exists_add_nat hdays hleaps (by omega)) fun before hbefore => ?_
  refine exists_bind (o.exists_div_nat (n := 100) hyoe rfl (by decide))
    fun centuries hcenturies => ?_
  refine exists_bind (o.exists_sub_nat hbefore hcenturies (by omega)) fun start hstart => ?_
  exact o.exists_sub_nat hdoe hstart hle

theorem exists_monthOfYear {doy : Int64} (h : doy.toInt = n) (hn : n < 366) :
    ∃ mp, monthOfYear o doy = some mp ∧ mp.toInt = Gregorian.monthOfYear n := by
  unfold monthOfYear
  refine exists_bind (o.exists_mul_nat (m := 5) rfl h (by omega)) fun a ha => ?_
  refine exists_bind (o.exists_add_nat (n := 2) ha rfl (by omega)) fun b hb => ?_
  exact o.exists_div_nat (n := 153) hb rfl (by decide)

theorem exists_dayOfMonth {doy mp : Int64} (hdoy : doy.toInt = n) (hmp : mp.toInt = k)
    (hn : n < 366) (hle : Gregorian.monthStart k ≤ n) (hk : k < 12) :
    ∃ d, dayOfMonth o doy mp = some d ∧ d.toInt = (n - Gregorian.monthStart k + 1 : Nat) := by
  unfold dayOfMonth
  refine exists_bind (o.exists_mul_nat (m := 153) rfl hmp (by omega)) fun a ha => ?_
  refine exists_bind (o.exists_add_nat (n := 2) ha rfl (by omega)) fun b hb => ?_
  refine exists_bind (o.exists_div_nat (n := 5) hb rfl (by decide)) fun start hstart => ?_
  refine exists_bind (o.exists_sub_nat hdoy hstart hle) fun rest hrest => ?_
  exact o.exists_add_nat (n := 1) hrest rfl (by omega)

theorem exists_calendarMonth {mp : Int64} (h : mp.toInt = k) (hk : k < 12) :
    ∃ m, calendarMonth o mp = some m ∧ m.toInt = Gregorian.calendarMonth k := by
  have hten : mp < 10 ↔ k < 10 := by
    rw [Int64.lt_iff_toInt_lt, h]
    exact Int.ofNat_lt
  unfold calendarMonth Gregorian.calendarMonth
  simp only [hten]
  split
  · exact o.exists_add_nat (n := 3) h rfl (by omega)
  · exact o.exists_sub_nat (n := 9) h rfl (by omega)

/-- From the day on, the code computes the date of the calendar. -/
theorem exists_civilFromDays {z : Int64} (hlow : -719468 ≤ z.toInt) (hhigh : z.toInt < 200000) :
    ∃ out, civilFromDays o z = some out ∧ ∃ date : Gregorian.Date,
      out.1.toInt = date.year ∧ out.2.1.toInt = date.month ∧ out.2.2.toInt = date.day ∧
        date.year < 10000 ∧ (date.dayNumber : Int) = z.toInt + 719528 := by
  obtain ⟨n, hn⟩ := Int.eq_ofNat_of_zero_le (a := z.toInt + 719468) (by omega)
  have hsmall : n < 1000000 := by omega
  have hdoe : n % 146097 < 146097 := Nat.mod_lt n (by decide)
  obtain ⟨hyoe, hstart, hdayOfYear⟩ := Gregorian.yearOfEra_spec hdoe
  have hdoy : n % 146097 - Gregorian.yearStart (Gregorian.yearOfEra (n % 146097)) < 366 := by
    unfold Gregorian.IsDayOfYear at hdayOfYear
    omega
  obtain ⟨hmp, hmonthStart, _⟩ := Gregorian.monthOfYear_spec hdayOfYear
  obtain ⟨date, hyear, hmonth, hday, hnumber⟩ :=
    Gregorian.exists_date (n / 146097) hdoe rfl rfl rfl
  have hdayNumber : (date.dayNumber : Int) = z.toInt + 719528 := by omega
  unfold civilFromDays
  refine exists_bind (o.exists_add (y := 719468) rfl rfl (by constructor <;> omega))
    fun zz hzz => ?_
  refine exists_bind (exists_splitEra o (hzz.trans hn)) fun split hsplit => ?_
  refine exists_bind (exists_yearOfEra o hsplit.2 hdoe) fun yoe hyoeInt => ?_
  refine exists_bind (o.exists_mul_nat (n := 400) hsplit.1 rfl (by omega))
    fun before hbefore => ?_
  refine exists_bind (o.exists_add_nat hyoeInt hbefore (by omega)) fun y hy => ?_
  refine exists_bind (exists_dayOfYear o hsplit.2 hyoeInt hyoe hstart) fun doy hdoyInt => ?_
  refine exists_bind (exists_monthOfYear o hdoyInt hdoy) fun mp hmpInt => ?_
  refine exists_bind (exists_dayOfMonth o hdoyInt hmpInt hdoy hmonthStart hmp) fun d hd => ?_
  refine exists_bind (exists_calendarMonth o hmpInt hmp) fun m hm => ?_
  rw [← hmonth] at hm
  rw [← hday] at hd
  rw [Gregorian.calendarYear, ← hmonth] at hyear
  have htwo : m ≤ 2 ↔ date.month ≤ 2 := by
    rw [Int64.le_iff_toInt_le, hm]
    exact Int.ofNat_le
  simp only [htwo]
  split
  · rename_i hnext
    rw [if_pos hnext] at hyear
    refine exists_bind (o.exists_add_nat (n := 1) hy rfl (by omega)) fun y' hy' => ?_
    rw [← hyear] at hy'
    exact ⟨_, rfl, date, hy', hm, hd, by omega, hdayNumber⟩
  · rename_i hthis
    rw [if_neg hthis] at hyear
    rw [← hyear] at hy
    exact ⟨_, rfl, date, hy, hm, hd, by omega, hdayNumber⟩

theorem exists_clock {sod : Int64} (h : sod.toInt = n) :
    ∃ hour minutes minute second, o.div sod 3600 = some hour ∧ o.div sod 60 = some minutes ∧
      o.mod minutes 60 = some minute ∧ o.mod sod 60 = some second ∧
      hour.toInt = (n / 3600 : Nat) ∧ minute.toInt = (n / 60 % 60 : Nat) ∧
      second.toInt = (n % 60 : Nat) := by
  obtain ⟨hour, hhour, hhourInt⟩ := o.exists_div_nat (b := 3600) (n := 3600) h rfl (by decide)
  obtain ⟨minutes, hminutes, hminutesInt⟩ := o.exists_div_nat (b := 60) (n := 60) h rfl (by decide)
  obtain ⟨minute, hminute, hminuteInt⟩ :=
    o.exists_mod_nat (b := 60) (n := 60) hminutesInt rfl (by decide)
  obtain ⟨second, hsecond, hsecondInt⟩ := o.exists_mod_nat (b := 60) (n := 60) h rfl (by decide)
  exact ⟨hour, minutes, minute, second, hhour, hminutes, hminute, hsecond, hhourInt, hminuteInt,
    hsecondInt⟩

end numbers

/-! ### The text -/

/-- A number in the decimal system, filled up with zeros to the width. -/
def decimal (width v : Nat) : List UInt8 :=
  ((Nat.toDigits 10 v).leftpad width '0').map Char.toUInt8

theorem decimal_eq_leftpad (w v : Nat) :
    decimal w v = (Numeral.digits v).leftpad w '0'.toUInt8 := by
  simp [decimal, List.leftpad, Numeral.digits]

variable {v : Nat}

theorem length_decimal {w : Nat} (hw : 0 < w) (h : v < 10 ^ w) : (decimal w v).length = w := by
  have hlength := (Numeral.length_digits_le_iff hw).mpr h
  rw [decimal_eq_leftpad, List.length_leftpad]
  omega

theorem decimal_succ {w : Nat} (hw : 0 < w) :
    decimal (w + 1) v = decimal w (v / 10) ++ ['0'.toUInt8 + UInt8.ofNat (v % 10)] := by
  rw [decimal_eq_leftpad, decimal_eq_leftpad]
  rcases Nat.lt_or_ge v 10 with hv | hv
  · have hzero : v / 10 = 0 := Nat.div_eq_of_lt hv
    obtain ⟨k, rfl⟩ := Nat.exists_eq_add_of_lt hw
    rw [hzero, Nat.mod_eq_of_lt hv, Numeral.digits_of_lt hv, Numeral.digits_of_lt (by decide)]
    simp [List.leftpad, List.replicate_succ']
  · rw [Numeral.digits_of_le hv]
    simp [List.leftpad]

theorem decimal_one (h : v < 10) : decimal 1 v = ['0'.toUInt8 + UInt8.ofNat v] := by
  rw [decimal_eq_leftpad, Numeral.digits_of_lt h]
  rfl

theorem toUInt8_mod_ten (v : UInt32) : (v % 10).toUInt8 = UInt8.ofNat (v.toNat % 10) :=
  congrArg UInt8.ofNat (UInt32.toNat_mod v 10)

theorem putNum_spec (p w : Nat) (v : UInt32) (buf : Nat → UInt8) (h : v.toNat < 10 ^ (w + 1)) :
    (∀ i, i < w + 1 → (decimal (w + 1) v.toNat)[i]? = some (putNum p buf v (w + 1) (p + i))) ∧
      ∀ j, j < p ∨ p + (w + 1) ≤ j → putNum p buf v (w + 1) j = buf j := by
  induction w generalizing v buf with
  | zero =>
    have hmod : v.toNat % 10 = v.toNat := Nat.mod_eq_of_lt h
    rw [decimal_one h]
    constructor
    · intro i hi
      obtain rfl : i = 0 := by omega
      rw [putNum, putNum, Function.update_self, toUInt8_mod_ten, hmod]
      rfl
    · intro j hj
      rw [putNum, putNum, Function.update_of_ne (by omega)]
  | succ w ih =>
    have hdiv : (v / 10).toNat = v.toNat / 10 := UInt32.toNat_div v 10
    have hlt : v.toNat / 10 < 10 ^ (w + 1) :=
      Nat.div_lt_of_lt_mul (by rwa [Nat.pow_succ'] at h)
    obtain ⟨hdigits, hrest⟩ := ih (v / 10)
      (Function.update buf (p + (w + 1)) ('0'.toUInt8 + (v % 10).toUInt8)) (by rwa [hdiv])
    rw [hdiv] at hdigits
    rw [decimal_succ (Nat.succ_pos w), putNum]
    have hlength := length_decimal (Nat.succ_pos w) hlt
    constructor
    · intro i hi
      by_cases hlast : i = w + 1
      · -- the last digit was written first
        rw [hlast, hrest _ (Or.inr (Nat.le_refl _)), Function.update_self, toUInt8_mod_ten,
          List.getElem?_append_right (by omega), hlength, Nat.sub_self]
        rfl
      · rw [List.getElem?_append_left (by omega), hdigits i (by omega)]
    · intro j hj
      rw [hrest j (by omega), Function.update_of_ne (by omega)]

/-- The bytes `t` have been written to the front of the buffer, and nothing else. -/
structure Wrote (buf b : Nat → UInt8) (t : List UInt8) : Prop where
  text : ∀ i, i < t.length → t[i]? = some (b i)
  rest : ∀ i, t.length ≤ i → b i = buf i

theorem Wrote.nothing (buf : Nat → UInt8) : Wrote buf buf [] := ⟨nofun, fun _ _ => rfl⟩

section wrote

variable {buf b : Nat → UInt8} {t : List UInt8} {p : Nat}

theorem Wrote.put (h : Wrote buf b t) (hp : p = t.length) (c : UInt8) :
    Wrote buf (Function.update b p c) (t ++ [c]) := by
  subst hp
  constructor
  · intro i hi
    rw [List.length_append, List.length_singleton] at hi
    by_cases hlast : i = t.length
    · rw [hlast, Function.update_self, List.getElem?_concat_length]
    · rw [Function.update_of_ne hlast, List.getElem?_append_left (by omega), h.text i (by omega)]
  · intro i hi
    rw [List.length_append, List.length_singleton] at hi
    rw [Function.update_of_ne (by omega), h.rest i (by omega)]

theorem Wrote.putNum (h : Wrote buf b t) {w : Nat} (hp : p = t.length) (hw : 0 < w) {v : UInt32}
    {n : Nat} (hv : v.toNat = n) (hn : n < 10 ^ w) :
    Wrote buf (putNum p b v w) (t ++ decimal w n) := by
  subst hp
  subst hv
  obtain ⟨k, rfl⟩ : ∃ k, w = k + 1 := ⟨w - 1, by omega⟩
  obtain ⟨hdigits, hrest⟩ := putNum_spec t.length k v b hn
  have hlength := length_decimal hw hn
  constructor
  · intro i hi
    rw [List.length_append, hlength] at hi
    by_cases hnew : i < t.length
    · rw [List.getElem?_append_left hnew, h.text i hnew, hrest i (Or.inl hnew)]
    · obtain ⟨j, rfl⟩ := Nat.exists_eq_add_of_le (Nat.not_lt.mp hnew)
      rw [List.getElem?_append_right (Nat.le_add_right _ _), Nat.add_sub_cancel_left,
        hdigits j (by omega)]
  · intro i hi
    rw [List.length_append, hlength] at hi
    rw [hrest i (Or.inr (by omega)), h.rest i (by omega)]

theorem Wrote.field (h : Wrote buf b t) {w : Nat} (hp : t.length = p) (hw : 0 < w ∧ w ≤ 9)
    {a : Int64} {n : Nat} (ha : a.toInt = n) (hn : n < 10 ^ w) (c : UInt8) :
    Wrote buf (Function.update (FlintRTOS.putNum p b (toU32 a) w) (p + w) c)
        (t ++ decimal w n ++ [c]) ∧
      (t ++ decimal w n ++ [c]).length = p + w + 1 := by
  have hlength : (t ++ decimal w n).length = p + w := by
    rw [List.length_append, hp, length_decimal hw.1 hn]
  have hsmall : n < 2 ^ 32 :=
    hn.trans (Nat.lt_of_le_of_lt (Nat.pow_le_pow_right (by decide) hw.2) (by decide))
  refine ⟨(h.putNum hp.symm hw.1 (toNat_toU32 ha hsmall) hn).put hlength.symm c, ?_⟩
  rw [List.length_append, hlength, List.length_singleton]

end wrote

/-- A date and a time of day. -/
structure Stamp where
  date : Gregorian.Date
  hour : Fin 24
  minute : Fin 60
  second : Fin 60
  micros : Fin 1000000

namespace Stamp

def secondOfDay (s : Stamp) : Nat := s.hour.val * 3600 + s.minute.val * 60 + s.second.val

/-- `YYYY-MM-DD hh:mm:ss.uuuuuu`. -/
def text (s : Stamp) : List UInt8 :=
  decimal 4 s.date.year ++ ['-'.toUInt8] ++ decimal 2 s.date.month ++ ['-'.toUInt8] ++
    decimal 2 s.date.day ++ [' '.toUInt8] ++ decimal 2 s.hour.val ++ [':'.toUInt8] ++
    decimal 2 s.minute.val ++ [':'.toUInt8] ++ decimal 2 s.second.val ++ ['.'.toUInt8] ++
    decimal 6 s.micros.val

end Stamp

/-- The day from which times are counted. -/
def epoch : Gregorian.Date := ⟨1970, 1, 1, by decide, by decide⟩

theorem dayNumber_epoch : epoch.dayNumber = 719528 := by decide +kernel

/-- The time is written in the Gregorian calendar.  For every number of nanoseconds,
    before the epoch as well, `ptp_format_utc` writes the 26 characters of a valid date and
    time of day and a NUL, and nothing behind them; the day's number times 86400 and the
    second of the day are the seconds, rounded down, and the microseconds are those of the
    fraction. -/
theorem ptp_format_utc_gregorian (o : Overflow) (utcNs : Int64) (buf : Nat → UInt8) :
    ∃ b, ∃ s : Stamp, ptpFormatUtc o utcNs buf = some b ∧ s.text.length = 26 ∧
      Wrote buf b (s.text ++ [0]) ∧
      ((s.date.dayNumber : Int) - epoch.dayNumber) * 86400 + s.secondOfDay =
        utcNs.toInt / 1000000000 ∧
      (s.micros.val : Int) = utcNs.toInt % 1000000000 / 1000 := by
  have hlow := utcNs.le_toInt
  have hhigh := utcNs.toInt_lt
  obtain ⟨⟨secs, ns⟩, hsplit, hsecs, hns⟩ := exists_splitSeconds o utcNs
  obtain ⟨⟨z, sod⟩, hdays, hz, hsod⟩ := exists_splitDays o hsecs (abs_le.mpr (by omega))
  simp only at hns hz hsod
  obtain ⟨⟨y, m, d⟩, hcivil, date, hy, hm, hd, hyear, hnumber⟩ :=
    exists_civilFromDays o (z := z) (by omega) (by omega)
  obtain ⟨n, hn⟩ := Int.eq_ofNat_of_zero_le (a := sod.toInt) (by omega)
  obtain ⟨k, hk⟩ := Int.eq_ofNat_of_zero_le (a := ns.toInt) (by omega)
  obtain ⟨hour, minutes, minute, second, hhour, hminutes, hminute, hsecond, hhourInt, hminuteInt,
    hsecondInt⟩ := exists_clock o hn
  obtain ⟨micros, hmicros, hmicrosInt⟩ :=
    o.exists_div_nat (b := 1000) (n := 1000) hk rfl (by decide)
  have hmonth := date.month_mem.2
  have hday := date.day_le
  obtain ⟨hw, hlen⟩ := (Wrote.nothing buf).field (w := 4) rfl (by decide) hy hyear '-'.toUInt8
  obtain ⟨hw, hlen⟩ := hw.field (w := 2) hlen (by decide) hm (by omega) '-'.toUInt8
  obtain ⟨hw, hlen⟩ := hw.field (w := 2) hlen (by decide) hd (by omega) ' '.toUInt8
  obtain ⟨hw, hlen⟩ := hw.field (w := 2) hlen (by decide) hhourInt (by omega) ':'.toUInt8
  obtain ⟨hw, hlen⟩ := hw.field (w := 2) hlen (by decide) hminuteInt (by omega) ':'.toUInt8
  obtain ⟨hw, hlen⟩ := hw.field (w := 2) hlen (by decide) hsecondInt (by omega) '.'.toUInt8
  obtain ⟨hw, hlen⟩ := hw.field (w := 6) hlen (by decide) hmicrosInt (by omega) 0
  refine ⟨_, ⟨date, ⟨n / 3600, by omega⟩, ⟨n / 60 % 60, by omega⟩, ⟨n % 60, by omega⟩,
    ⟨k / 1000, by omega⟩⟩, ?_, ?_, hw, ?_, ?_⟩
  · simp only [ptpFormatUtc, hsplit, hdays, hcivil, hhour, hminutes, hminute, hsecond, hmicros,
      Option.bind_eq_bind, Option.bind_some]
    rfl
  · rw [List.length_append, List.length_singleton] at hlen
    exact Nat.succ.inj hlen
  · simp only [Stamp.secondOfDay, dayNumber_epoch]
    omega
  · simp only
    omega

/-- The last nanosecond before the epoch, and the day after a leap day. -/
example :
    (ptpFormatUtc .trap (-1) (fun _ => 0)).map (fun b => (List.range 27).map b) =
        some ("1969-12-31 23:59:59.999999".toList.map Char.toUInt8 ++ [0]) ∧
      (ptpFormatUtc .trap 951868800000001000 (fun _ => 0)).map (fun b => (List.range 27).map b) =
        some ("2000-03-01 00:00:00.000001".toList.map Char.toUInt8 ++ [0]) := by
  decide +kernel

end FlintRTOS
