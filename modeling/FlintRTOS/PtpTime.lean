import FlintRTOS.PtpWire

/-!
# Time arithmetic

`ptp_time.c`: times as seconds and nanoseconds of 32 bits each, and as one number of
nanoseconds.  A time is normalised when its nanoseconds are less than a second and do
not have the sign opposite to its seconds, and then its number of nanoseconds
determines it.  `exists_ptpTimeNormalize` is the one fact about the carry that the
arithmetic rests on.
-/

namespace FlintRTOS

section code

variable (o : Overflow)

def ptpTimeAdd (x y : TimeInternal) : Option TimeInternal := do
  let seconds ← o.to32 (x.seconds.toInt + y.seconds.toInt)
  let nanoseconds ← o.to32 (x.nanoseconds.toInt + y.nanoseconds.toInt)
  ptpTimeNormalize o ⟨seconds, nanoseconds⟩

def ptpTimeSub (x y : TimeInternal) : Option TimeInternal := do
  let seconds ← o.to32 (x.seconds.toInt - y.seconds.toInt)
  let nanoseconds ← o.to32 (x.nanoseconds.toInt - y.nanoseconds.toInt)
  ptpTimeNormalize o ⟨seconds, nanoseconds⟩

def ptpTimeToNs (t : TimeInternal) : Option Int64 := do
  o.add (← o.mul t.seconds.toInt64 nsPerS) t.nanoseconds.toInt64

def ptpTimeDiv2 (r : TimeInternal) : Option TimeInternal := do
  let ns ← o.div (← ptpTimeToNs o r) 2
  ptpNsToTime o ns

end code

namespace TimeInternal

/-- The time as a number of nanoseconds. -/
def ns (t : TimeInternal) : Int := t.seconds.toInt * 1000000000 + t.nanoseconds.toInt

structure Normalised (t : TimeInternal) : Prop where
  fraction : |t.nanoseconds.toInt| < 1000000000
  nonneg : 0 < t.seconds.toInt → 0 ≤ t.nanoseconds.toInt
  nonpos : t.seconds.toInt < 0 → t.nanoseconds.toInt ≤ 0

theorem Normalised.eq_of_ns_eq {t t' : TimeInternal} (h : t.Normalised) (h' : t'.Normalised)
    (heq : t.ns = t'.ns) : t = t' := by
  obtain ⟨hfraction, hnonneg, hnonpos⟩ := h
  obtain ⟨hfraction', hnonneg', hnonpos'⟩ := h'
  rw [abs_lt] at hfraction hfraction'
  unfold ns at heq
  have hseconds : t.seconds.toInt = t'.seconds.toInt := by omega
  have hnanoseconds : t.nanoseconds.toInt = t'.nanoseconds.toInt := by omega
  cases t
  cases t'
  exact congrArg₂ TimeInternal.mk (Int32.toInt_inj.mp hseconds) (Int32.toInt_inj.mp hnanoseconds)

end TimeInternal

open TimeInternal Overflow

/-- With room for the seconds carried out of the nanoseconds, normalising keeps the
    time. -/
theorem exists_ptpTimeNormalize (o : Overflow) {t : TimeInternal}
    (h : Fits32 (t.seconds.toInt + t.nanoseconds.toInt.tdiv 1000000000)) :
    ∃ r, ptpTimeNormalize o t = some r ∧ r.Normalised ∧ r.ns = t.ns := by
  have hzero : (0 : Int32).toInt = 0 := rfl
  have hdiv := Int.tmod_add_tdiv_mul t.nanoseconds.toInt 1000000000
  have hrem : |t.nanoseconds.toInt.tmod 1000000000| < 1000000000 :=
    abs_tmod_lt _ (by decide)
  obtain ⟨seconds, hseconds, hsecondsInt⟩ := o.exists_to32 h
  rw [abs_lt] at hrem
  obtain ⟨nanos, hnanos, hnanosInt⟩ :=
    o.exists_to32 (z := t.nanoseconds.toInt.tmod 1000000000) (by constructor <;> omega)
  have hvalue : seconds.toInt * 1000000000 + nanos.toInt = t.ns := by
    rw [TimeInternal.ns]
    omega
  obtain ⟨hlow, hhigh⟩ := h
  simp only [ptpTimeNormalize, hseconds, hnanos, Option.bind_eq_bind, Option.bind_some, gt_iff_lt,
    Int32.lt_iff_toInt_lt, hzero]
  split
  · obtain ⟨s, hs, hsInt⟩ := o.exists_to32 (z := seconds.toInt - 1) (by constructor <;> omega)
    obtain ⟨n, hn, hnInt⟩ :=
      o.exists_to32 (z := nanos.toInt + 1000000000) (by constructor <;> omega)
    rw [hs, hn]
    refine ⟨⟨s, n⟩, rfl, ⟨abs_lt.mpr ?_, ?_, ?_⟩, ?_⟩ <;> simp only [TimeInternal.ns] <;> omega
  split
  · obtain ⟨s, hs, hsInt⟩ := o.exists_to32 (z := seconds.toInt + 1) (by constructor <;> omega)
    obtain ⟨n, hn, hnInt⟩ :=
      o.exists_to32 (z := nanos.toInt - 1000000000) (by constructor <;> omega)
    rw [hs, hn]
    refine ⟨⟨s, n⟩, rfl, ⟨abs_lt.mpr ?_, ?_, ?_⟩, ?_⟩ <;> simp only [TimeInternal.ns] <;> omega
  · refine ⟨⟨seconds, nanos⟩, rfl, ⟨abs_lt.mpr ?_, ?_, ?_⟩, hvalue⟩ <;> simp only <;> omega

/-- Room for one more second on either side. -/
def FitsMargin (seconds : Int) : Prop := Fits32 (seconds - 1) ∧ Fits32 (seconds + 1)

instance (seconds : Int) : Decidable (FitsMargin seconds) := inferInstanceAs (Decidable (_ ∧ _))

/-- Seconds and nanoseconds put together from two normalised times: the nanoseconds
    carry at most one second. -/
theorem exists_carry (o : Overflow) {s n : Int} (hs : FitsMargin s) (hn : |n| < 2000000000) :
    ∃ seconds nanoseconds r, o.to32 s = some seconds ∧ o.to32 n = some nanoseconds ∧
      ptpTimeNormalize o ⟨seconds, nanoseconds⟩ = some r ∧ r.Normalised ∧
      r.ns = s * 1000000000 + n := by
  obtain ⟨⟨hlow, hsub⟩, hadd, hhigh⟩ := hs
  have hcarry : |n.tdiv 1000000000| ≤ 1 := by
    have hnat : (n.tdiv 1000000000).natAbs = n.natAbs / 1000000000 := Int.natAbs_tdiv _ _
    rw [abs_lt] at hn
    rw [abs_le]
    omega
  rw [abs_lt] at hn
  rw [abs_le] at hcarry
  obtain ⟨seconds, hseconds, hsecondsInt⟩ := o.exists_to32 (z := s) (by constructor <;> omega)
  obtain ⟨nanoseconds, hnanos, hnanosInt⟩ := o.exists_to32 (z := n) (by constructor <;> omega)
  obtain ⟨r, hr, hnormal, hns⟩ := exists_ptpTimeNormalize o (t := ⟨seconds, nanoseconds⟩)
    (by simp only [hsecondsInt, hnanosInt]; constructor <;> omega)
  refine ⟨seconds, nanoseconds, r, hseconds, hnanos, hr, hnormal, ?_⟩
  rw [hns, TimeInternal.ns, hsecondsInt, hnanosInt]

theorem exists_ptpTimeAdd (o : Overflow) {x y : TimeInternal} (hx : x.Normalised)
    (hy : y.Normalised) (h : FitsMargin (x.seconds.toInt + y.seconds.toInt)) :
    ∃ r, ptpTimeAdd o x y = some r ∧ r.Normalised ∧ r.ns = x.ns + y.ns := by
  have hxfraction := abs_lt.mp hx.fraction
  have hyfraction := abs_lt.mp hy.fraction
  obtain ⟨seconds, nanoseconds, r, hseconds, hnanos, hr, hnormal, hns⟩ :=
    exists_carry o (n := x.nanoseconds.toInt + y.nanoseconds.toInt) h (abs_lt.mpr (by omega))
  refine ⟨r, ?_, hnormal, ?_⟩
  · simp only [ptpTimeAdd, hseconds, hnanos, hr, Option.bind_eq_bind, Option.bind_some]
  · rw [hns]
    unfold TimeInternal.ns
    omega

theorem exists_ptpTimeSub (o : Overflow) {x y : TimeInternal} (hx : x.Normalised)
    (hy : y.Normalised) (h : FitsMargin (x.seconds.toInt - y.seconds.toInt)) :
    ∃ r, ptpTimeSub o x y = some r ∧ r.Normalised ∧ r.ns = x.ns - y.ns := by
  have hxfraction := abs_lt.mp hx.fraction
  have hyfraction := abs_lt.mp hy.fraction
  obtain ⟨seconds, nanoseconds, r, hseconds, hnanos, hr, hnormal, hns⟩ :=
    exists_carry o (n := x.nanoseconds.toInt - y.nanoseconds.toInt) h (abs_lt.mpr (by omega))
  refine ⟨r, ?_, hnormal, ?_⟩
  · simp only [ptpTimeSub, hseconds, hnanos, hr, Option.bind_eq_bind, Option.bind_some]
  · rw [hns]
    unfold TimeInternal.ns
    omega

theorem exists_ptpTimeToNs (o : Overflow) (t : TimeInternal) :
    ∃ v, ptpTimeToNs o t = some v ∧ v.toInt = t.ns := by
  have hscale : nsPerS.toInt = 1000000000 := rfl
  have hlow := t.seconds.le_toInt
  have hhigh := t.seconds.toInt_lt
  have hlow' := t.nanoseconds.le_toInt
  have hhigh' := t.nanoseconds.toInt_lt
  unfold ptpTimeToNs
  refine exists_bind (o.exists_mul (Int32.toInt_toInt64 _) hscale (by constructor <;> omega))
    fun whole hwhole => ?_
  exact o.exists_add hwhole (Int32.toInt_toInt64 _) (by constructor <;> omega)

/-- A number of nanoseconds whose seconds fit is a normalised time. -/
theorem exists_ptpNsToTime (o : Overflow) {v : Int64} (h : Fits32 (v.toInt.tdiv 1000000000)) :
    ∃ r, ptpNsToTime o v = some r ∧ r.Normalised ∧ r.ns = v.toInt := by
  have hscale : nsPerS.toInt = 1000000000 := rfl
  have hne : (1000000000 : Int) ≠ 0 := by decide
  have hdiv := Int.tmod_add_tdiv_mul v.toInt 1000000000
  have hrem := abs_lt.mp (abs_tmod_lt v.toInt (m := 1000000000) (by decide))
  have hcarry : (v.toInt.tmod 1000000000).tdiv 1000000000 = 0 := by
    have hnat : ((v.toInt.tmod 1000000000).tdiv 1000000000).natAbs =
        (v.toInt.tmod 1000000000).natAbs / 1000000000 := Int.natAbs_tdiv _ _
    omega
  obtain ⟨hlow, hhigh⟩ := h
  unfold ptpNsToTime
  refine exists_bind (o.exists_tdiv rfl hscale hne (by constructor <;> omega)) fun secs hsecs => ?_
  refine exists_bind (o.exists_tmod rfl hscale hne (by constructor <;> omega)) fun rem hrem' => ?_
  have hseconds : secs.toInt32.toInt = v.toInt.tdiv 1000000000 := by
    rw [Int64.toInt_toInt32, hsecs]
    exact Int.bmod_eq_of_le (by omega) (by omega)
  have hnanos : rem.toInt32.toInt = v.toInt.tmod 1000000000 := by
    rw [Int64.toInt_toInt32, hrem']
    exact Int.bmod_eq_of_le (by omega) (by omega)
  obtain ⟨r, hr, hnormal, hns⟩ := exists_ptpTimeNormalize o (t := ⟨secs.toInt32, rem.toInt32⟩)
    (by simp only [hseconds, hnanos, hcarry]; constructor <;> omega)
  refine ⟨r, hr, hnormal, ?_⟩
  rw [hns, TimeInternal.ns, hseconds, hnanos]
  omega

theorem ptpNsToTime_ptpTimeToNs (o : Overflow) {t : TimeInternal} (h : t.Normalised) :
    (ptpTimeToNs o t).bind (ptpNsToTime o) = some t := by
  obtain ⟨v, hv, hvInt⟩ := exists_ptpTimeToNs o t
  have hfraction := abs_lt.mp h.fraction
  have hnonneg := h.nonneg
  have hnonpos := h.nonpos
  have hseconds : v.toInt.tdiv 1000000000 = t.seconds.toInt := by
    have hnat : (v.toInt.tdiv 1000000000).natAbs = v.toInt.natAbs / 1000000000 :=
      Int.natAbs_tdiv _ _
    have hdiv := Int.tmod_add_tdiv_mul v.toInt 1000000000
    have hrem : (v.toInt.tmod 1000000000).natAbs = v.toInt.natAbs % 1000000000 :=
      Int.natAbs_tmod _ _
    unfold TimeInternal.ns at hvInt
    omega
  obtain ⟨r, hr, hnormal, hns⟩ := exists_ptpNsToTime o (v := v) (by
    rw [hseconds]
    exact ⟨t.seconds.le_toInt, t.seconds.toInt_lt⟩)
  rw [hv, Option.bind_some, hr, hnormal.eq_of_ns_eq h (hns.trans hvInt)]

theorem exists_ptpTimeDiv2 (o : Overflow) (t : TimeInternal) :
    ∃ r, ptpTimeDiv2 o t = some r ∧ r.Normalised ∧ r.ns = t.ns.tdiv 2 := by
  have hlow := t.seconds.le_toInt
  have hhigh := t.seconds.toInt_lt
  have hlow' := t.nanoseconds.le_toInt
  have hhigh' := t.nanoseconds.toInt_lt
  have hbound : t.ns.natAbs ≤ 2147483651 * 1000000000 := by
    unfold TimeInternal.ns
    omega
  have hhalf : |t.ns.tdiv 2| ≤ 1000000000 * 1073741826 :=
    abs_tdiv_le (by decide) (Int.le_refl 2) (by rw [abs_le]; omega)
  unfold ptpTimeDiv2
  refine exists_bind (exists_ptpTimeToNs o t) fun v hv => ?_
  refine exists_bind (o.exists_tdiv (y := 2) hv rfl (by decide) ?_) fun half hhalfInt => ?_
  · rw [abs_le] at hhalf
    constructor <;> omega
  · rw [← hhalfInt] at hhalf ⊢
    have hseconds := abs_le.mp (abs_tdiv_le (by decide) (Int.le_refl 1000000000) hhalf)
    exact exists_ptpNsToTime o (by constructor <;> omega)

/-- Time arithmetic is exact, whatever overflow would do.  `ptp_time_to_ns` is the
    number of nanoseconds of any time; sums and differences of normalised times whose
    seconds leave room for the carry are normalised and exact; `ptp_ns_to_time` is the
    inverse on normalised times; and halving truncates towards zero. -/
theorem time_arithmetic_exact (o : Overflow) :
    (∀ t : TimeInternal, ∃ v, ptpTimeToNs o t = some v ∧ v.toInt = t.ns) ∧
      (∀ x y : TimeInternal, x.Normalised → y.Normalised →
        FitsMargin (x.seconds.toInt + y.seconds.toInt) →
        ∃ r, ptpTimeAdd o x y = some r ∧ r.Normalised ∧ r.ns = x.ns + y.ns) ∧
      (∀ x y : TimeInternal, x.Normalised → y.Normalised →
        FitsMargin (x.seconds.toInt - y.seconds.toInt) →
        ∃ r, ptpTimeSub o x y = some r ∧ r.Normalised ∧ r.ns = x.ns - y.ns) ∧
      (∀ t : TimeInternal, t.Normalised → (ptpTimeToNs o t).bind (ptpNsToTime o) = some t) ∧
      ∀ t : TimeInternal, ∃ r, ptpTimeDiv2 o t = some r ∧ r.Normalised ∧ r.ns = t.ns.tdiv 2 :=
  ⟨exists_ptpTimeToNs o, fun _ _ => exists_ptpTimeAdd o, fun _ _ => exists_ptpTimeSub o,
    fun _ => ptpNsToTime_ptpTimeToNs o, exists_ptpTimeDiv2 o⟩

/-- Minus half a second and a second and a half: the seconds of the sum and of half the
    difference pass through zero. -/
example :
    ptpTimeAdd .trap ⟨0, -500000000⟩ ⟨1, 500000000⟩ = some ⟨1, 0⟩ ∧
      ptpTimeSub .trap ⟨0, -500000000⟩ ⟨1, 500000000⟩ = some ⟨-2, 0⟩ ∧
      ptpTimeDiv2 .trap ⟨-1, -1⟩ = some ⟨0, -500000000⟩ := by
  decide +kernel

end FlintRTOS
