import FlintRTOS.PtpServoPlan

/-!
# Conversions between ticks and nanoseconds

`ticks_to_ns`, `span_ns` and `scale_ppb` each split a product that would not fit
its type into the products of a quotient and of a remainder.  `SplitDomain` is the
range of counter frequencies and spans in which both parts fit, and there the three
functions return the quotient of the whole product.

A clock that is anchored anew truncates twice where it truncated once before.
`exactTicks_add` and `advance_add` count what each truncation can lose.
-/

namespace FlintRTOS

/-! ### The conversions -/

/-- A frequency of at most 9 GHz and a span of less than `9 * 10^9` seconds. -/
structure SplitDomain (freq : UInt64) (dt : Int) : Prop where
  pos : 0 < freq.toNat
  le : freq.toNat ≤ 9000000000
  span : |dt| < 9000000000 * freq.toNat

variable {freq : UInt64}

theorem SplitDomain.toInt_freq {dt : Int} (h : SplitDomain freq dt) :
    freq.toInt64.toInt = freq.toNat := by
  have hle := h.le
  exact Overflow.toInt_toInt64 (by omega)

/-- Quotient and remainder of the span, and what each contributes in nanoseconds. -/
theorem SplitDomain.parts {dt : Int} (h : SplitDomain freq dt) :
    |dt.tdiv freq.toNat| ≤ 8999999999 ∧ |dt.tmod freq.toNat| < 9000000000 ∧
      |(dt.tmod freq.toNat * 1000000000).tdiv freq.toNat| < 1000000000 := by
  obtain ⟨hpos, hle, hspan⟩ := h
  have hquot : (dt.tdiv freq.toNat).natAbs = dt.natAbs / freq.toNat := Int.natAbs_tdiv dt freq.toNat
  have hrem : (dt.tmod freq.toNat).natAbs = dt.natAbs % freq.toNat := Int.natAbs_tmod dt freq.toNat
  have hlt : dt.natAbs % freq.toNat < freq.toNat := Nat.mod_lt _ hpos
  have hsecs : dt.natAbs / freq.toNat < 9000000000 := by
    rw [abs_lt] at hspan
    exact Nat.div_lt_of_lt_mul (by rw [Nat.mul_comm]; omega)
  have hpart : ((dt.tmod freq.toNat * 1000000000).tdiv freq.toNat).natAbs =
      dt.natAbs % freq.toNat * 1000000000 / freq.toNat := by
    rw [Int.natAbs_tdiv, Int.natAbs_mul, hrem]
    rfl
  have hns : dt.natAbs % freq.toNat * 1000000000 / freq.toNat < 1000000000 :=
    Nat.div_lt_of_lt_mul (Nat.mul_lt_mul_of_pos_right hlt (by decide))
  rw [abs_le, abs_lt, abs_lt]
  omega

theorem exists_ticksToNs (o : Overflow) {dt : Int64} (h : SplitDomain freq dt.toInt) :
    ∃ ns, ticksToNs o freq dt = some ns ∧
      ns.toInt = (dt.toInt * 1000000000).tdiv freq.toNat := by
  have hf := h.toInt_freq
  have hpos := h.pos
  have hscale : nsPerS.toInt = 1000000000 := rfl
  have hcond : ¬ freq.toInt64 ≤ 0 := by
    rw [Int64.le_iff_toInt_le, hf, Int64.toInt_zero]
    omega
  have hne : (freq.toNat : Int) ≠ 0 := by omega
  obtain ⟨hquot, hrem, hpart⟩ := h.parts
  rw [abs_le] at hquot
  rw [abs_lt] at hrem hpart
  rw [← Overflow.tdiv_mul_split _ _ (by omega : (0 : Int) < freq.toNat)]
  unfold ticksToNs
  rw [if_neg hcond]
  refine Overflow.exists_bind (o.exists_tdiv rfl hf hne (by constructor <;> omega)) fun secs hsecs => ?_
  refine Overflow.exists_bind (o.exists_tmod rfl hf hne (by constructor <;> omega)) fun rem hrem' => ?_
  refine Overflow.exists_bind (o.exists_mul hsecs hscale (by constructor <;> omega)) fun whole hwhole => ?_
  refine Overflow.exists_bind (o.exists_mul hrem' hscale (by constructor <;> omega)) fun prod hprod => ?_
  refine Overflow.exists_bind (o.exists_tdiv hprod hf hne (by constructor <;> omega)) fun part hpart' => ?_
  exact o.exists_add hwhole hpart' (by constructor <;> omega)

theorem exists_scalePpb (o : Overflow) (d : Int64) {ppb : Int32} (h : |ppb.toInt| ≤ 500000) :
    ∃ r, scalePpb o d ppb = some r ∧ r.toInt = (d.toInt * ppb.toInt).tdiv 1000000000 := by
  have hscale : nsPerS.toInt = 1000000000 := rfl
  have hne : (1000000000 : Int) ≠ 0 := by decide
  have hppb : ppb.toInt64.toInt = ppb.toInt := Int32.toInt_toInt64 ppb
  have hlow := d.le_toInt
  have hhigh := d.toInt_lt
  -- the two factors of each product are bounded apart
  have hwholeBound : |d.toInt.tdiv 1000000000| ≤ 9223372037 :=
    Overflow.abs_tdiv_le (by decide) (Int.le_refl _) (by rw [abs_le]; omega)
  have hfracBound : |d.toInt.tmod 1000000000| ≤ 1000000000 :=
    (Overflow.abs_tmod_lt _ (by decide)).le
  have hmain : |d.toInt.tdiv 1000000000 * ppb.toInt| ≤ 9223372037 * 500000 := by
    rw [abs_mul]
    exact mul_le_mul hwholeBound h (abs_nonneg _) (by decide)
  have hpart : |d.toInt.tmod 1000000000 * ppb.toInt| ≤ 1000000000 * 500000 := by
    rw [abs_mul]
    exact mul_le_mul hfracBound h (abs_nonneg _) (by decide)
  have hquot : |(d.toInt.tmod 1000000000 * ppb.toInt).tdiv 1000000000| ≤ 500000 :=
    Overflow.abs_tdiv_le (by decide) (Int.le_refl _) hpart
  rw [abs_le] at hwholeBound hfracBound hmain hpart hquot
  rw [← Overflow.tdiv_mul_split _ _ (by decide)]
  unfold scalePpb
  refine Overflow.exists_bind (o.exists_tdiv rfl hscale hne (by constructor <;> omega)) fun whole hwhole => ?_
  refine Overflow.exists_bind (o.exists_tmod rfl hscale hne (by constructor <;> omega)) fun frac hfrac => ?_
  refine Overflow.exists_bind (o.exists_mul hwhole hppb (by constructor <;> omega)) fun main hmain' => ?_
  refine Overflow.exists_bind (o.exists_mul hfrac hppb (by constructor <;> omega)) fun prod hprod => ?_
  refine Overflow.exists_bind (o.exists_tdiv hprod hscale hne (by constructor <;> omega))
    fun quot hquot' => ?_
  exact o.exists_add hmain' hquot' (by constructor <;> omega)

/-- The unsigned parts of a span in the domain, as `span_ns` computes them. -/
theorem SplitDomain.span_parts {start stop : UInt64} (h : SplitDomain freq (stop - start).toNat) :
    (stop - start).toNat / freq.toNat * 1000000000 < 2 ^ 63 ∧
      (stop - start).toNat % freq.toNat * 1000000000 < 2 ^ 64 ∧
      elapsedNs freq start stop < 2 ^ 63 := by
  obtain ⟨hpos, hle, hspan⟩ := h
  have hlt : (stop - start).toNat % freq.toNat < freq.toNat := Nat.mod_lt _ hpos
  have hsecs : (stop - start).toNat / freq.toNat < 9000000000 := by
    refine Nat.div_lt_of_lt_mul ?_
    rw [Nat.abs_cast] at hspan
    rw [Nat.mul_comm]
    omega
  have hns : (stop - start).toNat % freq.toNat * 1000000000 / freq.toNat < 1000000000 :=
    Nat.div_lt_of_lt_mul (Nat.mul_lt_mul_of_pos_right hlt (by decide))
  rw [elapsedNs, mul_div_split _ _ hpos]
  omega

/-- In the domain each conversion returns the quotient of the whole product,
    truncated towards zero, whatever overflow would do: no signed operation
    overflows.  The unsigned products of `span_ns` do not wrap either, and on a
    span that is not negative it agrees with `ticks_to_ns`. -/
theorem split_conversions_exact (o : Overflow) (freq : UInt64) (hpos : 0 < freq.toNat)
    (hle : freq.toNat ≤ 9000000000) :
    (∀ dt : Int64, |dt.toInt| < 9000000000 * freq.toNat →
      ∃ ns, ticksToNs o freq dt = some ns ∧
        ns.toInt = (dt.toInt * 1000000000).tdiv freq.toNat) ∧
      (∀ start stop : UInt64, 0 ≤ (stop - start).toInt64 →
        |(stop - start).toInt64.toInt| < 9000000000 * freq.toNat →
        ticksToNs o freq (stop - start).toInt64 = some (spanNs freq start stop) ∧
          (stop - start).toNat / freq.toNat * 1000000000 < 2 ^ 64 ∧
          (stop - start).toNat % freq.toNat * 1000000000 < 2 ^ 64 ∧
          (stop - start).toNat / freq.toNat * 1000000000 +
            (stop - start).toNat % freq.toNat * 1000000000 / freq.toNat < 2 ^ 63) ∧
      ∀ (d : Int64) (ppb : Int32), |ppb.toInt| ≤ 500000 →
        ∃ r, scalePpb o d ppb = some r ∧
          r.toInt = (d.toInt * ppb.toInt).tdiv 1000000000 := by
  refine ⟨fun dt hdt => exists_ticksToNs o ⟨hpos, hle, hdt⟩, ?_,
    fun d ppb hppb => exists_scalePpb o d hppb⟩
  intro start stop hnonneg hspan
  have hlt : (stop - start).toNat < 2 ^ 63 := Overflow.toNat_lt_of_nonneg hnonneg
  have hint := Overflow.toInt_toInt64 hlt
  have hdomain : SplitDomain freq (stop - start).toNat := ⟨hpos, hle, by rwa [hint] at hspan⟩
  obtain ⟨hwhole, hrem, helapsed⟩ := hdomain.span_parts
  have hsigned : SplitDomain freq (stop - start).toInt64.toInt := ⟨hpos, hle, hspan⟩
  obtain ⟨ns, hns, hnsInt⟩ := exists_ticksToNs o hsigned
  have heq : ns = spanNs freq start stop := by
    refine Int64.toInt_inj.mp ?_
    rw [hnsInt, toInt_spanNs (.inr ⟨hrem, helapsed⟩), hint, elapsedNs, Int.ofNat_tdiv,
      Nat.cast_mul, Nat.cast_ofNat]
  refine ⟨heq ▸ hns, hwhole.trans (by decide), hrem, ?_⟩
  rwa [elapsedNs, mul_div_split _ _ hpos] at helapsed

/-- A counter of 54 MHz over three seconds and a tick, at the slew limit. -/
theorem split_conversions_exact_three_seconds :
    ticksToNs .trap 54000000 162000001 = some (spanNs 54000000 7 162000008) ∧
      ∃ r, scalePpb .trap (-3000000018) 500000 = some r ∧
        r.toInt = (-3000000018 * 500000 : Int).tdiv 1000000000 := by
  obtain ⟨_, hspan, hscale⟩ :=
    split_conversions_exact .trap 54000000 (by decide) (by decide)
  exact ⟨(hspan 7 162000008 (by decide) (by decide)).1, hscale _ _ (by decide)⟩

/-! ### Re-anchoring -/

/-- Converting a span in two parts loses at most one nanosecond. -/
theorem exactTicks_add (f : Int) {a b : Int} (ha : 0 ≤ a) (hb : 0 ≤ b) :
    exactTicks f a + exactTicks f b ≤ exactTicks f (a + b) ∧
      exactTicks f (a + b) ≤ exactTicks f a + exactTicks f b + 1 := by
  unfold exactTicks
  split
  · decide
  · rename_i hf
    rw [Int.add_mul]
    exact Overflow.tdiv_add_of_nonneg (by omega) (by omega) (by omega)

/-- The correction of a span and of its two parts, one nanosecond apart or none:
    truncating the parts loses at most one more, and so does the nanosecond's own
    share when it carries. -/
theorem advance_add {ppb d₁ d₂ d : Int} (hppb : |ppb| ≤ 500000) (hd₁ : 0 ≤ d₁) (hd₂ : 0 ≤ d₂)
    (hlow : d₁ + d₂ ≤ d) (hhigh : d ≤ d₁ + d₂ + 1) :
    |advance ppb d₁ + advance ppb d₂ - advance ppb d| ≤ 3 := by
  -- for a correction of either sign the three products are not negative
  have hscaled : ∀ p : Int, 0 ≤ p → p ≤ 500000 →
      (d₁ * p).tdiv 1000000000 + (d₂ * p).tdiv 1000000000 ≤ (d * p).tdiv 1000000000 ∧
        (d * p).tdiv 1000000000 ≤
          (d₁ * p).tdiv 1000000000 + (d₂ * p).tdiv 1000000000 + 2 := by
    intro p hp hple
    have h₁ : 0 ≤ d₁ * p := Int.mul_nonneg hd₁ hp
    have h₂ : 0 ≤ d₂ * p := Int.mul_nonneg hd₂ hp
    have h : d * p = d₁ * p + d₂ * p + (d - d₁ - d₂) * p := by ring
    have hrest : (d - d₁ - d₂) * p = 0 ∨ (d - d₁ - d₂) * p = p := by
      rcases lt_or_ge (d₁ + d₂) d with hlt | hge
      · rw [show d - d₁ - d₂ = 1 by omega, Int.one_mul]
        exact .inr rfl
      · rw [show d - d₁ - d₂ = 0 by omega, Int.zero_mul]
        exact .inl rfl
    rw [Int.tdiv_eq_ediv_of_nonneg h₁, Int.tdiv_eq_ediv_of_nonneg h₂,
      Int.tdiv_eq_ediv_of_nonneg (by omega)]
    omega
  rw [abs_le] at hppb ⊢
  unfold advance
  rcases Int.le_total 0 ppb with hsign | hsign
  · have h := hscaled ppb hsign (by omega)
    omega
  · have h := hscaled (-ppb) (by omega) (by omega)
    rw [scaled_neg d₁, scaled_neg d₂, scaled_neg d]
    omega

theorem clampFreq_of_abs_le {ppb : Int32} (h : |ppb.toInt| ≤ 500000) : clampFreq ppb = ppb := by
  have hmax : ptpClockMaxPpb.toInt = 500000 := rfl
  have hmin : (-ptpClockMaxPpb).toInt = -500000 := rfl
  rw [abs_le] at h
  have hhigh : ¬ ptpClockMaxPpb < ppb := by
    rw [Int32.lt_iff_toInt_lt]
    omega
  have hlow : ¬ ppb < -ptpClockMaxPpb := by
    rw [Int32.lt_iff_toInt_lt]
    omega
  simp only [clampFreq, gt_iff_lt, if_neg hhigh, if_neg hlow]

/-- Both ways of anchoring anew leave the rate and move the anchor onto the map. -/
theorem reanchored {now : UInt64} {c c' : PtpClock} (hppb : |c.ppb.toInt| ≤ 500000)
    (h : ptpClockAdjfreq .trap freq now c.ppb c = some c' ∨
      ptpClockStep .trap freq now 0 c = some c') :
    ptpClockFromCnt .trap freq c now = some c'.baseNs ∧ c'.baseCnt = now ∧ c'.ppb = c.ppb := by
  rcases h with h | h
  · obtain ⟨ns, hns, rfl⟩ := ptpClockAdjfreq_spec h
    exact ⟨hns, rfl, clampFreq_of_abs_le hppb⟩
  · obtain ⟨ns, ns', hns, hadd, rfl⟩ := ptpClockStep_spec h
    rw [Overflow.add_zero] at hadd
    cases hadd
    exact ⟨hns, rfl, rfl⟩

/-- Anchoring the clock anew at `now` without a change of rate moves its reading at
    any later counter value by at most 3 ns.  Nothing overflows: no operation of the
    three functions, and the span from the anchor fits its signed type. -/
theorem reanchoring_within_three_ns {freq now cnt : UInt64} {c c' : PtpClock} {v v' : Int64}
    (hppb : |c.ppb.toInt| ≤ 500000) (hnow : c.baseCnt ≤ now) (hcnt : now ≤ cnt)
    (hspan : (cnt - c.baseCnt).toNat < 2 ^ 63)
    (h : ptpClockAdjfreq .trap freq now c.ppb c = some c' ∨
      ptpClockStep .trap freq now 0 c = some c')
    (hv : ptpClockFromCnt .trap freq c cnt = some v)
    (hv' : ptpClockFromCnt .trap freq c' cnt = some v') : |v'.toInt - v.toInt| ≤ 3 := by
  obtain ⟨hns, hbase, hrate⟩ := reanchored hppb h
  have hnow' := UInt64.le_iff_toNat_le.mp hnow
  have hcnt' := UInt64.le_iff_toNat_le.mp hcnt
  have hwhole : (cnt - c.baseCnt).toNat = cnt.toNat - c.baseCnt.toNat :=
    UInt64.toNat_sub_of_le _ _ (UInt64.le_trans hnow hcnt)
  have hfirst : (now - c.baseCnt).toNat = now.toNat - c.baseCnt.toNat :=
    UInt64.toNat_sub_of_le _ _ hnow
  have hsecond : (cnt - now).toNat = cnt.toNat - now.toNat := UInt64.toNat_sub_of_le _ _ hcnt
  have hread := ptpClockFromCnt_exact hv
  have hread' := ptpClockFromCnt_exact hv'
  have hanchor := ptpClockFromCnt_exact hns
  rw [Overflow.toInt_toInt64 hspan] at hread
  rw [Overflow.toInt_toInt64 (x := now - c.baseCnt) (by omega)] at hanchor
  rw [hbase, hrate, Overflow.toInt_toInt64 (x := cnt - now) (by omega), hanchor] at hread'
  have hsplit : ((cnt - c.baseCnt).toNat : Int) = (now - c.baseCnt).toNat + (cnt - now).toNat := by
    omega
  rw [hsplit] at hread
  obtain ⟨hlow, hhigh⟩ := exactTicks_add freq.toInt64.toInt
    (Int.natCast_nonneg (now - c.baseCnt).toNat) (Int.natCast_nonneg (cnt - now).toNat)
  have hnonneg : ∀ n : Nat, 0 ≤ exactTicks freq.toInt64.toInt n := by
    intro n
    have hmono := exactTicks_mono freq.toInt64.toInt (Int.natCast_nonneg n)
    rwa [exactTicks_zero] at hmono
  have hbound := advance_add hppb (hnonneg _) (hnonneg _) hlow hhigh
  rw [hread, hread']
  rw [abs_le] at hbound ⊢
  omega

/-- At 54 MHz and the slew limit a reading does move, by 2 ns. -/
theorem reanchoring_within_three_ns_moved :
    ∃ c' v v', ptpClockAdjfreq .trap 54000000 1 500000 ⟨0, 0, 500000, 0⟩ = some c' ∧
      ptpClockFromCnt .trap 54000000 ⟨0, 0, 500000, 0⟩ 108 = some v ∧
      ptpClockFromCnt .trap 54000000 c' 108 = some v' ∧ v.toInt - v'.toInt = 2 ∧
      |v'.toInt - v.toInt| ≤ 3 := by
  have hadj : ptpClockAdjfreq .trap 54000000 1 500000 ⟨0, 0, 500000, 0⟩ =
      some ⟨1, 18, 500000, 0⟩ := by decide +kernel
  have hv : ptpClockFromCnt .trap 54000000 ⟨0, 0, 500000, 0⟩ 108 = some 2001 := by decide +kernel
  have hv' : ptpClockFromCnt .trap 54000000 ⟨1, 18, 500000, 0⟩ 108 = some 1999 := by
    decide +kernel
  exact ⟨_, _, _, hadj, hv, hv', by decide, reanchoring_within_three_ns (by decide) (by decide)
    (by decide) (by decide) (.inl hadj) hv hv'⟩

end FlintRTOS
