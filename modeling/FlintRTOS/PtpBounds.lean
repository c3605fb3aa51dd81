import FlintRTOS.PtpDelay

/-!
# Reads stay within the message

In the model a read past the end of the received bytes is `none`, and so is the call
that makes it.  What else could stop a call is an overflow that traps, a division by
zero or a lookup in the filter past its end; so for every `Overflow` under which
computations continue, a call that returns has read only bytes that are there.

Each function has its bound: how long the message must be for its reads.
-/

namespace FlintRTOS

theorem isSome_bind {α β : Type} {x : Option α} {f : α → Option β} (hx : x.isSome)
    (hf : ∀ a, x = some a → (f a).isSome) : (x.bind f).isSome := by
  obtain ⟨a, ha⟩ := Option.isSome_iff_exists.mp hx
  rw [ha]
  exact hf a ha

/-! ### Readers -/

variable {b : Bytes} {i : Nat}

theorem isSome_getElem (h : i < b.length) : b[i]?.isSome := by
  rw [List.getElem?_eq_getElem h]
  rfl

theorem isSome_rd16 (h : i + 2 ≤ b.length) : (rd16 b i).isSome := by
  refine isSome_bind (isSome_getElem (by omega)) fun _ _ => ?_
  exact isSome_bind (isSome_getElem (by omega)) fun _ _ => rfl

theorem isSome_rd32 (h : i + 4 ≤ b.length) : (rd32 b i).isSome := by
  refine isSome_bind (isSome_getElem (by omega)) fun _ _ => ?_
  refine isSome_bind (isSome_getElem (by omega)) fun _ _ => ?_
  refine isSome_bind (isSome_getElem (by omega)) fun _ _ => ?_
  exact isSome_bind (isSome_getElem (by omega)) fun _ _ => rfl

theorem isSome_rdShift {n : Nat} :
    ∀ {i : Nat} (v : UInt64), i + n ≤ b.length →
    (rdShift b i n v).isSome := by
  induction n with
  | zero => exact fun _ _ => rfl
  | succ n ih =>
    intro i v h
    exact isSome_bind (isSome_getElem (by omega)) fun _ _ => ih _ (by omega)

section continues

variable {o : Overflow} (ho : o.Continues)

include ho

theorem isSome_rdTsNs {b : Bytes} {i : Nat} (h : i + 10 ≤ b.length) : (rdTsNs o b i).isSome := by
  refine isSome_bind (isSome_rdShift 0 (by omega)) fun _ _ => ?_
  refine isSome_bind (isSome_rd32 (by omega)) fun _ _ => ?_
  exact isSome_bind (ho.to64 _) fun _ _ => ho.to64 _

theorem isSome_rdCorrNs {b : Bytes} (h : 16 ≤ b.length) : (rdCorrNs o b).isSome :=
  isSome_bind (isSome_rdShift 0 (by omega)) fun _ _ => ho.div _ (by decide)

/-! ### The clock and the servo -/

variable (freq : UInt64)

theorem isSome_ticksToNs (dt : Int64) : (ticksToNs o freq dt).isSome := by
  simp only [ticksToNs]
  split
  · rfl
  · rename_i hpos
    have hne : freq.toInt64 ≠ 0 := by
      intro hzero
      rw [hzero] at hpos
      exact hpos (by decide)
    refine isSome_bind (ho.div _ hne) fun _ _ => ?_
    refine isSome_bind (ho.mod _ hne) fun _ _ => ?_
    refine isSome_bind (ho.to64 _) fun _ _ => ?_
    refine isSome_bind (ho.to64 _) fun _ _ => ?_
    exact isSome_bind (ho.div _ hne) fun _ _ => ho.to64 _

theorem isSome_scalePpb (d : Int64) (ppb : Int32) : (scalePpb o d ppb).isSome := by
  refine isSome_bind (ho.div _ (by decide)) fun _ _ => ?_
  refine isSome_bind (ho.mod _ (by decide)) fun _ _ => ?_
  refine isSome_bind (ho.to64 _) fun _ _ => ?_
  refine isSome_bind (ho.to64 _) fun _ _ => ?_
  exact isSome_bind (ho.div _ (by decide)) fun _ _ => ho.to64 _

theorem isSome_ptpClockFromCnt (c : PtpClock) (cnt : UInt64) : (ptpClockFromCnt o freq c cnt).isSome := by
  refine isSome_bind (isSome_ticksToNs ho freq _) fun _ _ => ?_
  refine isSome_bind (ho.to64 _) fun _ _ => ?_
  exact isSome_bind (isSome_scalePpb ho _ _) fun _ _ => ho.to64 _

theorem isSome_rebase (now : UInt64) (c : PtpClock) : (rebase o freq now c).isSome :=
  isSome_bind (isSome_ptpClockFromCnt ho freq c now) fun _ _ => rfl

theorem isSome_ptpClockStep (now : UInt64) (deltaNs : Int64) (c : PtpClock) :
    (ptpClockStep o freq now deltaNs c).isSome := by
  refine isSome_bind (isSome_rebase ho freq now c) fun _ _ => ?_
  exact isSome_bind (ho.to64 _) fun _ _ => rfl

theorem isSome_ptpClockAdjfreq (now : UInt64) (ppb : Int32) (c : PtpClock) :
    (ptpClockAdjfreq o freq now ppb c).isSome :=
  isSome_bind (isSome_rebase ho freq now c) fun _ _ => rfl

theorem isSome_abs64 (v : Int64) : (abs64 o v).isSome := by
  unfold abs64
  split
  · exact ho.to64 _
  · rfl

theorem isSome_doStep (cnt : CntReads) (rawNs d : Int64) (rxCnt : UInt64) (s : PtpServo)
    (c : PtpClock) : (doStep o freq cnt rawNs d rxCnt s c).isSome := by
  refine isSome_bind (ho.to64 _) fun _ _ => ?_
  refine isSome_bind (ho.to64 _) fun _ _ => ?_
  exact isSome_bind (isSome_ptpClockStep ho freq _ _ _) fun _ _ => rfl

theorem isSome_servoSlope (cnt : CntReads) (rawNs delayNs d : Int64) (rxCnt : UInt64) {span : Int64}
    (hspan : span ≠ 0) (s : PtpServo) (c : PtpClock) :
    (servoSlope o freq cnt rawNs delayNs d rxCnt span s c).isSome := by
  refine isSome_bind (ho.to64 _) fun _ _ => ?_
  refine isSome_bind (ho.to64 _) fun _ _ => ?_
  refine isSome_bind (ho.div _ hspan) fun _ _ => ?_
  refine isSome_bind (ho.to64 _) fun _ _ => ?_
  refine isSome_bind (ho.to64 _) fun _ _ => ?_
  refine isSome_bind (isSome_ptpClockAdjfreq ho freq _ _ _) fun _ _ => ?_
  split
  · exact isSome_bind (isSome_doStep ho freq ..) fun _ _ => rfl
  · rfl

omit ho in
/-- The divisors of the controller: the product fits, so it is not zero. -/
theorem mul_span_ne_zero {k span r : Int64} (hk : 0 < k.toInt) (hk' : k.toInt ≤ 20)
    (hspan : 0 < span.toInt) (hspan' : span.toInt ≤ 8000000000) (h : o.mul k span = some r) :
    r ≠ 0 := by
  have hpos : 0 < k.toInt * span.toInt := Int.mul_pos hk hspan
  have hle : k.toInt * span.toInt ≤ 20 * 8000000000 :=
    Int.mul_le_mul hk' hspan' (Int.le_of_lt hspan) (by decide)
  obtain ⟨r', hr', hval⟩ := o.exists_mul (a := k) (b := span) rfl rfl (by constructor <;> omega)
  cases hr'.symm.trans h
  rintro rfl
  rw [← hval] at hpos
  exact absurd hpos (by decide)

omit ho in
theorem steerSpan_pos (start stop : UInt64) :
    let span := spanNs freq start stop
    let used := if span ≤ 0 ∨ span > 8000000000 then nsPerS else span
    0 < used.toInt ∧ used.toInt ≤ 8000000000 := by
  intro span used
  by_cases hout : span ≤ 0 ∨ span > 8000000000
  · simp only [used, if_pos hout]
    decide
  · simp only [used, if_neg hout]
    simp only [not_or, Int64.le_iff_toInt_le, gt_iff_lt, Int64.lt_iff_toInt_lt] at hout
    have hzero : (0 : Int64).toInt = 0 := rfl
    have hmax : (8000000000 : Int64).toInt = 8000000000 := rfl
    omega

theorem isSome_servoSteer (cnt : CntReads) (offset : Int64) (rxCnt : UInt64) (s : PtpServo)
    (c : PtpClock) : (servoSteer o freq cnt offset rxCnt s c).isSome := by
  obtain ⟨hpos, hle⟩ := steerSpan_pos freq s.lastCnt rxCnt
  refine isSome_bind (ho.to64 _) fun _ _ => ?_
  refine isSome_bind (ho.to64 _) fun _ _ => ?_
  refine isSome_bind (ho.to64 _) fun _ hten => ?_
  refine isSome_bind (ho.div _ (mul_span_ne_zero (by decide) (by decide) hpos hle hten)) fun _ _ => ?_
  refine isSome_bind (ho.to64 _) fun _ _ => ?_
  refine isSome_bind (ho.to64 _) fun _ _ => ?_
  refine isSome_bind (ho.to64 _) fun _ htwenty => ?_
  refine isSome_bind (ho.div _ (mul_span_ne_zero (by decide) (by decide) hpos hle htwenty))
    fun _ _ => ?_
  refine isSome_bind (ho.to64 _) fun _ _ => ?_
  refine isSome_bind (ho.to64 _) fun _ _ => ?_
  refine isSome_bind (ho.to64 _) fun _ _ => ?_
  exact isSome_bind (isSome_ptpClockAdjfreq ho freq _ _ _) fun _ _ => rfl

theorem isSome_ptpServoSample (cnt : CntReads) (rawNs delayNs : Int64) (rxCnt : UInt64)
    (s : PtpServo) (c : PtpClock) :
    (ptpServoSample o freq cnt rawNs delayNs rxCnt s c).isSome := by
  unfold ptpServoSample
  refine isSome_bind (ho.to64 _) fun offset _ => ?_
  cases s.state with
  | unlocked => exact isSome_bind (isSome_doStep ho freq ..) fun _ _ => rfl
  | stepped =>
    dsimp only
    split
    · rfl
    · rename_i hspan
      have hne : spanNs freq s.refCnt rxCnt ≠ 0 := by
        intro hzero
        rw [hzero] at hspan
        exact hspan (by decide)
      exact isSome_bind (isSome_servoSlope ho freq _ _ _ _ _ hne _ _) fun _ _ => rfl
  | locked =>
    refine isSome_bind (isSome_abs64 ho offset) fun _ _ => ?_
    split
    · dsimp only
      split
      · exact isSome_bind (isSome_doStep ho freq ..) fun _ _ => rfl
      · rfl
    · exact isSome_bind (isSome_servoSteer ho freq ..) fun _ _ => rfl

/-! ### The handlers -/

theorem isSome_countOffset (offset : Int64) (g : PtpCore) : (countOffset o offset g).isSome := by
  unfold countOffset
  split
  · refine isSome_bind (isSome_abs64 ho offset) fun _ _ => ?_
    refine isSome_bind (ho.to64 _) fun _ _ => ?_
    exact isSome_bind (ho.to64 _) fun _ _ => rfl
  · rfl

theorem isSome_ptpCoreUtcNowNs (now : UInt64) (g : PtpCore) (c : PtpClock) :
    (ptpCoreUtcNowNs o freq now g c).isSome := by
  refine isSome_bind (isSome_ptpClockFromCnt ho freq c now) fun _ _ => ?_
  split
  · exact isSome_bind (ho.to64 _) fun _ _ => ho.to64 _
  · rfl

theorem isSome_report (now : UInt64) (offset : Int64) (g : PtpCore) (c : PtpClock) :
    (report o freq now offset g c).isSome := by
  refine isSome_bind (isSome_countOffset ho offset g) fun _ _ => ?_
  refine isSome_bind (isSome_ptpCoreUtcNowNs ho freq ..) fun _ _ => ?_
  split <;> rfl

theorem isSome_syncComplete (cnt : CntReads) (t1 corr : Int64) (g : PtpCore) (c : PtpClock) :
    (syncComplete o freq cnt t1 corr g c).isSome := by
  unfold syncComplete
  split
  · rfl
  · refine isSome_bind (ho.to64 _) fun _ _ => ?_
    refine isSome_bind (ho.to64 _) fun _ _ => ?_
    refine isSome_bind (isSome_ptpServoSample ho freq ..) fun _ _ => ?_
    exact isSome_bind (isSome_report ho freq ..) fun _ _ => rfl

theorem isSome_handleSync (cnt : CntReads) (b : Bytes) (rxCnt : UInt64) (g : PtpCore)
    (c : PtpClock) : (handleSync o freq cnt b rxCnt g c).isSome := by
  unfold handleSync
  split
  · rfl
  · rename_i hlen
    have hlen : 44 ≤ b.length := Nat.not_lt.mp hlen
    refine isSome_bind (isSome_rd16 (by omega)) fun _ _ => ?_
    refine isSome_bind (isSome_ptpClockFromCnt ho freq c rxCnt) fun _ _ => ?_
    refine isSome_bind (isSome_rdCorrNs ho (by omega)) fun _ _ => ?_
    refine isSome_bind (isSome_getElem (by omega)) fun _ _ => ?_
    dsimp only
    split
    · rfl
    · refine isSome_bind (isSome_rdTsNs ho (by omega)) fun _ _ => ?_
      exact isSome_bind (isSome_syncComplete ho freq ..) fun _ _ => rfl

theorem isSome_handleFollowUp (cnt : CntReads) (b : Bytes) (g : PtpCore) (c : PtpClock) :
    (handleFollowUp o freq cnt b g c).isSome := by
  unfold handleFollowUp
  split
  · rfl
  · rename_i hready
    have hlen : 44 ≤ b.length := Nat.not_lt.mp (not_or.mp hready).1
    refine isSome_bind (isSome_rd16 (by omega)) fun _ _ => ?_
    split
    · rfl
    · refine isSome_bind (isSome_rdTsNs ho (by omega)) fun _ _ => ?_
      refine isSome_bind (isSome_rdCorrNs ho (by omega)) fun _ _ => ?_
      refine isSome_bind (ho.to64 _) fun _ _ => ?_
      exact isSome_bind (isSome_syncComplete ho freq ..) fun _ _ => rfl

omit freq in
theorem isSome_delayAdd (sample : Int64) (g : PtpCore) : (delayAdd o sample g).isSome := by
  rw [delayAdd_eq, Option.isSome_map, middleOf_eq o (insertionSort_windowAfter_ne_nil sample g)]
  split
  · rfl
  · exact isSome_bind (ho.to64 _) fun _ _ => ho.div _ (by decide)

omit freq in
theorem isSome_handleDelayResp (b : Bytes) (g : PtpCore) (c : PtpClock) :
    (handleDelayResp o b g c).isSome := by
  unfold handleDelayResp
  split
  · rfl
  · rename_i hready
    have hlen : 54 ≤ b.length := Nat.not_lt.mp (not_or.mp hready).1
    refine isSome_bind (isSome_rd16 (by omega)) fun _ _ => ?_
    refine isSome_bind (Option.isSome_iff_exists.mpr (copyBytes_of_le (by omega))) fun _ _ => ?_
    dsimp only
    split
    · rfl
    split
    · rfl
    refine isSome_bind ?_ fun _ _ => ?_
    · refine isSome_bind (isSome_rdTsNs ho (by omega)) fun _ _ => ?_
      refine isSome_bind (isSome_rdCorrNs ho (by omega)) fun _ _ => ?_
      refine isSome_bind (ho.to64 _) fun _ _ => ?_
      refine isSome_bind (ho.to64 _) fun _ _ => ?_
      exact isSome_bind (ho.to64 _) fun _ _ => ho.div _ (by decide)
    · refine isSome_bind (isSome_abs64 ho _) fun _ _ => ?_
      split
      · rfl
      · exact isSome_bind (isSome_delayAdd ho _ _) fun _ _ => rfl

/-- **Parsing stays within the message.**  Whatever the state of the engine, the bytes and
    the port, no call reads past the end: it returns. -/
theorem rx_reads_in_bounds (cnt : CntReads) (b : Bytes) (port : UInt16) (rxCnt : UInt64)
    (g : PtpCore) (c : PtpClock) :
    (ptpCoreRx o freq cnt b port rxCnt g c).isSome := by
  rw [ptpCoreRx_eq]
  cases rxKind g b port with
  | ignored => rfl
  | announce =>
    obtain ⟨out, hout, _⟩ := handleAnnounce_effect b g c
    exact Option.isSome_iff_exists.mpr ⟨out, hout⟩
  | sync => exact isSome_handleSync ho freq ..
  | followUp => exact isSome_handleFollowUp ho freq ..
  | delayResp => exact isSome_handleDelayResp ho ..

omit ho freq in
/-- A Sync of the master that is a byte too short. -/
theorem rx_reads_in_bounds_truncated :
    Overflow.wrap.Continues ∧
      rxKind { plainCore with haveMaster := true, master := plainDataset 1 0 }
        (plainMsg 0x0 1 1 43) 319 = .sync ∧
      (ptpCoreRx .wrap 1000000000 ⟨0, 0, 0⟩ (plainMsg 0x0 1 1 43) 319 0
        { plainCore with haveMaster := true, master := plainDataset 1 0 } ⟨0, 0, 0, 0⟩).isSome := by
  have hwrap : Overflow.wrap.Continues := fun _ => rfl
  exact ⟨hwrap, by decide +kernel, rx_reads_in_bounds hwrap 1000000000 _ _ _ _ _ _⟩

end continues

end FlintRTOS
