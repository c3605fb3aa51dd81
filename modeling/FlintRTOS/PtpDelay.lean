import FlintRTOS.PtpEffects
import FlintRTOS.SlidingWindow
import Mathlib.Data.List.GetD

/-!
# The delay filter

`delay_add` keeps the last eight path delays in a ring and takes their median.
`Filtered past g` says what the engine holds after the samples `past` since the last
reset, newest first; `delay_add` keeps it with one sample more.
-/

namespace FlintRTOS

open SlidingWindow

/-! ### The sort -/

theorem sortInsert_perm (v : Int64) (l : List Int64) : (sortInsert v l).Perm (v :: l) := by
  induction l with
  | nil => exact .refl _
  | cons x xs ih =>
    unfold sortInsert
    split
    · exact (ih.cons x).trans (.swap v x xs)
    · exact .refl _

/-- The inner loop runs from the upper end, so the list falls. -/
theorem sortInsert_sorted (v : Int64) {l : List Int64} (h : l.Pairwise (fun x y => y ≤ x)) :
    (sortInsert v l).Pairwise (fun x y => y ≤ x) := by
  induction l with
  | nil => exact List.pairwise_singleton _ _
  | cons x xs ih =>
    obtain ⟨hx, hxs⟩ := List.pairwise_cons.mp h
    unfold sortInsert
    split
    · rename_i hlt
      refine List.pairwise_cons.mpr ⟨fun y hy => ?_, ih hxs⟩
      rcases List.mem_cons.mp ((sortInsert_perm v xs).mem_iff.mp hy) with rfl | hy
      · exact Int64.le_of_lt hlt
      · exact hx y hy
    · rename_i hge
      have hle : x ≤ v := Int64.not_lt.mp hge
      refine List.pairwise_cons.mpr ⟨fun y hy => ?_, h⟩
      rcases List.mem_cons.mp hy with rfl | hy
      · exact hle
      · exact Int64.le_trans (hx y hy) hle

theorem foldl_sortInsert (s : List Int64) : ∀ {l : List Int64}, l.Pairwise (fun x y => y ≤ x) →
    (s.foldl (fun sorted v => sortInsert v sorted) l).Perm (s ++ l) ∧
      (s.foldl (fun sorted v => sortInsert v sorted) l).Pairwise (fun x y => y ≤ x) := by
  -- the outer loop: `l` is the sorted part, `s` what is still to be inserted
  induction s with
  | nil =>
    intro l h
    exact ⟨.refl _, h⟩
  | cons v s ih =>
    intro l h
    obtain ⟨hperm, hsorted⟩ := ih (sortInsert_sorted v h)
    refine ⟨hperm.trans ?_, hsorted⟩
    exact ((sortInsert_perm v l).append_left s).trans List.perm_middle

theorem insertionSort_perm (s : List Int64) : (insertionSort s).Perm s := by
  have hperm := (foldl_sortInsert s List.Pairwise.nil).1
  rw [List.append_nil] at hperm
  exact (List.reverse_perm _).trans hperm

theorem insertionSort_sorted (s : List Int64) : (insertionSort s).Pairwise (· ≤ ·) :=
  List.pairwise_reverse.mpr (foldl_sortInsert s List.Pairwise.nil).2

/-! ### The median -/

/-- The median of the samples as numbers. -/
def medianOf (samples : List Int64) : Int := median (samples.map Int64.toInt)

variable {s samples past : List Int64} {g : PtpCore}

/-- The sorted samples have the median of all in their middle. -/
theorem medianOf_eq_middle (hperm : s.Perm samples) :
    medianOf samples = middle ((insertionSort s).map Int64.toInt) := by
  apply median_eq_middle
  · exact ((insertionSort_perm s).trans hperm).map _
  · apply List.pairwise_map.mpr
    exact (insertionSort_sorted s).imp Int64.le_iff_toInt_le.mp

theorem middle_map_toInt (s : List Int64) :
    middle (s.map Int64.toInt) =
      if s.length % 2 = 1 then (s.getD (s.length / 2) 0).toInt
      else ((s.getD (s.length / 2 - 1) 0).toInt + (s.getD (s.length / 2) 0).toInt).tdiv 2 := by
  have hget : ∀ i, (s.map Int64.toInt).getD i 0 = (s.getD i 0).toInt := fun i =>
    List.getD_map s 0 Int64.toInt
  simp only [middle, List.length_map, hget]

theorem middleOf_eq (o : Overflow) (h : s ≠ []) :
    middleOf o s s.length =
      if s.length % 2 = 1 then some (s.getD (s.length / 2) 0)
      else (o.add (s.getD (s.length / 2 - 1) 0) (s.getD (s.length / 2) 0)).bind (o.div · 2) := by
  have hpos := List.length_pos_iff.mpr h
  have hget : ∀ i, i < s.length → s[i]? = some (s.getD i 0) := by
    intro i hi
    rw [List.getD_eq_getElem s 0 hi, List.getElem?_eq_getElem hi]
  unfold middleOf
  rw [hget (s.length / 2) (by omega), hget (s.length / 2 - 1) (by omega)]
  rfl

theorem middleOf_trap {r : Int64} (h : s ≠ []) (hr : middleOf .trap s s.length = some r) :
    r.toInt = middle (s.map Int64.toInt) := by
  rw [middleOf_eq _ h] at hr
  rw [middle_map_toInt]
  split at hr
  · rename_i hodd
    cases hr
    rw [if_pos hodd]
  · rename_i heven
    obtain ⟨sum, hsum, hdiv⟩ := Option.bind_eq_some_iff.mp hr
    rw [if_neg heven, ← Overflow.trap_add hsum]
    exact Overflow.trap_div hdiv

/-- Samples that are small enough to add do not overflow. -/
theorem exists_middleOf (o : Overflow) (h : s ≠ []) (hsmall : ∀ x ∈ s, |x.toInt| ≤ 10000000) :
    ∃ r, middleOf o s s.length = some r ∧ r.toInt = middle (s.map Int64.toInt) := by
  have hpos := List.length_pos_iff.mpr h
  have hget : ∀ i, i < s.length → |(s.getD i 0).toInt| ≤ 10000000 := by
    intro i hi
    rw [List.getD_eq_getElem s 0 hi]
    exact hsmall _ (List.getElem_mem hi)
  have hlower := abs_le.mp (hget (s.length / 2 - 1) (by omega))
  have hupper := abs_le.mp (hget (s.length / 2) (by omega))
  rw [middleOf_eq o h, middle_map_toInt]
  split
  · exact ⟨_, rfl, rfl⟩
  · refine Overflow.exists_bind (o.exists_add rfl rfl (by constructor <;> omega)) fun sum hsum => ?_
    have hmean := abs_le.mp (Overflow.abs_tdiv_le (z := sum.toInt) (m := 2) (k := 1) (c := 20000000)
      (by decide) (by decide) (abs_le.mpr (by omega)))
    exact o.exists_tdiv (y := 2) hsum rfl (by decide) (by rw [← hsum]; constructor <;> omega)

/-! ### One sample more -/

/-- The delay after the samples `past`, newest first; -1 stands for no measurement. -/
def filteredDelay (past : List Int64) : Int :=
  if past = [] then -1 else medianOf (past.take ptpDelayWin)

/-- What the engine holds after the samples `past` since the last reset. -/
structure Filtered (past : List Int64) (g : PtpCore) : Prop where
  window : Holds g.delayWin.toList g.delayN.val g.delayIdx.val past
  delay : g.delayNs.toInt = filteredDelay past

theorem filtered_resetMeasurements (g : PtpCore) : Filtered [] (resetMeasurements g) :=
  ⟨.empty (by simp), rfl⟩

theorem delayIdx_lt (g : PtpCore) : g.delayIdx.val < 8 := g.delayIdx.isLt

theorem nextIdx_lt (g : PtpCore) : (g.delayIdx.val + 1) % 8 < 8 := Nat.mod_lt _ (by decide)

theorem countAfter_lt (g : PtpCore) (h : g.delayN.val < 8) : g.delayN.val + 1 < 9 :=
  Nat.succ_lt_succ h

def countAfter (g : PtpCore) : Fin 9 :=
  if h : g.delayN.val < 8 then ⟨g.delayN.val + 1, countAfter_lt g h⟩ else g.delayN

/-- The samples that are sorted after one more. -/
def windowAfter (sample : Int64) (g : PtpCore) : List Int64 :=
  (g.delayWin.set g.delayIdx.val sample (delayIdx_lt g)).toList.take (countAfter g).val

def addedDelay (sample delayNs : Int64) (g : PtpCore) : PtpCore :=
  { g with
    delayWin := g.delayWin.set g.delayIdx.val sample (delayIdx_lt g)
    delayIdx := ⟨(g.delayIdx.val + 1) % 8, nextIdx_lt g⟩
    delayN := countAfter g, delayNs := delayNs }

theorem val_countAfter (g : PtpCore) :
    (countAfter g).val = if g.delayN.val < 8 then g.delayN.val + 1 else g.delayN.val := by
  unfold countAfter
  split <;> rfl

theorem length_windowAfter (sample : Int64) (g : PtpCore) :
    (windowAfter sample g).length = (countAfter g).val := by
  have hle := (countAfter g).isLt
  simp only [windowAfter, List.length_take, Vector.length_toList]
  omega

theorem delayAdd_eq (o : Overflow) (sample : Int64) (g : PtpCore) :
    delayAdd o sample g =
      (middleOf o (insertionSort (windowAfter sample g)) (insertionSort (windowAfter sample g)).length).map
        (addedDelay sample · g) := by
  rw [(insertionSort_perm _).length_eq, length_windowAfter, Option.map_eq_bind]
  rfl

theorem Filtered.holds_added (h : Filtered past g) (sample d : Int64) :
    Holds (addedDelay sample d g).delayWin.toList (addedDelay sample d g).delayN.val
      (addedDelay sample d g).delayIdx.val (sample :: past) := by
  have hpush := h.window.push sample
  simp only [Vector.length_toList] at hpush
  simp only [addedDelay, Vector.toList_set, val_countAfter]
  exact hpush

theorem Filtered.window_perm (h : Filtered past g) (sample : Int64) :
    (windowAfter sample g).Perm ((sample :: past).take ptpDelayWin) := by
  have hperm := (h.holds_added sample 0).perm
  rw [Vector.length_toList] at hperm
  exact hperm

/-- The filter takes the sample in when the middle is exact. -/
theorem Filtered.added (h : Filtered past g) {sample d : Int64}
    (hd : d.toInt = middle ((insertionSort (windowAfter sample g)).map Int64.toInt)) :
    Filtered (sample :: past) (addedDelay sample d g) := by
  refine ⟨h.holds_added sample d, ?_⟩
  rw [filteredDelay, if_neg (List.cons_ne_nil _ _), medianOf_eq_middle (h.window_perm sample)]
  exact hd

theorem insertionSort_windowAfter_ne_nil (sample : Int64) (g : PtpCore) :
    insertionSort (windowAfter sample g) ≠ [] := by
  apply List.ne_nil_of_length_pos
  rw [(insertionSort_perm _).length_eq, length_windowAfter, val_countAfter]
  split <;> omega

theorem Filtered.delayAdd_trap {g' : PtpCore} {sample : Int64} (h : Filtered past g)
    (hadd : delayAdd .trap sample g = some g') : Filtered (sample :: past) g' := by
  rw [delayAdd_eq] at hadd
  obtain ⟨d, hd, rfl⟩ := Option.map_eq_some_iff.mp hadd
  exact h.added (middleOf_trap (insertionSort_windowAfter_ne_nil sample g) hd)

/-- The filter never overflows on samples of the range that is accepted. -/
theorem Filtered.exists_delayAdd {sample : Int64} (o : Overflow) (h : Filtered past g)
    (hsmall : ∀ x ∈ sample :: past, |x.toInt| ≤ 10000000) :
    ∃ d, delayAdd o sample g = some (addedDelay sample d g) ∧
      Filtered (sample :: past) (addedDelay sample d g) := by
  obtain ⟨d, hmiddle, hd⟩ := exists_middleOf o (insertionSort_windowAfter_ne_nil sample g) (by
    intro x hx
    have hmem := ((insertionSort_perm _).trans (h.window_perm sample)).mem_iff.mp hx
    exact hsmall x (List.mem_of_mem_take hmem))
  refine ⟨d, ?_, h.added hd⟩
  rw [delayAdd_eq, hmiddle]
  rfl

/-! ### Sequences of samples -/

/-- The samples of a list, in its order, after a reset. -/
def delayAddAll (o : Overflow) (samples : List Int64) (g : PtpCore) : Option PtpCore :=
  samples.foldlM (fun g sample => delayAdd o sample g) (resetMeasurements g)

theorem filtered_foldlM_trap :
    ∀ {past : List Int64} {g g' : PtpCore},
    Filtered past g → samples.foldlM (fun g sample => delayAdd .trap sample g) g = some g' →
    Filtered (samples.reverse ++ past) g' := by
  induction samples with
  | nil =>
    intro past g g' h hrun
    cases hrun
    exact h
  | cons sample samples ih =>
    intro past g g' h hrun
    rw [List.foldlM_cons] at hrun
    obtain ⟨g₁, hadd, hrest⟩ := Option.bind_eq_some_iff.mp hrun
    rw [List.reverse_cons, List.append_assoc]
    exact ih (h.delayAdd_trap hadd) hrest

theorem filtered_foldlM (o : Overflow) :
    ∀ {past : List Int64} {g : PtpCore},
    Filtered past g → (∀ x ∈ samples.reverse ++ past, |x.toInt| ≤ 10000000) →
    ∃ g', samples.foldlM (fun g sample => delayAdd o sample g) g = some g' ∧
      Filtered (samples.reverse ++ past) g' := by
  induction samples with
  | nil =>
    intro past g h _
    exact ⟨g, rfl, h⟩
  | cons sample samples ih =>
    intro past g h hsmall
    rw [List.reverse_cons, List.append_assoc] at hsmall
    obtain ⟨d, hadd, hfiltered⟩ := h.exists_delayAdd o fun x hx =>
      hsmall x (List.mem_append_right _ hx)
    obtain ⟨g', hrest, hend⟩ := ih hfiltered hsmall
    refine ⟨g', ?_, ?_⟩
    · rw [List.foldlM_cons, hadd]
      exact hrest
    · rw [List.reverse_cons, List.append_assoc]
      exact hend

/-- A path delay is half of a sum, so it has a magnitude whatever overflow does. -/
theorem abs_delaySampleOf {o : Overflow} {b : Bytes} {msLeg t3 sample : Int64}
    (h : delaySampleOf o b msLeg t3 = some sample) : |sample.toInt| < 2 ^ 63 := by
  simp only [delaySampleOf, Option.bind_eq_bind, Option.bind_eq_some_iff] at h
  obtain ⟨_, _, _, _, _, _, _, _, sum, _, hdiv⟩ := h
  have hle : |sum.toInt.tdiv 2| ≤ 4611686018427387904 := by
    refine Overflow.abs_tdiv_le (k := 2) (by decide) (by decide) ?_
    have hlow := sum.le_toInt
    have hhigh := sum.toInt_lt
    rw [abs_le]
    omega
  have hle' := abs_le.mp hle
  obtain ⟨r, hr, hquot⟩ := o.exists_div (a := sum) (b := 2) (by decide)
    (by show Fits64 (sum.toInt.tdiv 2); constructor <;> omega)
  cases hr.symm.trans hdiv
  rw [hquot]
  exact lt_of_le_of_lt hle (by decide)

/-- The magnitude the engine compares is that of the sample. -/
theorem abs_sample_le_iff {o : Overflow} {b : Bytes} {msLeg t3 sample magnitude : Int64}
    (hsample : delaySampleOf o b msLeg t3 = some sample)
    (hmagnitude : abs64 o sample = some magnitude) :
    |sample.toInt| ≤ 10000000 ↔ magnitude ≤ ptpDelayMaxNs := by
  obtain ⟨r, hr, hval⟩ := exists_abs64 o (abs_delaySampleOf hsample)
  cases hr.symm.trans hmagnitude
  rw [← hval, Int64.le_iff_toInt_le]
  rfl

/-- The delay is the median of the last eight samples since the reset: of any samples
    if no sum overflows, and of those that are accepted none does. -/
theorem delay_is_sliding_median :
    (∀ (samples : List Int64) (g g' : PtpCore), samples ≠ [] →
      delayAddAll .trap samples g = some g' →
      g'.delayNs.toInt = medianOf (samples.reverse.take ptpDelayWin)) ∧
    (∀ (o : Overflow) (samples : List Int64) (g : PtpCore), samples ≠ [] →
      (∀ x ∈ samples, |x.toInt| ≤ 10000000) →
      ∃ g', delayAddAll o samples g = some g' ∧
        g'.delayNs.toInt = medianOf (samples.reverse.take ptpDelayWin)) ∧
    (∀ (o : Overflow) (b b' : Bytes) (g : PtpCore) (c c' : PtpClock) (out : PtpOut) (sample : Int64),
      handleDelayResp o b g c = some out → .delaySample b' sample c' ∈ out.events →
      |sample.toInt| ≤ 10000000) := by
  have hdelay : ∀ {samples : List Int64} {g' : PtpCore}, samples ≠ [] →
      Filtered (samples.reverse ++ []) g' →
      g'.delayNs.toInt = medianOf (samples.reverse.take ptpDelayWin) := by
    intro samples g' hne hfiltered
    rw [List.append_nil] at hfiltered
    rw [hfiltered.delay, filteredDelay, if_neg (by simpa using hne)]
  refine ⟨?_, ?_, ?_⟩
  · intro samples g g' hne hrun
    exact hdelay hne (filtered_foldlM_trap (filtered_resetMeasurements g) hrun)
  · intro o samples g hne hsmall
    have hall : ∀ x ∈ samples.reverse ++ [], |x.toInt| ≤ 10000000 := by
      simpa using hsmall
    obtain ⟨g', hrun, hfiltered⟩ := filtered_foldlM o (filtered_resetMeasurements g) hall
    exact ⟨g', hrun, hdelay hne hfiltered⟩
  · intro o b b' g c c' out sample h hmem
    cases handleDelayResp_effect h with
    | ignored | dropped => cases hmem
    | sampled _ _ _ _ _ _ hsample hmagnitude hwithin =>
      cases List.mem_singleton.mp hmem
      exact (abs_sample_le_iff hsample hmagnitude).mpr hwithin

/-- Four samples: the mean of the two in the middle. -/
theorem delay_is_sliding_median_even :
    ∃ g', delayAddAll .trap [400, -100, 700, 301] plainCore = some g' ∧ g'.delayNs.toInt = 350 := by
  have hsmall : ∀ x ∈ ([400, -100, 700, 301] : List Int64), |x.toInt| ≤ 10000000 := by
    simp only [List.forall_mem_cons]
    exact ⟨by decide, by decide, by decide, by decide, fun _ hx => absurd hx List.not_mem_nil⟩
  have hmedian : medianOf (([400, -100, 700, 301] : List Int64).reverse.take ptpDelayWin) = 350 := by
    decide +kernel
  obtain ⟨g', hrun, hdelay⟩ := delay_is_sliding_median.2.1 .trap [400, -100, 700, 301] plainCore
    (List.cons_ne_nil _ _) hsmall
  exact ⟨g', hrun, hdelay.trans hmedian⟩

end FlintRTOS
