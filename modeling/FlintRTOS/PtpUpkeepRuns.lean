import FlintRTOS.PtpPairing
import FlintRTOS.PtpUpkeep
import Mathlib.Data.List.Chain

/-!
# Runs: the measured delay, Delay_Reqs and the timeout of the master

What the engine does over any calls, as far as `Upkeep` tells.  The delay it holds is
the median of the last samples since its last reset, and a negative one looks to the
servo as if there were none.  Delay_Reqs are at least 900 ms apart, each is paid for by
a Sync, and none is sent without a master.  The timeout of the master counts from the
poll before its last Announce and not from the Announce.
-/

namespace FlintRTOS

open SlidingWindow

variable {o : Overflow} {freq : UInt64} {mac : Vector UInt8 6} {domain : UInt8} {tx : Bool}
  {clock : PtpClock}

/-! ### The measured delay -/

/-- The path delays accepted since the last reset, newest first. -/
def delaySamples : List PtpEvent → List Int64
  | [] => []
  | .delaySample _ sample _ :: log => sample :: delaySamples log
  | .selected _ :: _ => []
  | .lost :: _ => []
  | _ :: log => delaySamples log

variable {events : List PtpEvent} {raw : Int64} {c c' : PtpClock} {event : PtpEvent} {s : PtpState}
  {out : PtpOut} {g : PtpCore}

theorem delaySamples_passing (h : ∀ e ∈ events, e.passes = true) (log : List PtpEvent) :
    delaySamples (events ++ log) = delaySamples log := by
  induction events with
  | nil => rfl
  | cons e events ih =>
    have hrest := ih fun e he => h e (List.mem_cons_of_mem _ he)
    have hpasses := h e (List.mem_cons_self ..)
    cases e with
    | sync | followUp | stepped => exact hrest
    | _ => cases hpasses

theorem delaySamples_completed (h : event.passes = true)
    (hevents : events = sampleEvents raw c c' ++ [event]) (log : List PtpEvent) :
    delaySamples (events ++ log) = delaySamples log := by
  rw [hevents, sampleEvents]
  cases event with
  | sync | followUp | stepped => split <;> rfl
  | _ => cases h

/-- The filter is that of the samples in the history. -/
structure FilterInv (s : PtpState) : Prop where
  filtered : Filtered (delaySamples s.log) s.core
  small : ∀ x ∈ delaySamples s.log, |x.toInt| ≤ 10000000

variable {call : PtpCall}

theorem filterInv_run (hinv : FilterInv s) (h : call.run o freq s = some out) :
    FilterInv ⟨out.core, out.clock, out.events ++ s.log⟩ := by
  obtain ⟨g, c, log⟩ := s
  obtain ⟨g', c', events⟩ := out
  obtain ⟨hfiltered, hsmall⟩ := hinv
  cases run_upkeep h with
  | passed _ _ hfilter hevents =>
    have hsame := delaySamples_passing hevents log
    exact ⟨hsame ▸ hfiltered.of_filter_eq hfilter, hsame ▸ hsmall⟩
  | refreshed _ _ _ hfilter => exact ⟨hfiltered.of_filter_eq hfilter, hsmall⟩
  | selected _ _ hfilter => exact ⟨hfilter, fun _ hx => absurd hx List.not_mem_nil⟩
  | completed _ _ _ hfilter hevent hevents =>
    have hsame := delaySamples_completed hevent hevents log
    exact ⟨hsame ▸ hfiltered.of_filter_eq hfilter, hsame ▸ hsmall⟩
  | @delaySampled _ _ _ _ _ _ sample _ _ hsample _ hadd hfilter =>
    have hall : ∀ x ∈ sample :: delaySamples log, |x.toInt| ≤ 10000000 := by
      intro x hx
      rcases List.mem_cons.mp hx with rfl | hx
      · exact hsample
      · exact hsmall x hx
    -- all samples are within the limit, so the median is exact whatever overflow does
    obtain ⟨d, hadd', hfiltered'⟩ := (hfiltered.of_filter_eq hfilter).exists_delayAdd o hall
    cases hadd.symm.trans hadd'
    exact ⟨hfiltered', hall⟩
  | lost _ _ hfilter => exact ⟨hfilter, fun _ hx => absurd hx List.not_mem_nil⟩
  | idle _ _ hfilter => exact ⟨hfiltered.of_filter_eq hfilter, hsmall⟩
  | requested _ _ _ _ _ hfilter => exact ⟨hfiltered.of_filter_eq hfilter, hsmall⟩

theorem filterInv_of_reach (h : (ptpEngine o freq (ptpCoreInit mac domain tx) clock).Reach s) :
    FilterInv s := by
  apply h.invariant
  · exact ⟨filtered_resetMeasurements _, fun _ hx => absurd hx List.not_mem_nil⟩
  · intro s call s' _ hinv hstep
    obtain ⟨out, hrun, rfl⟩ := ptpEngine_run hstep
    exact filterInv_run hinv hrun

/-- The delay is negative exactly when none was measured. -/
def DelayTold (g : PtpCore) : Prop := g.delayNs < 0 ↔ g.delayN.val = 0

theorem Filtered.delayN_eq_zero {past : List Int64} (h : Filtered past g) :
    g.delayN.val = 0 ↔ past = [] := by
  have hcount := h.window.count_eq
  rw [Vector.length_toList] at hcount
  rw [hcount, ← List.length_eq_zero_iff]
  omega

theorem Filtered.delayTold_iff {past : List Int64} (h : Filtered past g) :
    DelayTold g ↔ (past ≠ [] → 0 ≤ medianOf (past.take ptpDelayWin)) := by
  have hneg : g.delayNs < 0 ↔ filteredDelay past < 0 := by
    rw [Int64.lt_iff_toInt_lt, h.delay]
    rfl
  rw [DelayTold, h.delayN_eq_zero, hneg, filteredDelay]
  by_cases hnil : past = []
  · simp [hnil]
  · simp [hnil]

/-- The sample among the events of a call. -/
def newSample : List PtpEvent → Option Int64
  | [.delaySample _ sample _] => some sample
  | _ => none

theorem newSample_completed (hevents : events = sampleEvents raw c c' ++ [event]) :
    newSample events = none := by
  rw [hevents, sampleEvents]
  split <;> rfl

theorem newSample_passing (h : ∀ e ∈ events, e.passes = true) : newSample events = none := by
  unfold newSample
  split
  · cases h _ (List.mem_singleton_self _)
  · rfl

/-- A message of 54 bytes answers the Delay_Req that is outstanding, and both halves of the
    exchange are of the clock as it is. -/
def AnswersRequest (g : PtpCore) (c : PtpClock) (b : Bytes) : Prop :=
  g.dreqOutstanding = true ∧ rd16 b 30 = some g.dreqSeq ∧ copyBytes b 44 10 = some g.selfId ∧
    g.t3Epoch = c.epoch ∧ g.msValid = true ∧ g.msEpoch = g.t3Epoch

instance (g : PtpCore) (c : PtpClock) (b : Bytes) : Decidable (AnswersRequest g c b) :=
  inferInstanceAs (Decidable (_ ∧ _))

/-- The path delay that a call is going to measure, within the limit of 10 ms. -/
def measuredDelay (o : Overflow) (s : PtpState) : PtpCall → Option Int64
  | .rx _ b udp _ =>
      if rxKind s.core b udp = .delayResp ∧ AnswersRequest s.core s.clock b then
        (delaySampleOf o b s.core.msLeg s.core.t3Ns).filter fun sample => |sample.toInt| ≤ 10000000
      else none
  | .poll .. => none

/-- The path delay that is measured and up to seven before it are not too often negative. -/
def PlausibleDelay (o : Overflow) (s : PtpState) (call : PtpCall) : Prop :=
  ∀ sample ∈ measuredDelay o s call,
    FewNegative (((sample :: delaySamples s.log).take ptpDelayWin).map Int64.toInt)

instance (o : Overflow) (s : PtpState) (call : PtpCall) : Decidable (PlausibleDelay o s call) :=
  decidable_of_iff ((measuredDelay o s call).all fun sample =>
    decide (FewNegative (((sample :: delaySamples s.log).take ptpDelayWin).map Int64.toInt)))
    (by cases h : measuredDelay o s call <;> simp [PlausibleDelay, h])

theorem newSample_delayResp {b : Bytes} (h : handleDelayResp o b g c = some out) :
    newSample out.events = if AnswersRequest g c b then
      (delaySampleOf o b g.msLeg g.t3Ns).filter fun sample => |sample.toInt| ≤ 10000000
      else none := by
  by_cases hanswers : AnswersRequest g c b
  · rw [if_pos hanswers]
    obtain ⟨hout, hseq, hself, ht3, hvalid, hepoch⟩ := hanswers
    have hlong : ¬ b.length < delayRespLen := by
      intro hshort
      have hnone : copyBytes b 44 10 = none := dif_neg (Nat.not_le.mpr hshort)
      cases hnone.symm.trans hself
    simp only [handleDelayResp, hlong, hout, hseq, hself, ht3, hvalid, hepoch, cmpBytes_toList,
      Option.bind_eq_bind, Option.bind_some, ne_eq, not_true_eq_false, or_self, if_false,
      Bool.true_eq_false, Option.bind_eq_some_iff] at h
    obtain ⟨sample, hsample, magnitude, hmagnitude, h⟩ := h
    have hwithin := abs_sample_le_iff hsample hmagnitude
    rw [hsample, Option.filter_some]
    split at h
    · rename_i hlarge
      cases h
      rw [if_neg (by simpa [hwithin] using hlarge)]
      rfl
    · rename_i hsmall
      obtain ⟨g', -, heq⟩ := Option.bind_eq_some_iff.mp h
      cases heq
      rw [if_pos (by simpa [hwithin] using hsmall)]
      rfl
  · rw [if_neg hanswers]
    cases handleDelayResp_effect h with
    | ignored | dropped => rfl
    | sampled hout hseq hself ht3 hvalid hepoch =>
      exact absurd ⟨hout, hseq, hself, ht3, hvalid, hepoch⟩ hanswers

/-- What a call measures is told by the message and the state before it. -/
theorem newSample_run (h : call.run o freq s = some out) :
    newSample out.events = measuredDelay o s call := by
  obtain ⟨g', c', events⟩ := out
  cases call with
  | poll now sent nowMs =>
    cases run_upkeep h with
    | lost | idle | requested => rfl
  | rx cnt b udp rxCnt =>
    by_cases hkind : rxKind s.core b udp = .delayResp
    · have hresp : handleDelayResp o b s.core s.clock = some ⟨g', c', events⟩ := by
        rw [← h, PtpCall.run, ptpCoreRx_eq, hkind]
      simp [measuredDelay, hkind, newSample_delayResp hresp]
    · rw [measuredDelay, if_neg fun hboth => hkind hboth.1]
      cases run_upkeep h with
      | passed _ _ _ hevents => exact newSample_passing hevents
      | refreshed | selected => rfl
      | completed _ _ _ _ _ hevents => exact newSample_completed hevents
      | delaySampled hresp => exact absurd hresp hkind

/-- One call keeps the samples, drops them or accepts one more. -/
theorem delaySamples_run (h : call.run o freq s = some out) :
    (measuredDelay o s call = none ∧
      (delaySamples (out.events ++ s.log) = delaySamples s.log ∨
        delaySamples (out.events ++ s.log) = [])) ∨
    ∃ sample, measuredDelay o s call = some sample ∧
      delaySamples (out.events ++ s.log) = sample :: delaySamples s.log := by
  rw [← newSample_run h]
  obtain ⟨g', c', events⟩ := out
  cases run_upkeep h with
  | passed _ _ _ hevents =>
    exact Or.inl ⟨newSample_passing hevents, Or.inl (delaySamples_passing hevents s.log)⟩
  | refreshed | idle | requested => exact Or.inl ⟨rfl, Or.inl rfl⟩
  | selected | lost => exact Or.inl ⟨rfl, Or.inr rfl⟩
  | completed _ _ _ _ hevent hevents =>
    exact Or.inl ⟨newSample_completed hevents, Or.inl (delaySamples_completed hevent hevents s.log)⟩
  | delaySampled => exact Or.inr ⟨_, rfl, rfl⟩

theorem delayTold_run (hinv : FilterInv s) (htold : DelayTold s.core)
    (h : call.run o freq s = some out) : DelayTold out.core ↔ PlausibleDelay o s call := by
  rw [hinv.filtered.delayTold_iff] at htold
  rw [(filterInv_run hinv h).filtered.delayTold_iff, PlausibleDelay]
  rcases delaySamples_run h with ⟨hnone, hkept | hdropped⟩ | ⟨sample, hsome, hadded⟩
  · rw [hnone, hkept]
    exact iff_of_true htold (fun _ hx => absurd hx (Option.not_mem_none _))
  · rw [hnone, hdropped]
    exact iff_of_true (fun hne => absurd rfl hne) (fun _ hx => absurd hx (Option.not_mem_none _))
  · rw [hsome, hadded]
    have hmedian := median_nonneg_iff (l := ((sample :: delaySamples s.log).take ptpDelayWin).map
      Int64.toInt) (by simp [ptpDelayWin])
    constructor
    · intro htold x hx
      cases hx
      exact hmedian.mp (htold (List.cons_ne_nil _ _))
    · intro hfew _
      exact hmedian.mpr (hfew sample rfl)

/-- **The unknown delay.**  As long as no answer brings too many negative path delays
    together, the delay is negative exactly when no sample was accepted since the last
    reset; and an answer that does so breaks this at once. -/
theorem delay_negative_iff_unmeasured :
    (∀ s, ((ptpEngine o freq (ptpCoreInit mac domain tx) clock).restrict
        (PlausibleDelay o)).Reach s →
      (s.core.delayNs < 0 ↔ s.core.delayN.val = 0) ∧
        (s.core.delayN.val = 0 ↔ delaySamples s.log = [])) ∧
    ∀ s call s', (ptpEngine o freq (ptpCoreInit mac domain tx) clock).Reach s →
      (s.core.delayNs < 0 ↔ s.core.delayN.val = 0) →
      (ptpEngine o freq (ptpCoreInit mac domain tx) clock).Step s call s' →
      ((s'.core.delayNs < 0 ↔ s'.core.delayN.val = 0) ↔ PlausibleDelay o s call) := by
  constructor
  · intro s h
    have hinv := filterInv_of_reach h.of_restrict
    refine ⟨?_, hinv.filtered.delayN_eq_zero⟩
    apply h.invariant (P := fun s => DelayTold s.core)
    · exact (filtered_resetMeasurements _).delayTold_iff.mpr (fun hne => absurd rfl hne)
    · intro s call s' hreach htold hstep
      obtain ⟨hstep, hplausible⟩ := Machine.restrict_step.mp hstep
      obtain ⟨out, hrun, rfl⟩ := ptpEngine_run hstep
      exact (delayTold_run (filterInv_of_reach hreach.of_restrict) htold hrun).mpr hplausible
  · intro s call s' hreach htold hstep
    obtain ⟨out, hrun, rfl⟩ := ptpEngine_run hstep
    exact delayTold_run (filterInv_of_reach hreach) htold hrun

/-- A Delay_Resp of a master whose clock is ahead of the request. -/
theorem delay_negative_iff_unmeasured_positive :
    ∃ s, ((ptpEngine .trap 1000000000 plainCore ⟨0, 0, 0, 0⟩).restrict
        (PlausibleDelay .trap)).Reach s ∧
      delaySamples s.log = [1548] ∧ ¬ s.core.delayN.val = 0 ∧ ¬ s.core.delayNs < 0 := by
  obtain ⟨s, hreach, hs⟩ := ((ptpEngine .trap 1000000000 plainCore ⟨0, 0, 0, 0⟩).restrict
    (PlausibleDelay .trap)).exists_reach
      (plainExchange ++ [plainRx ((plainResp 1).set 42 0x10) 320 4000])
      (fun s => delaySamples s.log = [1548]) (by decide +kernel)
  have hsamples := of_decide_eq_true hs
  obtain ⟨htold, hcount⟩ := delay_negative_iff_unmeasured.1 s hreach
  have hmeasured : ¬ s.core.delayN.val = 0 := by
    rw [hcount, hsamples]
    exact List.cons_ne_nil _ _
  exact ⟨s, hreach, hsamples, hmeasured, fun hneg => hmeasured (htold.mp hneg)⟩

/-- A plain exchange whose only sample is -500. -/
theorem delay_measured_negative :
    ∃ s, (ptpEngine .trap 1000000000 plainCore ⟨0, 0, 0, 0⟩).Reach s ∧
      delaySamples s.log = [-500] ∧ s.core.delayN.val = 1 ∧ s.core.delayNs = -500 := by
  obtain ⟨s, hreach, hs⟩ := (ptpEngine .trap 1000000000 plainCore ⟨0, 0, 0, 0⟩).exists_reach
    (plainExchange ++ [plainRx (plainResp 1) 320 4000])
    (fun s => delaySamples s.log = [-500] ∧ s.core.delayN.val = 1 ∧ s.core.delayNs = -500)
    (by decide +kernel)
  exact ⟨s, hreach, of_decide_eq_true hs⟩

/-! ### Delay_Reqs -/

def PtpEvent.isDelayReq : PtpEvent → Bool
  | .delayReq .. => true
  | _ => false

def PtpEvent.isSample : PtpEvent → Bool
  | .sample .. => true
  | _ => false

/-- How often a Delay_Req was handed to the hook. -/
def attempts (log : List PtpEvent) : Nat := log.countP PtpEvent.isDelayReq

/-- How many Syncs were completed. -/
def completions (log : List PtpEvent) : Nat := log.countP PtpEvent.isSample

/-- The time of the attempt in a call, if it made one. -/
def attemptAt : PtpCall → List PtpEvent → List UInt32
  | .poll _ _ nowMs, events => if events.any PtpEvent.isDelayReq then [nowMs] else []
  | .rx .., _ => []

/-- The times of all attempts, newest first. -/
def noteAttempt (o : Overflow) (freq : UInt64) (times : List UInt32) (s : PtpState)
    (call : PtpCall) : List UInt32 :=
  ((call.run o freq s).elim [] fun out => attemptAt call out.events) ++ times

theorem attempts_append (events log : List PtpEvent) :
    attempts (events ++ log) = attempts events + attempts log :=
  List.countP_append

theorem completions_append (events log : List PtpEvent) :
    completions (events ++ log) = completions events + completions log :=
  List.countP_append

theorem counts_passing (h : ∀ e ∈ events, e.passes = true) :
    attempts events = 0 ∧ completions events = 0 := by
  constructor
  · apply List.countP_eq_zero.mpr
    intro e he
    have hpasses := h e he
    cases e with
    | delayReq => cases hpasses
    | _ => exact Bool.false_ne_true
  · apply List.countP_eq_zero.mpr
    intro e he
    have hpasses := h e he
    cases e with
    | sample => cases hpasses
    | _ => exact Bool.false_ne_true

theorem counts_completed (h : event.passes = true)
    (hevents : events = sampleEvents raw c c' ++ [event]) :
    attempts events = 0 ∧ completions events = 1 := by
  rw [hevents, sampleEvents]
  cases event with
  | sync | followUp | stepped => split <;> exact ⟨rfl, rfl⟩
  | _ => cases h

/-- Every attempt was paid for by a Sync, and the last one is remembered. -/
structure PacingInv (log : List PtpEvent) (times : List UInt32) (p : Pacing) : Prop where
  count : times.length = attempts log
  spaced : times.IsChain fun later earlier => 900 ≤ later - earlier
  last : ∀ t ∈ times.head?, p.dreqMs = t
  paid : attempts log + p.due.toNat ≤ completions log
  master : p.due = true → p.master = true

theorem PacingInv.quiet {log : List PtpEvent} {times : List UInt32} {p p' : Pacing}
    (h : PacingInv log times p) (hattempts : attempts events = 0) (hdreq : p'.dreqMs = p.dreqMs)
    (hdue : p'.due = true → p.due = true ∨ 0 < completions events)
    (hmaster : p'.due = true → p'.master = true) : PacingInv (events ++ log) times p' := by
  have hcount : attempts (events ++ log) = attempts log := by
    rw [attempts_append, hattempts, Nat.zero_add]
  refine ⟨h.count.trans hcount.symm, h.spaced, hdreq ▸ h.last, ?_, hmaster⟩
  have hpaid := h.paid
  rw [hcount, completions_append]
  cases hp' : p'.due with
  | false =>
    simp only [Bool.toNat_false]
    omega
  | true =>
    rcases hdue hp' with hp | hcompleted
    · rw [hp] at hpaid
      omega
    · simp only [Bool.toNat_true]
      omega

theorem pacingInv_run {times : List UInt32} (hinv : PacingInv s.log times s.core.pacing)
    (h : call.run o freq s = some out) :
    PacingInv (out.events ++ s.log) (noteAttempt o freq times s call) out.core.pacing := by
  have hnote : noteAttempt o freq times s call = attemptAt call out.events ++ times := by
    rw [noteAttempt, h]
    rfl
  rw [hnote]
  obtain ⟨g', c', events⟩ := out
  cases run_upkeep h with
  | passed _ hpacing _ hevents =>
    exact hinv.quiet (counts_passing hevents).1 (by rw [hpacing])
      (fun hdue => Or.inl (hpacing ▸ hdue)) (hpacing ▸ hinv.master)
  | refreshed _ hmaster hpacing =>
    exact hinv.quiet rfl (by rw [hpacing]) (by rw [hpacing]; exact Or.inl)
      (by rw [hpacing]; exact hinv.master)
  | selected _ hpacing =>
    exact hinv.quiet rfl (by rw [hpacing]; rfl) (by rw [hpacing]; exact fun hdue => nomatch hdue)
      (by rw [hpacing]; exact fun _ => rfl)
  | completed _ hmaster hpacing _ hevent hevents =>
    obtain ⟨hattempts, hcompleted⟩ := counts_completed hevent hevents
    exact hinv.quiet hattempts (by rw [hpacing]) (fun _ => Or.inr (by rw [hcompleted]; decide))
      (by rw [hpacing]; exact fun _ => hmaster)
  | delaySampled _ _ hpacing =>
    exact hinv.quiet rfl (by rw [hpacing]) (fun hdue => Or.inl (hpacing ▸ hdue))
      (hpacing ▸ hinv.master)
  | lost _ hpacing =>
    exact hinv.quiet rfl (by rw [hpacing]; rfl) (by rw [hpacing]; exact fun hdue => nomatch hdue)
      (by rw [hpacing]; exact fun hdue => nomatch hdue)
  | idle _ hpacing =>
    exact hinv.quiet rfl (by rw [hpacing]) (by rw [hpacing]; exact Or.inl)
      (by rw [hpacing]; exact hinv.master)
  | @requested _ _ _ nowMs _ _ _ _ hdue _ hgap hpacing =>
    have hpaid := hinv.paid
    rw [hdue] at hpaid
    refine ⟨?_, ?_, ?_, ?_, ?_⟩
    · show times.length + 1 = _
      rw [hinv.count, attempts_append, Nat.add_comm]
      rfl
    · -- the time that the gap is measured from is that of the last attempt
      refine List.isChain_cons.mpr ⟨fun t ht => ?_, hinv.spaced⟩
      rw [← hinv.last t ht]
      exact hgap
    · intro t ht
      rw [hpacing]
      exact Option.some.inj ht
    · rw [hpacing, attempts_append, completions_append]
      simp only [Bool.toNat_true] at hpaid
      show 1 + attempts s.log + 0 ≤ 0 + completions s.log
      omega
    · rw [hpacing]
      exact fun hdue' => nomatch hdue'

theorem pacingInv_of_reach {x : PtpState × List UInt32}
    (h : ((ptpEngine o freq (ptpCoreInit mac domain tx) clock).ghost []
      (noteAttempt o freq)).Reach x) : PacingInv x.1.log x.2 x.1.core.pacing := by
  apply h.invariant
  · exact ⟨rfl, .nil, fun _ ht => (nomatch ht), Nat.le_refl 0, fun hdue => (nomatch hdue)⟩
  · rintro ⟨s, times⟩ call ⟨s', times'⟩ _ hinv hstep
    obtain ⟨hstep, hnote⟩ := Machine.ghost_step.mp hstep
    obtain ⟨out, hrun, rfl⟩ := ptpEngine_run hstep
    cases hnote
    exact pacingInv_run hinv hrun

/-- **Delay_Req pacing.**  In every run the times of any two consecutive attempts are at
    least 900 ms apart, there are no more attempts than completed Syncs, and no call makes
    one without a master or with an unlocked servo, before it or after it. -/
theorem delay_req_paced {x : PtpState × List UInt32}
    (h : ((ptpEngine o freq (ptpCoreInit mac domain tx) clock).ghost []
      (noteAttempt o freq)).Reach x) :
    x.2.length = attempts x.1.log ∧
    (x.2.IsChain fun later earlier => 900 ≤ later - earlier) ∧
    attempts x.1.log ≤ completions x.1.log ∧
    ∀ (call : PtpCall) (out : PtpOut), call.run o freq x.1 = some out → 0 < attempts out.events →
      x.1.core.haveMaster = true ∧ x.1.core.servo.state ≠ .unlocked ∧
      out.core.haveMaster = true ∧ out.core.servo.state ≠ .unlocked := by
  have hinv := pacingInv_of_reach h
  refine ⟨hinv.count, hinv.spaced, Nat.le_trans (Nat.le_add_right _ _) hinv.paid, ?_⟩
  intro call out hrun hattempt
  obtain ⟨g', c', events⟩ := out
  cases run_upkeep hrun with
  | passed _ _ _ hevents =>
    rw [(counts_passing hevents).1] at hattempt
    cases hattempt
  | refreshed | selected | delaySampled | lost | idle => cases hattempt
  | completed _ _ _ _ hevent hevents =>
    rw [(counts_completed hevent hevents).1] at hattempt
    cases hattempt
  | requested _ hdue hservo _ hpacing =>
    have hmaster := hinv.master hdue
    have hservo' : g'.servo.state = x.1.core.servo.state := congrArg Pacing.servo hpacing
    exact ⟨hmaster, hservo, (congrArg Pacing.master hpacing).trans hmaster, hservo' ▸ hservo⟩

/-- Two attempts, a second apart. -/
theorem delay_req_paced_twice :
    ∃ x, ((ptpEngine .trap 1000000000 plainCore ⟨0, 0, 0, 0⟩).ghost []
        (noteAttempt .trap 1000000000)).Reach x ∧
      x.2 = [2000, 1000] ∧ attempts x.1.log = 2 ∧ 2 ≤ completions x.1.log := by
  obtain ⟨x, hreach, hx⟩ := ((ptpEngine .trap 1000000000 plainCore ⟨0, 0, 0, 0⟩).ghost []
    (noteAttempt .trap 1000000000)).exists_reach
      (plainExchange ++ [plainRx (plainMsg 0x0 1 3 44) 319 4000, .poll 5000 none 2000])
      (fun x => x.2 = [2000, 1000]) (by decide +kernel)
  have htimes := of_decide_eq_true hx
  obtain ⟨hcount, _, hpaid, _⟩ := delay_req_paced hreach
  have htwo : attempts x.1.log = 2 := by rw [← hcount, htimes]; rfl
  exact ⟨x, hreach, htimes, htwo, htwo ▸ hpaid⟩

/-! ### The timeout of the master -/

/-- The time of the last poll, 0 before the first, and whether an Announce was accepted
    since then. -/
structure PollRecord where
  last : UInt32
  announced : Bool
deriving DecidableEq, Repr

def notePoll (r : PollRecord) (s : PtpState) : PtpCall → PollRecord
  | .rx _ b udp _ => { r with announced := r.announced || acceptsAnnounce s.core b udp }
  | .poll _ _ nowMs => ⟨nowMs, false⟩

/-- An Announce since the last poll is taken to have come at its time. -/
structure AnnouncedInv (r : PollRecord) (p : Pacing) : Prop where
  now : p.nowMs = r.last
  announced : r.announced = true → p.master = true ∧ p.announceMs = r.last

theorem announcedInv_run {r : PollRecord} (hinv : AnnouncedInv r s.core.pacing)
    (h : call.run o freq s = some out) : AnnouncedInv (notePoll r s call) out.core.pacing := by
  obtain ⟨g', c', events⟩ := out
  have hpolled : ∀ {p : Pacing} {nowMs : UInt32}, p.nowMs = nowMs →
      AnnouncedInv ⟨nowMs, false⟩ p := fun hnow => ⟨hnow, fun hannounced => nomatch hannounced⟩
  cases run_upkeep h with
  | passed hrefused hpacing =>
    simp only [notePoll, hrefused, Bool.or_false, hpacing]
    exact hinv
  | delaySampled hkind _ hpacing =>
    have hrefused := acceptsAnnounce_of_rxKind (hkind.trans_ne (by decide))
    simp only [notePoll, hrefused, Bool.or_false, hpacing]
    exact hinv
  | refreshed _ hmaster hpacing =>
    rw [hpacing]
    exact ⟨hinv.now, fun _ => ⟨hmaster, hinv.now⟩⟩
  | selected _ hpacing =>
    rw [hpacing]
    exact ⟨hinv.now, fun _ => ⟨rfl, hinv.now⟩⟩
  | completed hrefused _ hpacing =>
    simp only [notePoll, hrefused, Bool.or_false, hpacing]
    exact ⟨hinv.now, hinv.announced⟩
  | lost _ hpacing | idle _ hpacing | requested _ _ _ _ hpacing => exact hpolled (by rw [hpacing])

theorem announcedInv_of_reach {x : PtpState × PollRecord}
    (h : ((ptpEngine o freq (ptpCoreInit mac domain tx) clock).ghost ⟨0, false⟩ notePoll).Reach x) :
    AnnouncedInv x.2 x.1.core.pacing := by
  apply h.invariant
  · exact ⟨rfl, fun hannounced => nomatch hannounced⟩
  · rintro ⟨s, r⟩ call ⟨s', r'⟩ _ hinv hstep
    obtain ⟨hstep, hnote⟩ := Machine.ghost_step.mp hstep
    obtain ⟨out, hrun, rfl⟩ := ptpEngine_run hstep
    cases hnote
    exact announcedInv_run hinv hrun

/-- A poll gives the master up exactly when its timeout is over. -/
theorem ptpCorePoll_master {now : UInt64} {sent : Option UInt64} {nowMs : UInt32}
    (h : ptpCorePoll o freq now sent nowMs g c = some out) (hmaster : g.haveMaster = true) :
    out.core.haveMaster = true ↔ nowMs - g.lastAnnounceMs ≤ g.announceTimeoutMs := by
  have hexpired : g.pacing.Expired nowMs ↔ ¬ nowMs - g.lastAnnounceMs ≤ g.announceTimeoutMs := by
    rw [UInt32.not_le]
    exact and_iff_right hmaster
  have hkept : out.core.haveMaster = out.core.pacing.master := rfl
  obtain ⟨g', c', events⟩ := out
  cases ptpCorePoll_upkeep h with
  | lost hover hpacing =>
    rw [hkept, hpacing]
    exact iff_of_false Bool.false_ne_true (hexpired.mp hover)
  | idle hlive hpacing | requested hlive _ _ _ hpacing =>
    rw [hkept, hpacing]
    exact iff_of_true hmaster (not_not.mp fun hover => hlive (hexpired.mpr hover))

/-- **A live master.**  A master that announced itself since the last poll is kept by the
    next one exactly when the time between the two polls is within its timeout. -/
theorem live_master_kept_iff {x : PtpState × PollRecord}
    (h : ((ptpEngine o freq (ptpCoreInit mac domain tx) clock).ghost ⟨0, false⟩ notePoll).Reach x)
    (hannounced : x.2.announced = true) {now : UInt64} {sent : Option UInt64} {nowMs : UInt32}
    {out : PtpOut} (hpoll : ptpCorePoll o freq now sent nowMs x.1.core x.1.clock = some out) :
    x.1.core.haveMaster = true ∧
      (out.core.haveMaster = true ↔ nowMs - x.2.last ≤ x.1.core.announceTimeoutMs) := by
  obtain ⟨hmaster, hlast⟩ := (announcedInv_of_reach h).announced hannounced
  refine ⟨hmaster, ?_⟩
  rw [ptpCorePoll_master hpoll hmaster, ← hlast]
  rfl

/-- The first poll, three seconds after the start. -/
theorem live_master_kept_iff_soon :
    ∃ x, ((ptpEngine .trap 1000000000 plainCore ⟨0, 0, 0, 0⟩).ghost ⟨0, false⟩ notePoll).Reach x ∧
      x.2 = ⟨0, true⟩ ∧ ∃ out, ptpCorePoll .trap 1000000000 0 none 3000 x.1.core x.1.clock = some out ∧
        out.core.haveMaster = true := by
  obtain ⟨x, hreach, hx⟩ := ((ptpEngine .trap 1000000000 plainCore ⟨0, 0, 0, 0⟩).ghost ⟨0, false⟩
    notePoll).exists_reach [plainAnnounce 1 5]
      (fun x => x.2 = ⟨0, true⟩ ∧ x.1.core.announceTimeoutMs = 3500 ∧
        (ptpCorePoll .trap 1000000000 0 none 3000 x.1.core x.1.clock).isSome) (by decide +kernel)
  obtain ⟨hrecord, htimeout, hsome⟩ := of_decide_eq_true hx
  obtain ⟨out, hout⟩ := Option.isSome_iff_exists.mp hsome
  refine ⟨x, hreach, hrecord, out, hout, ?_⟩
  rw [(live_master_kept_iff hreach (by rw [hrecord]) hout).2, hrecord, htimeout]
  decide

/-- The first poll, a thousand seconds after the start: the master that was just selected
    is given up. -/
theorem live_master_given_up :
    ∃ x, ((ptpEngine .trap 1000000000 plainCore ⟨0, 0, 0, 0⟩).ghost ⟨0, false⟩ notePoll).Reach x ∧
      x.2 = ⟨0, true⟩ ∧ x.1.core.haveMaster = true ∧
      ∃ out, ptpCorePoll .trap 1000000000 0 none 1000000 x.1.core x.1.clock = some out ∧
        out.core.haveMaster = false := by
  obtain ⟨x, hreach, hx⟩ := ((ptpEngine .trap 1000000000 plainCore ⟨0, 0, 0, 0⟩).ghost ⟨0, false⟩
    notePoll).exists_reach [plainAnnounce 1 5]
      (fun x => x.2 = ⟨0, true⟩ ∧ x.1.core.haveMaster = true ∧
        ((ptpCorePoll .trap 1000000000 0 none 1000000 x.1.core x.1.clock).map
          (·.core.haveMaster)) = some false) (by decide +kernel)
  obtain ⟨hrecord, hmaster, hout⟩ := of_decide_eq_true hx
  obtain ⟨out, hrun, hlost⟩ := Option.map_eq_some_iff.mp hout
  exact ⟨x, hreach, hrecord, hmaster, out, hrun, hlost⟩

end FlintRTOS
