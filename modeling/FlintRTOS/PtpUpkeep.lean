import FlintRTOS.PtpDelay

/-!
# What a call does to the filter and the timers

Beside what pairs messages the engine keeps the delay filter, the time of its master's
last Announce and the time of its last Delay_Req.  `Upkeep` says all that a call can do
to these and which of its events matter to them, and `run_upkeep` that the engine does
no more.
-/

namespace FlintRTOS

/-! ### The two views -/

structure DelayFilter where
  win : Vector Int64 8
  n : Fin 9
  idx : Fin 8
  ns : Int64

def PtpCore.filter (g : PtpCore) : DelayFilter := ⟨g.delayWin, g.delayN, g.delayIdx, g.delayNs⟩

variable {g g' : PtpCore} {o : Overflow} {b : Bytes} {udp : UInt16} {rxCnt freq : UInt64}
  {c : PtpClock} {out : PtpOut}

theorem Filtered.of_filter_eq {past : List Int64} (h : Filtered past g)
    (heq : g'.filter = g.filter) : Filtered past g' := by
  simp only [PtpCore.filter, DelayFilter.mk.injEq] at heq
  obtain ⟨hwin, hn, hidx, hns⟩ := heq
  refine ⟨?_, ?_⟩
  · rw [hwin, hn, hidx]
    exact h.window
  · rw [hns]
    exact h.delay

/-- Whether there is a master, what its timeout counts from, and what a Delay_Req
    waits for. -/
structure Pacing where
  master : Bool
  announceMs : UInt32
  timeoutMs : UInt32
  nowMs : UInt32
  due : Bool
  dreqMs : UInt32
  servo : PtpServoState

def PtpCore.pacing (g : PtpCore) : Pacing where
  master := g.haveMaster
  announceMs := g.lastAnnounceMs
  timeoutMs := g.announceTimeoutMs
  nowMs := g.nowMs
  due := g.dreqDue
  dreqMs := g.lastDreqMs
  servo := g.servo.state

/-- No Delay_Req is due and the servo starts over. -/
def Pacing.reset (p : Pacing) (master : Bool) : Pacing :=
  { p with master := master, due := false, servo := .unlocked }

/-- Events of which neither view takes notice. -/
def PtpEvent.passes : PtpEvent → Bool
  | .sync .. | .followUp _ | .stepped => true
  | _ => false

/-- An Announce is accepted: of the master, or of a better one. -/
def acceptsAnnounce (g : PtpCore) (b : Bytes) (udp : UInt16) : Bool :=
  decide (rxKind g b udp = .announce) && decide (announceLenMin ≤ b.length) &&
    (rdDataset b).any fun ds =>
      decide (g.haveMaster = true ∧ ds.portId = g.master.portId ∨
        g.haveMaster = false ∨ datasetCmp ds g.master < 0)

/-- The master has not announced itself for longer than it may. -/
def Pacing.Expired (p : Pacing) (nowMs : UInt32) : Prop :=
  p.master = true ∧ nowMs - p.announceMs > p.timeoutMs

/-! ### Upkeep -/

/-- All that a call can do to the filter and the timers. -/
inductive Upkeep (o : Overflow) (g : PtpCore) : PtpCall → PtpCore → List PtpEvent → Prop where
  | passed {cnt : CntReads} {b : Bytes} {udp : UInt16} {rxCnt : UInt64} {g' : PtpCore}
      {events : List PtpEvent} (hrefused : acceptsAnnounce g b udp = false)
      (hpacing : g'.pacing = g.pacing) (hfilter : g'.filter = g.filter)
      (hevents : ∀ e ∈ events, e.passes = true) : Upkeep o g (.rx cnt b udp rxCnt) g' events
  /-- The master announces itself again. -/
  | refreshed {cnt : CntReads} {b : Bytes} {udp : UInt16} {rxCnt : UInt64} {g' : PtpCore}
      {timeout : UInt32} (haccepted : acceptsAnnounce g b udp = true) (hmaster : g.pacing.master = true)
      (hpacing : g'.pacing = { g.pacing with announceMs := g.pacing.nowMs, timeoutMs := timeout })
      (hfilter : g'.filter = g.filter) : Upkeep o g (.rx cnt b udp rxCnt) g' []
  | selected {cnt : CntReads} {b : Bytes} {udp : UInt16} {rxCnt : UInt64} {g' : PtpCore}
      {port : PortId} {timeout : UInt32} (haccepted : acceptsAnnounce g b udp = true)
      (hpacing : g'.pacing =
        { g.pacing.reset true with announceMs := g.pacing.nowMs, timeoutMs := timeout })
      (hfilter : Filtered [] g') : Upkeep o g (.rx cnt b udp rxCnt) g' [.selected port]
  /-- A Sync is complete. -/
  | completed {cnt : CntReads} {b : Bytes} {udp : UInt16} {rxCnt : UInt64} {g' : PtpCore}
      {events : List PtpEvent} {raw : Int64} {c c' : PtpClock} {event : PtpEvent}
      {servo : PtpServoState} (hrefused : acceptsAnnounce g b udp = false)
      (hmaster : g.pacing.master = true)
      (hpacing : g'.pacing = { g.pacing with due := true, servo := servo })
      (hfilter : g'.filter = g.filter) (hevent : event.passes = true)
      (hevents : events = sampleEvents raw c c' ++ [event]) :
      Upkeep o g (.rx cnt b udp rxCnt) g' events
  | delaySampled {cnt : CntReads} {b : Bytes} {udp : UInt16} {rxCnt : UInt64} {g₁ g' : PtpCore}
      {sample : Int64} {c : PtpClock} (hkind : rxKind g b udp = .delayResp)
      (hsmall : |sample.toInt| ≤ 10000000) (hpacing : g'.pacing = g.pacing)
      (hadd : delayAdd o sample g₁ = some g') (hfilter : g₁.filter = g.filter) :
      Upkeep o g (.rx cnt b udp rxCnt) g' [.delaySample b sample c]
  | lost {now : UInt64} {sent : Option UInt64} {nowMs : UInt32} {g' : PtpCore}
      (hexpired : g.pacing.Expired nowMs)
      (hpacing : g'.pacing = { g.pacing.reset false with nowMs := nowMs })
      (hfilter : Filtered [] g') : Upkeep o g (.poll now sent nowMs) g' [.lost]
  | idle {now : UInt64} {sent : Option UInt64} {nowMs : UInt32} {g' : PtpCore}
      (hlive : ¬ g.pacing.Expired nowMs) (hpacing : g'.pacing = { g.pacing with nowMs := nowMs })
      (hfilter : g'.filter = g.filter) : Upkeep o g (.poll now sent nowMs) g' []
  /-- A Delay_Req is handed to the hook. -/
  | requested {now : UInt64} {sent sent' : Option UInt64} {nowMs : UInt32} {g' : PtpCore}
      {buf : Bytes} {c : PtpClock} (hlive : ¬ g.pacing.Expired nowMs) (hdue : g.pacing.due = true)
      (hservo : g.pacing.servo ≠ .unlocked) (hgap : nowMs - g.pacing.dreqMs ≥ 900)
      (hpacing : g'.pacing = { g.pacing with due := false, dreqMs := nowMs, nowMs := nowMs })
      (hfilter : g'.filter = g.filter) :
      Upkeep o g (.poll now sent nowMs) g' [.delayReq buf sent' c]

variable {cnt : CntReads}

theorem Upkeep.untouched (hrefused : acceptsAnnounce g b udp = false)
    (hpacing : g'.pacing = g.pacing) (hfilter : g'.filter = g.filter) :
    Upkeep o g (.rx cnt b udp rxCnt) g' [] :=
  .passed hrefused hpacing hfilter fun _ he => absurd he List.not_mem_nil

/-! ### The engine does no more -/

theorem acceptsAnnounce_of_rxKind (h : rxKind g b udp ≠ .announce) :
    acceptsAnnounce g b udp = false := by
  simp [acceptsAnnounce, h]

/-- A Sync of an older epoch is dropped; any other is a sample of the servo. -/
theorem syncComplete_upkeep {t1 corr : Int64} (h : syncComplete o freq cnt t1 corr g c = some out) :
    out = ⟨g, c, []⟩ ∨
      ∃ raw servo, out.core.pacing = { g.pacing with due := true, servo := servo } ∧
        out.core.filter = g.filter ∧ out.events = sampleEvents raw c out.clock := by
  unfold syncComplete at h
  split at h
  · cases h
    exact Or.inl rfl
  right
  simp only [Option.bind_eq_bind, Option.bind_eq_some_iff] at h
  obtain ⟨sum, _, raw, _, ⟨offset, servo, c'⟩, _, g', hreport, heq⟩ := h
  cases heq
  obtain ⟨_, _, _, _, rfl⟩ := (report_same hreport).eq
  refine ⟨raw, servo.state, ?_, ?_, rfl⟩
  · dsimp only
    split <;> rfl
  · dsimp only
    split <;> rfl

/-- An Announce is taken to have come at the time of the last poll. -/
theorem noteAnnounce_eq (h : noteAnnounce b g = some g') :
    ∃ timeout utc flags, g' = { g with
      lastAnnounceMs := g.nowMs, announceTimeoutMs := timeout, utcOffset := utc, flags1 := flags } := by
  simp only [noteAnnounce, Option.bind_eq_bind, Option.bind_eq_some_iff] at h
  obtain ⟨interval, _, utc, _, flags, _, heq⟩ := h
  cases heq
  exact ⟨_, _, _, rfl⟩

theorem handleAnnounce_upkeep (hkind : rxKind g b udp = .announce)
    (h : handleAnnounce b g c = some out) :
    Upkeep o g (.rx cnt b udp rxCnt) out.core out.events := by
  unfold handleAnnounce at h
  split at h
  · rename_i hshort
    cases h
    refine .untouched ?_ rfl rfl
    simp [acceptsAnnounce, Nat.not_le.mpr hshort]
  rename_i hlen
  simp only [Option.bind_eq_bind, Option.bind_eq_some_iff, cmpBytes_toList] at h
  obtain ⟨ds, hds, h⟩ := h
  have haccepts : acceptsAnnounce g b udp = decide (g.haveMaster = true ∧
      ds.portId = g.master.portId ∨ g.haveMaster = false ∨ datasetCmp ds g.master < 0) := by
    simp [acceptsAnnounce, hkind, Nat.not_lt.mp hlen, hds]
  split at h
  · rename_i hrefresh
    obtain ⟨g', hnote, heq⟩ := Option.bind_eq_some_iff.mp h
    cases heq
    obtain ⟨timeout, _, _, rfl⟩ := noteAnnounce_eq hnote
    exact .refreshed (by simp [haccepts, hrefresh]) hrefresh.1 rfl rfl
  rename_i hother
  split at h
  · rename_i hbetter
    obtain ⟨g', hnote, heq⟩ := Option.bind_eq_some_iff.mp h
    cases heq
    obtain ⟨timeout, _, _, rfl⟩ := noteAnnounce_eq hnote
    refine .selected ?_ rfl ((filtered_resetMeasurements
      { g with master := ds, haveMaster := true }).of_filter_eq rfl)
    rw [Bool.not_eq_true] at hbetter
    rw [haccepts]
    exact decide_eq_true (Or.inr hbetter)
  · rename_i hworse
    cases h
    refine .untouched ?_ rfl rfl
    rw [Bool.not_eq_true] at hworse
    rw [haccepts]
    exact decide_eq_false (not_or.mpr ⟨hother, hworse⟩)

theorem syncComplete_completed {t1 corr : Int64} {g₁ : PtpCore} {event : PtpEvent}
    (hrefused : acceptsAnnounce g b udp = false) (hmaster : g.haveMaster = true)
    (hevent : event.passes = true) (h : syncComplete o freq cnt t1 corr g₁ c = some out)
    (hpacing : g₁.pacing = g.pacing) (hfilter : g₁.filter = g.filter) :
    Upkeep o g (.rx cnt b udp rxCnt) out.core (out.events ++ [event]) := by
  rcases syncComplete_upkeep h with rfl | ⟨raw, servo, hpacing', hfilter', hevents⟩
  · refine .passed hrefused hpacing hfilter fun e he => ?_
    rw [List.mem_singleton.mp he]
    exact hevent
  · rw [hpacing] at hpacing'
    exact .completed hrefused hmaster hpacing' (hfilter'.trans hfilter) hevent
      (congrArg (· ++ [event]) hevents)

theorem handleSync_upkeep (hrefused : acceptsAnnounce g b udp = false)
    (hmaster : g.haveMaster = true) (h : handleSync o freq cnt b rxCnt g c = some out) :
    Upkeep o g (.rx cnt b udp rxCnt) out.core out.events := by
  unfold handleSync at h
  split at h
  · cases h
    exact .untouched hrefused rfl rfl
  simp only [Option.bind_eq_bind, Option.bind_eq_some_iff] at h
  obtain ⟨seq, _, t2, _, corr, _, flags, _, h⟩ := h
  split at h
  · cases h
    refine .passed hrefused rfl rfl fun e he => ?_
    rw [List.mem_singleton.mp he]
    rfl
  · simp only [Option.bind_eq_some_iff] at h
    obtain ⟨t1, _, out', hcomplete, heq⟩ := h
    cases heq
    exact syncComplete_completed hrefused hmaster rfl hcomplete rfl rfl

theorem handleFollowUp_upkeep (hrefused : acceptsAnnounce g b udp = false)
    (hmaster : g.haveMaster = true) (h : handleFollowUp o freq cnt b g c = some out) :
    Upkeep o g (.rx cnt b udp rxCnt) out.core out.events := by
  unfold handleFollowUp at h
  split at h
  · cases h
    exact .untouched hrefused rfl rfl
  simp only [Option.bind_eq_bind, Option.bind_eq_some_iff] at h
  obtain ⟨seq, _, h⟩ := h
  split at h
  · cases h
    exact .untouched hrefused rfl rfl
  · simp only [Option.bind_eq_some_iff] at h
    obtain ⟨t1, _, corr, _, total, _, out', hcomplete, heq⟩ := h
    cases heq
    exact syncComplete_completed hrefused hmaster rfl hcomplete rfl rfl

theorem handleDelayResp_upkeep (hkind : rxKind g b udp = .delayResp)
    (h : handleDelayResp o b g c = some out) :
    Upkeep o g (.rx cnt b udp rxCnt) out.core out.events := by
  cases handleDelayResp_effect h with
  | ignored | dropped => exact .untouched (acceptsAnnounce_of_rxKind (by simp [hkind])) rfl rfl
  | sampled _ _ _ _ _ _ hsample hmagnitude hwithin hadd =>
    refine .delaySampled hkind ((abs_sample_le_iff hsample hmagnitude).mpr hwithin) ?_ hadd rfl
    rw [delayAdd_eq] at hadd
    obtain ⟨d, _, rfl⟩ := Option.map_eq_some_iff.mp hadd
    rfl

theorem sendDelayReq_spec {now : UInt64} {sent : Option UInt64}
    (h : sendDelayReq o freq now sent g c = some out) :
    out.core.pacing = { g.pacing with dreqMs := g.nowMs } ∧ out.core.filter = g.filter ∧
      ∃ buf sent', out.events = [.delayReq buf sent' c] := by
  simp only [sendDelayReq, Option.bind_eq_bind, Option.bind_eq_some_iff] at h
  obtain ⟨_, _, origin, _, g', hg', heq⟩ := h
  cases heq
  have hsame : g'.pacing = g.pacing ∧ g'.filter = g.filter := by
    unfold noteSent at hg'
    split at hg'
    · obtain ⟨t3, _, heq⟩ := Option.bind_eq_some_iff.mp hg'
      cases heq
      exact ⟨rfl, rfl⟩
    · cases hg'
      exact ⟨rfl, rfl⟩
  refine ⟨?_, hsame.2, _, _, rfl⟩
  show { g'.pacing with dreqMs := g'.pacing.nowMs } = _
  rw [hsame.1]
  rfl

theorem ptpCorePoll_upkeep {now : UInt64} {sent : Option UInt64} {nowMs : UInt32}
    (h : ptpCorePoll o freq now sent nowMs g c = some out) :
    Upkeep o g (.poll now sent nowMs) out.core out.events := by
  simp only [ptpCorePoll] at h
  split at h
  · rename_i hexpired
    cases h
    exact .lost hexpired rfl ((filtered_resetMeasurements
      { g with nowMs := nowMs, haveMaster := false }).of_filter_eq rfl)
  rename_i hlive
  split at h
  · rename_i hready
    obtain ⟨hpacing, hfilter, buf, sent', hevents⟩ := sendDelayReq_spec h
    rw [hevents]
    exact .requested hlive hready.1 hready.2.1 hready.2.2 hpacing hfilter
  · cases h
    exact .idle hlive rfl rfl

theorem ptpCoreRx_upkeep (h : ptpCoreRx o freq cnt b udp rxCnt g c = some out) :
    Upkeep o g (.rx cnt b udp rxCnt) out.core out.events := by
  rw [ptpCoreRx_eq] at h
  have hrefused : rxKind g b udp ≠ .announce → acceptsAnnounce g b udp = false :=
    acceptsAnnounce_of_rxKind
  cases hkind : rxKind g b udp with
  | ignored =>
    rw [hkind] at h hrefused
    cases h
    exact .untouched (hrefused (by decide)) rfl rfl
  | announce =>
    rw [hkind] at h
    exact handleAnnounce_upkeep hkind h
  | sync =>
    rw [hkind] at h hrefused
    exact handleSync_upkeep (hrefused (by decide)) (isMaster_of_rxKind (Or.inl hkind)).1 h
  | followUp =>
    rw [hkind] at h hrefused
    exact handleFollowUp_upkeep (hrefused (by decide)) (isMaster_of_rxKind (Or.inr (Or.inl hkind))).1 h
  | delayResp =>
    rw [hkind] at h
    exact handleDelayResp_upkeep hkind h

theorem run_upkeep {s : PtpState} {call : PtpCall} (h : call.run o freq s = some out) :
    Upkeep o s.core call out.core out.events := by
  cases call with
  | rx => exact ptpCoreRx_upkeep h
  | poll => exact ptpCorePoll_upkeep h

theorem ptpEngine_run {core : PtpCore} {clock : PtpClock} {s s' : PtpState} {call : PtpCall}
    (h : (ptpEngine o freq core clock).Step s call s') :
    ∃ out, call.run o freq s = some out ∧ s' = ⟨out.core, out.clock, out.events ++ s.log⟩ := by
  obtain ⟨out, hout, hs'⟩ := Option.map_eq_some_iff.mp h.2
  exact ⟨out, hout, hs'.symm⟩

end FlintRTOS
