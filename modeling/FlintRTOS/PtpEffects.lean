import FlintRTOS.PtpMaster

/-!
# What a call of the engine does

`PtpView` is the part of the engine that pairs messages: whom it follows, the Sync
it holds, the last master-to-slave leg and the Delay_Req it waits for.
`PtpEffect` says all that a call can do to the view, the clock and the history, and
`ptpEngine_effect` that the engine does no more.  What is proved of runs rests on
these effects alone.
-/

namespace FlintRTOS

/-! ### The view -/

/-- The Sync that is held; `waiting` for its Follow_Up. -/
structure SyncHeld where
  waiting : Bool
  seq : UInt16
  t2 : Int64
  corr : Int64
  epoch : UInt32

structure LegHeld where
  valid : Bool
  leg : Int64
  epoch : UInt32

/-- The Delay_Req that waits for its answer. -/
structure ReqHeld where
  outstanding : Bool
  seq : UInt16
  t3 : Int64
  epoch : UInt32

structure PtpView where
  port : Option PortId
  sync : SyncHeld
  leg : LegHeld
  req : ReqHeld

def PtpCore.view (g : PtpCore) : PtpView where
  port := if g.haveMaster then some g.master.portId else none
  sync := ⟨g.syncWaitingFup, g.syncSeq, g.t2Ns, g.syncCorr, g.t2Epoch⟩
  leg := ⟨g.msValid, g.msLeg, g.msEpoch⟩
  req := ⟨g.dreqOutstanding, g.dreqSeq, g.t3Ns, g.t3Epoch⟩

/-- Nothing is held, and `port` is followed. -/
def PtpView.reset (v : PtpView) (port : Option PortId) : PtpView where
  port := port
  sync := { v.sync with waiting := false }
  leg := { v.leg with valid := false }
  req := { v.req with outstanding := false }

/-- A sample was taken; the leg is kept unless the clock was stepped by it. -/
def PtpView.sampled (v : PtpView) (raw : Int64) (c c' : PtpClock) : PtpView :=
  { v with
    sync := { v.sync with waiting := false }
    leg := if c'.epoch = c.epoch then ⟨true, raw, c.epoch⟩ else { v.leg with valid := false } }

def sampleEvents (raw : Int64) (c c' : PtpClock) : List PtpEvent :=
  if c'.epoch = c.epoch then [.sample raw c] else [.stepped, .sample raw c]

variable {g g' : PtpCore} {b : Bytes} {o : Overflow} {freq now rxCnt : UInt64} {c : PtpClock}
  {out : PtpOut} {udp : UInt16}

theorem isMaster_iff :
    IsMaster g b ↔ ∃ port, g.view.port = some port ∧ sourcePort b = some port := by
  cases h : g.haveMaster <;> simp [IsMaster, PtpCore.view, h, eq_comm]

/-- The raw offset: `t2 - (t1 + corr)`. -/
def RawOffset (o : Overflow) (t1 corr t2 raw : Int64) : Prop :=
  ∃ sum, o.add t1 corr = some sum ∧ o.sub t2 sum = some raw

/-- The twoStepFlag of a Sync. -/
def twoStep (b : Bytes) : Option Bool := b[6]?.map fun flags => decide (flags &&& 0x02 ≠ 0)

/-- What `handle_sync` reads from a Sync and keeps. -/
structure SyncRead (o : Overflow) (freq : UInt64) (b : Bytes) (rxCnt : UInt64) (c : PtpClock)
    (held : SyncHeld) : Prop where
  seq : sequenceId b = some held.seq
  t2 : ptpClockFromCnt o freq c rxCnt = some held.t2
  corr : rdCorrNs o b = some held.corr
  epoch : held.epoch = c.epoch

/-! ### Effects -/

/-- All that a call can do: the view, the clock and the events it leaves. -/
inductive PtpEffect (o : Overflow) (freq : UInt64) (g : PtpCore) (c : PtpClock) :
    PtpCall → PtpView → PtpClock → List PtpEvent → Prop where
  /-- Nothing that matters for pairing. -/
  | quiet {call : PtpCall} : PtpEffect o freq g c call g.view c []
  | selected {call : PtpCall} {port : PortId} :
      PtpEffect o freq g c call (g.view.reset (some port)) c [.selected port]
  | lost {call : PtpCall} : PtpEffect o freq g c call (g.view.reset none) c [.lost]
  /-- A two-step Sync waits for its Follow_Up. -/
  | syncHeld {cnt : CntReads} {b : Bytes} {udp : UInt16} {rxCnt : UInt64} {port : PortId}
      {held : SyncHeld} (hport : g.view.port = some port) (hsource : sourcePort b = some port)
      (hread : SyncRead o freq b rxCnt c held) (hwaiting : held.waiting = true)
      (hstep : twoStep b = some true) :
      PtpEffect o freq g c (.rx cnt b udp rxCnt) { g.view with sync := held } c [.sync b rxCnt c]
  /-- A one-step Sync is complete at once. -/
  | syncSampled {cnt : CntReads} {b : Bytes} {udp : UInt16} {rxCnt : UInt64} {port : PortId}
      {held : SyncHeld} {t1 raw : Int64} {c' : PtpClock}
      (hport : g.view.port = some port) (hsource : sourcePort b = some port)
      (hread : SyncRead o freq b rxCnt c held) (hstep : twoStep b = some false)
      (ht1 : rdTsNs o b 34 = some t1) (hraw : RawOffset o t1 held.corr held.t2 raw) :
      PtpEffect o freq g c (.rx cnt b udp rxCnt)
        ({ g.view with sync := held }.sampled raw c c') c' (sampleEvents raw c c' ++ [.sync b rxCnt c])
  /-- A Follow_Up finds the clock stepped since its Sync. -/
  | followUpDropped {cnt : CntReads} {b : Bytes} {udp : UInt16} {rxCnt : UInt64}
      (hwaiting : g.view.sync.waiting = true) (hepoch : g.view.sync.epoch ≠ c.epoch) :
      PtpEffect o freq g c (.rx cnt b udp rxCnt)
        { g.view with sync := { g.view.sync with waiting := false } } c [.followUp b]
  | followUpSampled {cnt : CntReads} {b : Bytes} {udp : UInt16} {rxCnt : UInt64} {port : PortId}
      {t1 corr total raw : Int64} {c' : PtpClock}
      (hport : g.view.port = some port) (hsource : sourcePort b = some port)
      (hwaiting : g.view.sync.waiting = true) (hseq : sequenceId b = some g.view.sync.seq)
      (ht1 : rdTsNs o b 34 = some t1) (hcorr : rdCorrNs o b = some corr)
      (htotal : o.add g.view.sync.corr corr = some total) (hraw : RawOffset o t1 total g.view.sync.t2 raw) :
      PtpEffect o freq g c (.rx cnt b udp rxCnt) (g.view.sampled raw c c') c'
        (sampleEvents raw c c' ++ [.followUp b])
  /-- A Delay_Resp ends the wait and yields nothing. -/
  | respDropped {call : PtpCall} :
      PtpEffect o freq g c call { g.view with req := { g.view.req with outstanding := false } } c []
  | respSampled {cnt : CntReads} {b : Bytes} {udp : UInt16} {rxCnt : UInt64} {port : PortId}
      {sample : Int64} (hkind : rxKind g b udp = .delayResp)
      (hport : g.view.port = some port) (hsource : sourcePort b = some port)
      (houtstanding : g.view.req.outstanding = true) (hseq : sequenceId b = some g.view.req.seq)
      (hself : copyBytes b 44 10 = some g.selfId) (ht3 : g.view.req.epoch = c.epoch)
      (hvalid : g.view.leg.valid = true) (hepoch : g.view.leg.epoch = g.view.req.epoch)
      (hsample : delaySampleOf o b g.view.leg.leg g.view.req.t3 = some sample) :
      PtpEffect o freq g c (.rx cnt b udp rxCnt)
        { g.view with req := { g.view.req with outstanding := false } } c [.delaySample b sample c]
  | sent {call : PtpCall} {buf : Bytes} {txCnt : UInt64} {t3 : Int64}
      (hseq : sequenceId buf = some (g.view.req.seq + 1))
      (ht3 : ptpClockFromCnt o freq c txCnt = some t3) :
      PtpEffect o freq g c call { g.view with req := ⟨true, g.view.req.seq + 1, t3, c.epoch⟩ } c
        [.delayReq buf (some txCnt) c]
  | unsent {call : PtpCall} {buf : Bytes} (hseq : sequenceId buf = some (g.view.req.seq + 1)) :
      PtpEffect o freq g c call { g.view with req := { g.view.req with seq := g.view.req.seq + 1 } } c
        [.delayReq buf none c]

/-! ### The engine has no other effects -/

/-- Only the statistics differ. -/
structure SameButStats (g g' : PtpCore) : Prop where
  eq : ∃ sum max sq n, g' = { g with stSum := sum, stMax := max, stSq := sq, stN := n }

theorem countOffset_same {offset : Int64} (h : countOffset o offset g = some g') :
    SameButStats g g' := by
  unfold countOffset at h
  split at h
  · simp only [Option.bind_eq_bind, Option.bind_eq_some_iff] at h
    obtain ⟨_, _, _, _, _, _, heq⟩ := h
    cases heq
    exact ⟨_, _, _, _, rfl⟩
  · cases h
    exact ⟨_, _, _, _, rfl⟩

theorem report_same {offset : Int64} (h : report o freq now offset g c = some g') :
    SameButStats g g' := by
  simp only [report, Option.bind_eq_bind, Option.bind_eq_some_iff] at h
  obtain ⟨g₁, hcount, _, _, heq⟩ := h
  obtain ⟨_, _, _, _, rfl⟩ := (countOffset_same hcount).eq
  split at heq
  · cases heq
    exact ⟨_, _, _, _, rfl⟩
  · cases heq
    exact ⟨_, _, _, _, rfl⟩

theorem delayAdd_view {sample : Int64} (h : delayAdd o sample g = some g') :
    g'.view = g.view ∧ g'.selfId = g.selfId := by
  simp only [delayAdd, Option.bind_eq_bind, Option.bind_eq_some_iff] at h
  obtain ⟨_, _, heq⟩ := h
  cases heq
  exact ⟨rfl, rfl⟩

variable {cnt : CntReads} {call : PtpCall}

theorem syncComplete_spec {t1 corr : Int64} (h : syncComplete o freq cnt t1 corr g c = some out)
    (hwaiting : g.syncWaitingFup = false) (hepoch : g.t2Epoch = c.epoch) :
    ∃ raw, RawOffset o t1 corr g.t2Ns raw ∧ out.core.view = g.view.sampled raw c out.clock ∧
      out.events = sampleEvents raw c out.clock ∧ out.core.selfId = g.selfId := by
  simp only [syncComplete, hepoch, ne_eq, not_true_eq_false, if_false, Option.bind_eq_bind,
    Option.bind_eq_some_iff] at h
  obtain ⟨sum, hsum, raw, hraw, ⟨offset, servo, c'⟩, _, g', hreport, heq⟩ := h
  cases heq
  obtain ⟨_, _, _, _, rfl⟩ := (report_same hreport).eq
  refine ⟨raw, ⟨sum, hsum, hraw⟩, ?_, rfl, ?_⟩
  · by_cases hsame : c'.epoch = c.epoch
    · simp [PtpCore.view, PtpView.sampled, hsame, hwaiting, hepoch]
    · simp [PtpCore.view, PtpView.sampled, hsame, hwaiting, hepoch]
  · dsimp only
    split <;> rfl

/-- A call's outcome has an effect on the view and keeps who we are. -/
def HasEffect (o : Overflow) (freq : UInt64) (g : PtpCore) (c : PtpClock) (call : PtpCall)
    (out : PtpOut) : Prop :=
  PtpEffect o freq g c call out.core.view out.clock out.events ∧ out.core.selfId = g.selfId

theorem hasEffect_quiet (hview : g'.view = g.view) (hself : g'.selfId = g.selfId) :
    HasEffect o freq g c call ⟨g', c, []⟩ := by
  refine ⟨?_, hself⟩
  show PtpEffect o freq g c call g'.view c []
  rw [hview]
  exact .quiet

theorem SameButAnnounce.view (h : SameButAnnounce g g') :
    g'.view = g.view ∧ g'.selfId = g.selfId := by
  obtain ⟨_, _, _, _, rfl⟩ := h.eq
  exact ⟨rfl, rfl⟩

theorem resetMeasurements_view (g : PtpCore) (ds : Dataset) :
    (resetMeasurements { g with master := ds, haveMaster := true }).view =
      g.view.reset (some ds.portId) :=
  rfl

theorem handleAnnounce_hasEffect (h : handleAnnounce b g c = some out) :
    HasEffect o freq g c call out := by
  obtain ⟨out', hout, heffect⟩ := handleAnnounce_effect b g c
  cases h.symm.trans hout
  cases heffect with
  | short => exact hasEffect_quiet rfl rfl
  | refreshed _ _ _ hport hsame =>
    obtain ⟨hview, hself⟩ := hsame.view
    refine hasEffect_quiet (hview.trans ?_) hself
    simp only [PtpCore.view, hport]
  | selected _ _ _ hsame =>
    obtain ⟨hview, hself⟩ := hsame.view
    refine ⟨?_, hself⟩
    show PtpEffect o freq g c call _ c _
    rw [hview, resetMeasurements_view]
    exact .selected
  | worse => exact hasEffect_quiet rfl rfl

theorem handleSync_hasEffect (hmaster : IsMaster g b)
    (h : handleSync o freq cnt b rxCnt g c = some out) :
    HasEffect o freq g c (.rx cnt b udp rxCnt) out := by
  obtain ⟨port, hport, hsource⟩ := isMaster_iff.mp hmaster
  unfold handleSync at h
  split at h
  · cases h
    exact hasEffect_quiet rfl rfl
  simp only [Option.bind_eq_bind, Option.bind_eq_some_iff] at h
  obtain ⟨seq, hseq, t2, ht2, corr, hcorr, flags, hflags, h⟩ := h
  by_cases hstep : flags &&& 0x02 ≠ 0
  · rw [if_pos hstep] at h
    cases h
    have hread : SyncRead o freq b rxCnt c ⟨true, seq, t2, corr, c.epoch⟩ := ⟨hseq, ht2, hcorr, rfl⟩
    exact ⟨.syncHeld hport hsource hread rfl (by simp [twoStep, hflags, hstep]), rfl⟩
  · rw [if_neg hstep] at h
    simp only [Option.bind_eq_some_iff] at h
    obtain ⟨t1, ht1, out', hcomplete, heq⟩ := h
    cases heq
    have hread : SyncRead o freq b rxCnt c ⟨false, seq, t2, corr, c.epoch⟩ := ⟨hseq, ht2, hcorr, rfl⟩
    obtain ⟨raw, hraw, hview, hevents, hself⟩ := syncComplete_spec hcomplete rfl rfl
    refine ⟨?_, hself⟩
    show PtpEffect o freq g c _ out'.core.view out'.clock (out'.events ++ _)
    rw [hview, hevents]
    exact .syncSampled hport hsource hread (by simpa [twoStep, hflags] using hstep) ht1 hraw

theorem handleFollowUp_hasEffect (hmaster : IsMaster g b)
    (h : handleFollowUp o freq cnt b g c = some out) :
    HasEffect o freq g c (.rx cnt b udp rxCnt) out := by
  obtain ⟨port, hport, hsource⟩ := isMaster_iff.mp hmaster
  unfold handleFollowUp at h
  split at h
  · cases h
    exact hasEffect_quiet rfl rfl
  rename_i hready
  have hwaiting : g.syncWaitingFup = true := by simpa using (not_or.mp hready).2
  simp only [Option.bind_eq_bind, Option.bind_eq_some_iff] at h
  obtain ⟨seq, hseq, h⟩ := h
  by_cases hmatch : seq ≠ g.syncSeq
  · rw [if_pos hmatch] at h
    cases h
    exact hasEffect_quiet rfl rfl
  rw [if_neg hmatch] at h
  simp only [Option.bind_eq_some_iff] at h
  obtain ⟨t1, ht1, corr, hcorr, total, htotal, out', hcomplete, heq⟩ := h
  cases heq
  by_cases hepoch : g.t2Epoch = c.epoch
  · obtain ⟨raw, hraw, hview, hevents, hself⟩ := syncComplete_spec hcomplete rfl hepoch
    refine ⟨?_, hself⟩
    show PtpEffect o freq g c _ out'.core.view out'.clock (out'.events ++ _)
    rw [hview, hevents]
    exact .followUpSampled hport hsource hwaiting (hseq.trans (congrArg some (not_not.mp hmatch)))
      ht1 hcorr htotal hraw
  · simp only [syncComplete, ne_eq, hepoch, not_false_eq_true, if_true] at hcomplete
    cases hcomplete
    exact ⟨.followUpDropped hwaiting hepoch, rfl⟩

/-- Everything `handle_delay_resp` does. -/
inductive RespEffect (o : Overflow) (b : Bytes) (g : PtpCore) (c : PtpClock) : PtpOut → Prop where
  | ignored : RespEffect o b g c ⟨g, c, []⟩
  /-- The request is answered, but its halves do not match or are too far apart. -/
  | dropped : RespEffect o b g c ⟨{ g with dreqOutstanding := false }, c, []⟩
  | sampled {sample magnitude : Int64} {g' : PtpCore} (houtstanding : g.dreqOutstanding = true)
      (hseq : rd16 b 30 = some g.dreqSeq) (hself : copyBytes b 44 10 = some g.selfId)
      (ht3 : g.t3Epoch = c.epoch) (hvalid : g.msValid = true) (hepoch : g.msEpoch = g.t3Epoch)
      (hsample : delaySampleOf o b g.msLeg g.t3Ns = some sample)
      (hmagnitude : abs64 o sample = some magnitude) (hwithin : magnitude ≤ ptpDelayMaxNs)
      (hadd : delayAdd o sample { g with dreqOutstanding := false } = some g') :
      RespEffect o b g c ⟨g', c, [.delaySample b sample c]⟩

theorem handleDelayResp_effect (h : handleDelayResp o b g c = some out) :
    RespEffect o b g c out := by
  unfold handleDelayResp at h
  split at h
  · cases h
    exact .ignored
  rename_i hready
  have houtstanding : g.dreqOutstanding = true := by simpa using (not_or.mp hready).2
  simp only [Option.bind_eq_bind, Option.bind_eq_some_iff] at h
  obtain ⟨seq, hseq, requesting, hrequesting, h⟩ := h
  by_cases hother : seq ≠ g.dreqSeq ∨ cmpBytes requesting.toList g.selfId.toList ≠ 0
  · rw [if_pos hother] at h
    cases h
    exact .ignored
  rw [if_neg hother] at h
  obtain ⟨hsame, hours⟩ := not_or.mp hother
  have hself := cmpBytes_toList.mp (not_not.mp hours)
  by_cases hstale : g.t3Epoch ≠ c.epoch ∨ g.msValid = false ∨ g.msEpoch ≠ g.t3Epoch
  · rw [if_pos hstale] at h
    cases h
    exact .dropped
  rw [if_neg hstale] at h
  simp only [not_or, not_not, Bool.not_eq_false] at hstale
  simp only [Option.bind_eq_some_iff] at h
  obtain ⟨sample, hsample, magnitude, hmagnitude, h⟩ := h
  by_cases hlarge : magnitude > ptpDelayMaxNs
  · rw [if_pos hlarge] at h
    cases h
    exact .dropped
  rw [if_neg hlarge] at h
  obtain ⟨g', hadd, heq⟩ := Option.bind_eq_some_iff.mp h
  cases heq
  exact .sampled houtstanding (hseq.trans (congrArg some (not_not.mp hsame))) (hself ▸ hrequesting)
    hstale.1 hstale.2.1 hstale.2.2 hsample hmagnitude (Int64.not_lt.mp hlarge) hadd

theorem handleDelayResp_hasEffect (hkind : rxKind g b udp = .delayResp) (hmaster : IsMaster g b)
    (h : handleDelayResp o b g c = some out) : HasEffect o freq g c (.rx cnt b udp rxCnt) out := by
  obtain ⟨port, hport, hsource⟩ := isMaster_iff.mp hmaster
  cases handleDelayResp_effect h with
  | ignored => exact hasEffect_quiet rfl rfl
  | dropped => exact ⟨.respDropped, rfl⟩
  | @sampled _ _ g' houtstanding hseq hself ht3 hvalid hepoch hsample _ _ hadd =>
    obtain ⟨hview, hid⟩ := delayAdd_view hadd
    refine ⟨?_, hid⟩
    show PtpEffect o freq g c _ g'.view c _
    rw [hview]
    exact .respSampled hkind hport hsource houtstanding hseq hself ht3 hvalid hepoch hsample

/-- `g₀` is the engine at the start of the call that sends. -/
theorem sendDelayReq_hasEffect {sent : Option UInt64} {g₀ : PtpCore}
    (h : sendDelayReq o freq now sent g c = some out) (hview : g.view = g₀.view)
    (hself : g.selfId = g₀.selfId) : HasEffect o freq g₀ c call out := by
  simp only [sendDelayReq, Option.bind_eq_bind, Option.bind_eq_some_iff] at h
  obtain ⟨_, _, origin, _, g', hg', heq⟩ := h
  cases heq
  have hseq := sequenceId_ptpPackDelayReq g.self (g.dreqSeq + 1) (ptpInternalToTs origin)
  have hnext : g.dreqSeq + 1 = g₀.view.req.seq + 1 := by
    rw [← hview]
    rfl
  cases hsent : (if g.tx then sent else none) with
  | none =>
    rw [hsent] at hg'
    cases hg'
    refine ⟨?_, hself⟩
    show PtpEffect o freq g₀ c call
      { g.view with req := { g.view.req with seq := g.dreqSeq + 1 } } c _
    rw [hview, hnext]
    exact .unsent (by rw [← hnext]; exact hseq)
  | some txCnt =>
    rw [hsent] at hg'
    obtain ⟨t3, ht3, heq⟩ := Option.bind_eq_some_iff.mp hg'
    cases heq
    refine ⟨?_, hself⟩
    show PtpEffect o freq g₀ c call
      { g.view with req := ⟨true, g.dreqSeq + 1, t3, c.epoch⟩ } c _
    rw [hview, hnext]
    exact .sent (by rw [← hnext]; exact hseq) ht3

theorem ptpCorePoll_hasEffect {sent : Option UInt64} {nowMs : UInt32}
    (h : ptpCorePoll o freq now sent nowMs g c = some out) :
    HasEffect o freq g c (.poll now sent nowMs) out := by
  simp only [ptpCorePoll] at h
  split at h
  · cases h
    exact ⟨.lost, rfl⟩
  · split at h
    · exact sendDelayReq_hasEffect h rfl rfl
    · cases h
      exact hasEffect_quiet rfl rfl

theorem isMaster_of_rxKind {port : UInt16}
    (h : rxKind g b port = .sync ∨ rxKind g b port = .followUp ∨ rxKind g b port = .delayResp) :
    IsMaster g b := by
  unfold rxKind at h
  split_ifs at h <;> simp_all

theorem ptpCoreRx_hasEffect (h : ptpCoreRx o freq cnt b udp rxCnt g c = some out) :
    HasEffect o freq g c (.rx cnt b udp rxCnt) out := by
  rw [ptpCoreRx_eq] at h
  cases hkind : rxKind g b udp with
  | ignored =>
    rw [hkind] at h
    cases h
    exact hasEffect_quiet rfl rfl
  | announce =>
    rw [hkind] at h
    exact handleAnnounce_hasEffect h
  | sync =>
    rw [hkind] at h
    exact handleSync_hasEffect (isMaster_of_rxKind (Or.inl hkind)) h
  | followUp =>
    rw [hkind] at h
    exact handleFollowUp_hasEffect (isMaster_of_rxKind (Or.inr (Or.inl hkind))) h
  | delayResp =>
    rw [hkind] at h
    exact handleDelayResp_hasEffect hkind (isMaster_of_rxKind (Or.inr (Or.inr hkind))) h

/-- A step of the engine is one of the effects. -/
theorem ptpEngine_effect {core : PtpCore} {clock : PtpClock} {s s' : PtpState}
    (h : (ptpEngine o freq core clock).Step s call s') :
    ∃ events, PtpEffect o freq s.core s.clock call s'.core.view s'.clock events ∧
      s'.log = events ++ s.log ∧ s'.core.selfId = s.core.selfId := by
  obtain ⟨_, hexec⟩ := h
  obtain ⟨out, hout, rfl⟩ := Option.map_eq_some_iff.mp hexec
  have heffect : HasEffect o freq s.core s.clock call out := by
    cases call with
    | rx => exact ptpCoreRx_hasEffect hout
    | poll => exact ptpCorePoll_hasEffect hout
  exact ⟨out.events, heffect.1, rfl, heffect.2⟩

end FlintRTOS
