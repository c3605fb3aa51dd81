import FlintRTOS.History
import FlintRTOS.PtpEffects

/-!
# Pairing of messages

What the slave computes from several messages is computed from messages that belong
together.  An offset comes from the latest Sync of the master and from its own
Follow_Up; a path delay from a Delay_Resp, the Delay_Req it answers and the latest
leg, all in one clock epoch and from one master.

The second holds only as long as no Delay_Resp answers a Delay_Req that was not
sent: `send_delay_req` takes the next sequence id before it knows whether the hook
succeeds, and keeps the stamp of the request before.
-/

namespace FlintRTOS

open History

/-! ### The history -/

/-- The master the history ends with. -/
def selectedPort : List PtpEvent → Option PortId
  | [] => none
  | .selected port :: _ => some port
  | .lost :: _ => none
  | _ :: log => selectedPort log

/-- A Sync is used up or void. -/
def endsSync : PtpEvent → Bool
  | .sync .. | .sample .. | .stepped | .selected _ | .lost => true
  | _ => false

/-- A leg is replaced or void. -/
def endsLeg : PtpEvent → Bool
  | .sample .. | .stepped | .selected _ | .lost => true
  | _ => false

/-- A Delay_Req is replaced, used up or void. -/
def endsReq : PtpEvent → Bool
  | .delayReq _ (some _) _ | .delaySample .. | .selected _ | .lost => true
  | _ => false

variable {e : PtpEvent} {o : Overflow} {freq : UInt64} {v v' : PtpView} {c c' : PtpClock}
  {log : List PtpEvent} {raw : Int64} {ours : PortId}

theorem selectedPort_cons (he : endsSync e = false) (log : List PtpEvent) :
    selectedPort (e :: log) = selectedPort log := by
  cases e with
  | followUp | delayReq | delaySample => rfl
  | _ => cases he

theorem selectedPort_sampleEvents (raw : Int64) (c c' : PtpClock) (log : List PtpEvent) :
    selectedPort (sampleEvents raw c c' ++ log) = selectedPort log := by
  unfold sampleEvents
  split <;> rfl

/-! ### Offsets -/

/-- The sample `raw` belongs to the latest Sync before it: one-step, or with the
    Follow_Up that came just before the sample.  The clock has not been changed
    since that Sync. -/
def SamplePaired (o : Overflow) (freq : UInt64) (raw : Int64) (clock : PtpClock)
    (past : List PtpEvent) : Prop :=
  ∃ buf rxCnt port t2 t1 corr, Latest endsSync (.sync buf rxCnt clock) past ∧
    selectedPort past = some port ∧ sourcePort buf = some port ∧
    ptpClockFromCnt o freq clock rxCnt = some t2 ∧ RawOffset o t1 corr t2 raw ∧
    ((twoStep buf = some false ∧ rdTsNs o buf 34 = some t1 ∧ rdCorrNs o buf = some corr) ∨
      ∃ fup corr₁ corr₂, twoStep buf = some true ∧ past.head? = some (.followUp fup) ∧
        sourcePort fup = some port ∧ sequenceId fup = sequenceId buf ∧
        rdTsNs o fup 34 = some t1 ∧ rdCorrNs o buf = some corr₁ ∧ rdCorrNs o fup = some corr₂ ∧
        o.add corr₁ corr₂ = some corr)

def EventPaired (o : Overflow) (freq : UInt64) : PtpEvent → List PtpEvent → Prop
  | .sample raw clock, past => SamplePaired o freq raw clock past
  | _, _ => True

/-- The Sync that waits is the latest one, and every sample so far was paired. -/
structure SyncInv (o : Overflow) (freq : UInt64) (v : PtpView) (c : PtpClock)
    (log : List PtpEvent) : Prop where
  port : selectedPort log = v.port
  held : v.sync.waiting = true → ∃ buf rxCnt port, Latest endsSync (.sync buf rxCnt c) log ∧
    SyncRead o freq buf rxCnt c v.sync ∧ v.port = some port ∧ sourcePort buf = some port ∧
    twoStep buf = some true
  paired : ∀ e past, (e :: past) <:+ log → EventPaired o freq e past

theorem SyncInv.neutral (h : SyncInv o freq v c log) (he : endsSync e = false)
    (hport : v'.port = v.port) (hsync : v'.sync = v.sync) : SyncInv o freq v' c (e :: log) := by
  refine ⟨?_, ?_, ?_⟩
  · rw [selectedPort_cons he, hport]
    exact h.port
  · rw [hport, hsync]
    intro hwaiting
    obtain ⟨buf, rxCnt, port, hlatest, hrest⟩ := h.held hwaiting
    exact ⟨buf, rxCnt, port, hlatest.cons he, hrest⟩
  · refine forall_suffix_cons h.paired ?_
    cases e with
    | sample => cases he
    | _ => trivial

theorem SyncInv.sampled (hport : selectedPort log = v.port)
    (hpaired : ∀ e past, (e :: past) <:+ log → EventPaired o freq e past)
    (hsample : SamplePaired o freq raw c log) :
    SyncInv o freq (v.sampled raw c c') c' (sampleEvents raw c c' ++ log) := by
  refine ⟨?_, fun hwaiting => absurd hwaiting Bool.false_ne_true, ?_⟩
  · rw [selectedPort_sampleEvents]
    exact hport
  · unfold sampleEvents
    split
    · exact forall_suffix_cons hpaired hsample
    · exact forall_suffix_cons (forall_suffix_cons hpaired hsample) trivial

variable {g : PtpCore} {call : PtpCall} {events : List PtpEvent} {mac : Vector UInt8 6}
  {domain : UInt8} {tx : Bool} {clock : PtpClock} {s : PtpState}

theorem syncInv_step (h : SyncInv o freq g.view c log)
    (heffect : PtpEffect o freq g c call v' c' events) : SyncInv o freq v' c' (events ++ log) := by
  cases heffect with
  | quiet => exact h
  | selected =>
    exact ⟨rfl, fun hwaiting => absurd hwaiting Bool.false_ne_true,
      forall_suffix_cons h.paired trivial⟩
  | lost =>
    exact ⟨rfl, fun hwaiting => absurd hwaiting Bool.false_ne_true,
      forall_suffix_cons h.paired trivial⟩
  | syncHeld hport hsource hread _ hstep =>
    exact ⟨h.port, fun _ => ⟨_, _, _, .here, hread, hport, hsource, hstep⟩,
      forall_suffix_cons h.paired trivial⟩
  | @syncSampled cnt b udp rxCnt port held t1 raw _ hport hsource hread hstep ht1 hraw =>
    rw [List.append_assoc]
    refine SyncInv.sampled (v := { g.view with sync := held }) h.port
      (forall_suffix_cons h.paired trivial) ?_
    exact ⟨b, rxCnt, port, held.t2, t1, held.corr, .here, h.port.trans hport, hsource, hread.t2,
      hraw, Or.inl ⟨hstep, ht1, hread.corr⟩⟩
  | followUpDropped hwaiting hepoch =>
    -- the clock is as it was at the Sync
    obtain ⟨_, _, _, _, hread, _⟩ := h.held hwaiting
    exact absurd hread.epoch hepoch
  | @followUpSampled cnt b udp rxCnt port t1 corr total raw _ hport hsource hwaiting hseq ht1 hcorr
      htotal hraw =>
    rw [List.append_assoc]
    obtain ⟨buf, rxCnt₀, port₀, hlatest, hread, hport₀, hsource₀, hstep⟩ := h.held hwaiting
    obtain rfl : port₀ = port := Option.some.inj (hport₀.symm.trans hport)
    refine SyncInv.sampled h.port (forall_suffix_cons h.paired trivial) ?_
    exact ⟨buf, rxCnt₀, port₀, g.view.sync.t2, t1, total, hlatest.cons rfl, h.port.trans hport,
      hsource₀, hread.t2, hraw, Or.inr ⟨b, g.view.sync.corr, corr, hstep, rfl, hsource,
        hseq.trans hread.seq.symm, ht1, hread.corr, hcorr, htotal⟩⟩
  | respDropped => exact ⟨h.port, h.held, h.paired⟩
  | respSampled => exact h.neutral rfl rfl rfl
  | sent => exact h.neutral rfl rfl rfl
  | unsent => exact h.neutral rfl rfl rfl

theorem syncInv_of_reach (h : (ptpEngine o freq (ptpCoreInit mac domain tx) clock).Reach s) :
    SyncInv o freq s.core.view s.clock s.log := by
  refine h.invariant (P := fun s => SyncInv o freq s.core.view s.clock s.log) ?_ ?_
  · refine ⟨rfl, fun hwaiting => absurd hwaiting Bool.false_ne_true, fun e past hsuffix => ?_⟩
    exact absurd (List.suffix_nil.mp hsuffix) (List.cons_ne_nil e past)
  · intro s call s' _ ih hstep
    obtain ⟨events, heffect, hlog, _⟩ := ptpEngine_effect hstep
    rw [hlog]
    exact syncInv_step ih heffect

/-- **Sync pairing.**  In every run after `ptp_core_init`, each sample given to the
    servo is `t2 - (t1 + corr)` of the latest Sync accepted from the selected
    master, with its own Follow_Up if it has two steps, and neither a step of the
    clock nor a change of the master came between.  Two samples never share a Sync:
    the one of the later sample was accepted after the earlier sample. -/
theorem sync_pairing {o : Overflow} {freq : UInt64} {mac : Vector UInt8 6} {domain : UInt8}
    {tx : Bool} {clock : PtpClock} {s : PtpState}
    (h : (ptpEngine o freq (ptpCoreInit mac domain tx) clock).Reach s) :
    selectedPort s.log = (if s.core.haveMaster then some s.core.master.portId else none) ∧
      (∀ raw c past, (.sample raw c :: past) <:+ s.log → SamplePaired o freq raw c past) ∧
      ∀ raw c between raw' c' past,
        (.sample raw c :: (between ++ .sample raw' c' :: past)) <:+ s.log →
        ∃ buf rxCnt, Latest endsSync (.sync buf rxCnt c) between := by
  have hinv := syncInv_of_reach h
  refine ⟨hinv.port, fun raw c past hsuffix => hinv.paired _ _ hsuffix, ?_⟩
  intro raw c between raw' c' past hsuffix
  obtain ⟨buf, rxCnt, _, _, _, _, hlatest, _⟩ := hinv.paired _ _ hsuffix
  exact ⟨buf, rxCnt, hlatest.since rfl (by simp)⟩

/-- One message or poll at a counter of 1 GHz. -/
def plainRx (msg : Bytes) (port : UInt16) (cnt : UInt64) : PtpCall := .rx ⟨cnt, cnt, cnt⟩ msg port cnt

/-- The last thing done was to take a sample. -/
def lastSample : List PtpEvent → Option (Int64 × PtpClock)
  | .sample raw c :: _ => some (raw, c)
  | _ => none

theorem lastSample_eq (h : lastSample log = some (raw, c)) :
    ∃ past, log = .sample raw c :: past := by
  unfold lastSample at h
  split at h
  · cases h
    exact ⟨_, rfl⟩
  · cases h

/-- A one-step Sync steps the clock; a two-step one then waits and is completed by
    its Follow_Up. -/
theorem sync_pairing_two_step :
    ∃ s, (ptpEngine .trap 1000000000 plainCore ⟨0, 0, 0, 0⟩).Reach s ∧
      ∃ c past, s.log = .sample 1000 c :: past ∧
        SamplePaired .trap 1000000000 1000 c past := by
  obtain ⟨s, hreach, hs⟩ := (ptpEngine .trap 1000000000 plainCore ⟨0, 0, 0, 0⟩).exists_reach
    [plainAnnounce 1 5, plainRx (plainMsg 0x0 1 1 44) 319 1000,
      plainRx ((plainMsg 0x0 1 2 44).set 6 2) 319 2000, plainRx (plainMsg 0x8 1 2 44) 320 2500]
    (fun s => lastSample s.log = some (1000, s.clock)) (by decide +kernel)
  obtain ⟨past, hlog⟩ := lastSample_eq (of_decide_eq_true hs)
  exact ⟨s, hreach, s.clock, past, hlog, (sync_pairing hreach).2.1 1000 s.clock past (by rw [hlog])⟩

/-! ### Path delays -/

/-- The Delay_Reqs that the hook failed to send since the last one it sent, newest
    first. -/
def unsent : List PtpEvent → List Bytes
  | [] => []
  | .delayReq buf none _ :: log => buf :: unsent log
  | .delayReq _ (some _) _ :: _ => []
  | _ :: log => unsent log

/-- The path delay `sample` belongs to one Delay_Req: the Delay_Resp answers it, and
    it was sent in the clock epoch and to the master of the leg. -/
def DelayPaired (o : Overflow) (freq : UInt64) (ours : PortId) (resp : Bytes) (sample : Int64)
    (clock : PtpClock) (past : List PtpEvent) : Prop :=
  ∃ port req txCnt reqClock t3 leg legClock,
    selectedPort past = some port ∧ sourcePort resp = some port ∧
    copyBytes resp 44 10 = some ours ∧
    Latest endsReq (.delayReq req (some txCnt) reqClock) past ∧
    sequenceId req = sequenceId resp ∧ ptpClockFromCnt o freq reqClock txCnt = some t3 ∧
    Latest endsLeg (.sample leg legClock) past ∧
    reqClock.epoch = clock.epoch ∧ legClock.epoch = clock.epoch ∧
    delaySampleOf o resp leg t3 = some sample

def DelayEventPaired (o : Overflow) (freq : UInt64) (ours : PortId) :
    PtpEvent → List PtpEvent → Prop
  | .delaySample resp sample clock, past => DelayPaired o freq ours resp sample clock past
  | _, _ => True

/-- No Delay_Resp answers a Delay_Req that the hook failed to send while an earlier
    one is outstanding. -/
def AnswersSent (s : PtpState) : PtpCall → Prop
  | .rx _ b udp _ => rxKind s.core b udp = .delayResp → s.core.dreqOutstanding = true →
      ∀ req ∈ unsent s.log, sequenceId req ≠ sequenceId b
  | .poll .. => True

instance (s : PtpState) : ∀ call, Decidable (AnswersSent s call)
  | .rx .. => inferInstanceAs (Decidable (_ → _ → _))
  | .poll .. => inferInstanceAs (Decidable True)

/-- What is held for the next Delay_Resp. -/
structure DelayInv (o : Overflow) (freq : UInt64) (ours : PortId) (v : PtpView)
    (log : List PtpEvent) : Prop where
  leg : v.leg.valid = true → ∃ clock, Latest endsLeg (.sample v.leg.leg clock) log ∧
    clock.epoch = v.leg.epoch
  req : v.req.outstanding = true → ∃ req txCnt clock,
    Latest endsReq (.delayReq req (some txCnt) clock) log ∧
    ptpClockFromCnt o freq clock txCnt = some v.req.t3 ∧ clock.epoch = v.req.epoch ∧
    (unsent log = [] → sequenceId req = some v.req.seq)
  last : ∀ req rest, unsent log = req :: rest → sequenceId req = some v.req.seq
  paired : ∀ e past, (e :: past) <:+ log → DelayEventPaired o freq ours e past

/-- Neither a path delay nor a Delay_Req. -/
def notDelay : PtpEvent → Bool
  | .delayReq .. | .delaySample .. => false
  | _ => true

theorem unsent_cons (he : notDelay e = true) (log : List PtpEvent) :
    unsent (e :: log) = unsent log := by
  cases e with
  | delayReq | delaySample => cases he
  | _ => rfl

theorem delayEventPaired_of_notDelay (he : notDelay e = true) (past : List PtpEvent) :
    DelayEventPaired o freq ours e past := by
  cases e with
  | delayReq | delaySample => cases he
  | _ => trivial

/-- An event that leaves the request alone, and a leg that is still the latest. -/
theorem DelayInv.cons (h : DelayInv o freq ours v log) (he : notDelay e = true)
    (hends : endsReq e = false) (hreq : v'.req = v.req)
    (hleg : v'.leg.valid = true → ∃ clock, Latest endsLeg (.sample v'.leg.leg clock) (e :: log) ∧
      clock.epoch = v'.leg.epoch) : DelayInv o freq ours v' (e :: log) := by
  refine ⟨hleg, ?_, ?_, forall_suffix_cons h.paired (delayEventPaired_of_notDelay he log)⟩
  · rw [hreq, unsent_cons he]
    intro houtstanding
    obtain ⟨req, txCnt, clock, hlatest, hrest⟩ := h.req houtstanding
    exact ⟨req, txCnt, clock, hlatest.cons hends, hrest⟩
  · rw [hreq, unsent_cons he]
    exact h.last

theorem DelayInv.neutral (h : DelayInv o freq ours v log) (he : notDelay e = true)
    (hreqs : endsReq e = false) (hlegs : endsLeg e = false) (hreq : v'.req = v.req)
    (hleg : v'.leg = v.leg) : DelayInv o freq ours v' (e :: log) := by
  refine h.cons he hreqs hreq ?_
  rw [hleg]
  intro hvalid
  obtain ⟨clock, hlatest, hepoch⟩ := h.leg hvalid
  exact ⟨clock, hlatest.cons hlegs, hepoch⟩

theorem DelayInv.reset (h : DelayInv o freq ours v log) (he : notDelay e = true)
    (port : Option PortId) : DelayInv o freq ours (v.reset port) (e :: log) := by
  refine ⟨fun hvalid => absurd hvalid Bool.false_ne_true,
    fun houtstanding => absurd houtstanding Bool.false_ne_true, ?_,
    forall_suffix_cons h.paired (delayEventPaired_of_notDelay he log)⟩
  rw [unsent_cons he]
  exact h.last

theorem DelayInv.sampled (h : DelayInv o freq ours v log) :
    DelayInv o freq ours (v.sampled raw c c') (sampleEvents raw c c' ++ log) := by
  by_cases hsame : c'.epoch = c.epoch
  · rw [sampleEvents, if_pos hsame]
    have hleg : (v.sampled raw c c').leg = ⟨true, raw, c.epoch⟩ := by
      rw [PtpView.sampled, if_pos hsame]
    refine h.cons rfl rfl rfl fun _ => ⟨c, ?_, ?_⟩
    · rw [hleg]
      exact .here
    · rw [hleg]
  · rw [sampleEvents, if_neg hsame]
    -- the step ends the leg
    have hinvalid : (v.sampled raw c c').leg.valid = false := by
      rw [PtpView.sampled, if_neg hsame]
    have hnone : (v.sampled raw c c').leg.valid = true → False := by
      rw [hinvalid]
      exact Bool.false_ne_true
    have hsampled : DelayInv o freq ours (v.sampled raw c c') (.sample raw c :: log) :=
      h.cons rfl rfl rfl fun hvalid => (hnone hvalid).elim
    exact hsampled.cons rfl rfl rfl fun hvalid => (hnone hvalid).elim

theorem delayInv_step (h : DelayInv o freq g.selfId g.view log)
    (hport : selectedPort log = g.view.port) (hsent : AnswersSent ⟨g, c, log⟩ call)
    (heffect : PtpEffect o freq g c call v' c' events) :
    DelayInv o freq g.selfId v' (events ++ log) := by
  cases heffect with
  | quiet => exact h
  | selected => exact h.reset rfl _
  | lost => exact h.reset rfl _
  | syncHeld => exact h.neutral rfl rfl rfl rfl rfl
  | @syncSampled _ b _ rxCnt _ held =>
    rw [List.append_assoc]
    have hsync : DelayInv o freq g.selfId { g.view with sync := held } (.sync b rxCnt c :: log) :=
      h.neutral rfl rfl rfl rfl rfl
    exact hsync.sampled
  | followUpDropped => exact h.neutral rfl rfl rfl rfl rfl
  | @followUpSampled _ b =>
    rw [List.append_assoc]
    have hfup : DelayInv o freq g.selfId g.view (.followUp b :: log) :=
      h.neutral rfl rfl rfl rfl rfl
    exact hfup.sampled
  | respDropped =>
    exact ⟨h.leg, fun houtstanding => absurd houtstanding Bool.false_ne_true, h.last, h.paired⟩
  | @respSampled _ b _ _ port sample hkind hport' hsource houtstanding hseq hself ht3 hvalid hepoch
      hsample =>
    refine ⟨?_, fun houtstanding => absurd houtstanding Bool.false_ne_true, h.last, ?_⟩
    · intro hvalid
      obtain ⟨clock, hlatest, hleg⟩ := h.leg hvalid
      exact ⟨clock, hlatest.cons rfl, hleg⟩
    · refine forall_suffix_cons h.paired ?_
      obtain ⟨legClock, hleg, hlegEpoch⟩ := h.leg hvalid
      obtain ⟨req, txCnt, reqClock, hreq, hstamp, hreqEpoch, hmatch⟩ := h.req houtstanding
      -- a failed attempt since would have had the sequence id of the answer
      have hall : unsent log = [] := by
        cases hunsent : unsent log with
        | nil => rfl
        | cons failed rest =>
          have hmem : failed ∈ unsent log := by simp [hunsent]
          have heq := (h.last failed rest hunsent).trans hseq.symm
          exact absurd heq (hsent hkind houtstanding failed hmem)
      exact ⟨port, req, txCnt, reqClock, g.view.req.t3, g.view.leg.leg, legClock,
        hport.trans hport', hsource, hself, hreq, (hmatch hall).trans hseq.symm, hstamp, hleg,
        hreqEpoch.trans ht3, hlegEpoch.trans (hepoch.trans ht3), hsample⟩
  | sent hseq ht3 =>
    refine ⟨?_, fun _ => ⟨_, _, _, .here, ht3, rfl, fun _ => hseq⟩, ?_,
      forall_suffix_cons h.paired trivial⟩
    · intro hvalid
      obtain ⟨clock, hlatest, hleg⟩ := h.leg hvalid
      exact ⟨clock, hlatest.cons rfl, hleg⟩
    · intro req rest hunsent
      cases hunsent
  | unsent hseq =>
    refine ⟨?_, ?_, ?_, forall_suffix_cons h.paired trivial⟩
    · intro hvalid
      obtain ⟨clock, hlatest, hleg⟩ := h.leg hvalid
      exact ⟨clock, hlatest.cons rfl, hleg⟩
    · intro houtstanding
      obtain ⟨req, txCnt, clock, hlatest, hstamp, hepoch, _⟩ := h.req houtstanding
      refine ⟨req, txCnt, clock, hlatest.cons rfl, hstamp, hepoch, fun hnone => ?_⟩
      cases hnone
    · intro req rest hunsent
      cases hunsent
      exact hseq

theorem delayInv_of_reach
    (h : ((ptpEngine o freq (ptpCoreInit mac domain tx) clock).restrict AnswersSent).Reach s) :
    s.core.selfId = (ptpCoreInit mac domain tx).selfId ∧
      DelayInv o freq s.core.selfId s.core.view s.log := by
  refine h.invariant (P := fun s => s.core.selfId = (ptpCoreInit mac domain tx).selfId ∧
    DelayInv o freq s.core.selfId s.core.view s.log) ?_ ?_
  · refine ⟨rfl, fun hvalid => absurd hvalid Bool.false_ne_true,
      fun houtstanding => absurd houtstanding Bool.false_ne_true, ?_, ?_⟩
    · intro req rest hunsent
      cases hunsent
    · intro e past hsuffix
      exact absurd (List.suffix_nil.mp hsuffix) (List.cons_ne_nil e past)
  · intro s call s' hreach ih hstep
    obtain ⟨hstep, hsent⟩ := Machine.restrict_step.mp hstep
    obtain ⟨events, heffect, hlog, hself⟩ := ptpEngine_effect hstep
    have hport := (syncInv_of_reach hreach.of_restrict).port
    refine ⟨hself.trans ih.1, ?_⟩
    rw [hlog, hself]
    exact delayInv_step ih.2 hport hsent heffect

/-- **Delay pairing.**  In every run in which no Delay_Resp answers a Delay_Req that
    was not sent, each path delay comes from a Delay_Resp of the selected master to
    us, the Delay_Req it answers and the latest leg, in one clock epoch and of one
    master.  Two path delays never share a Delay_Req. -/
theorem delay_pairing_of_answers_sent {o : Overflow} {freq : UInt64} {mac : Vector UInt8 6}
    {domain : UInt8} {tx : Bool} {clock : PtpClock} {s : PtpState}
    (h : ((ptpEngine o freq (ptpCoreInit mac domain tx) clock).restrict AnswersSent).Reach s) :
    (∀ resp sample c past, (.delaySample resp sample c :: past) <:+ s.log →
        DelayPaired o freq (ptpCoreInit mac domain tx).selfId resp sample c past) ∧
      ∀ resp sample c between resp' sample' c' past,
        (.delaySample resp sample c :: (between ++ .delaySample resp' sample' c' :: past)) <:+ s.log →
        ∃ req txCnt reqClock, Latest endsReq (.delayReq req (some txCnt) reqClock) between ∧
          sequenceId req = sequenceId resp := by
  obtain ⟨hself, hinv⟩ := delayInv_of_reach h
  rw [hself] at hinv
  refine ⟨fun resp sample c past hsuffix => hinv.paired _ _ hsuffix, ?_⟩
  intro resp sample c between resp' sample' c' past hsuffix
  obtain ⟨_, req, txCnt, reqClock, _, _, _, _, _, _, hlatest, hseq, _⟩ := hinv.paired _ _ hsuffix
  exact ⟨req, txCnt, reqClock, hlatest.since rfl (by simp), hseq⟩

/-- A Delay_Resp to the engine `plainCore`. -/
def plainResp (seq : UInt8) : Bytes :=
  (((plainMsg 0x9 1 seq 54).set 47 0xFF).set 48 0xFE).set 53 1

/-- Up to a Delay_Req that was sent, in the epoch of the last leg. -/
def plainExchange : List PtpCall :=
  [plainAnnounce 1 5, plainRx (plainMsg 0x0 1 1 44) 319 1000,
    plainRx (plainMsg 0x0 1 2 44) 319 2000, .poll 3000 (some 3000) 1000]

/-- The last thing done was to take a path delay. -/
def lastDelaySample : List PtpEvent → Option (Bytes × Int64 × PtpClock)
  | .delaySample resp sample c :: _ => some (resp, sample, c)
  | _ => none

theorem lastDelaySample_eq {resp : Bytes} {sample : Int64}
    (h : lastDelaySample log = some (resp, sample, c)) :
    ∃ past, log = .delaySample resp sample c :: past := by
  unfold lastDelaySample at h
  split at h
  · cases h
    exact ⟨_, rfl⟩
  · cases h

/-- The Delay_Req that was sent, if the event is one. -/
def sentReq : PtpEvent → Option Bytes
  | .delayReq req (some _) _ => some req
  | _ => none

theorem delay_pairing_of_answers_sent_one :
    ∃ s, ((ptpEngine .trap 1000000000 plainCore ⟨0, 0, 0, 0⟩).restrict AnswersSent).Reach s ∧
      ∃ past, s.log = .delaySample (plainResp 1) (-500) s.clock :: past ∧
        DelayPaired .trap 1000000000 plainCore.selfId (plainResp 1) (-500) s.clock past := by
  obtain ⟨s, hreach, hs⟩ :=
    ((ptpEngine .trap 1000000000 plainCore ⟨0, 0, 0, 0⟩).restrict AnswersSent).exists_reach
      (plainExchange ++ [plainRx (plainResp 1) 320 4000])
      (fun s => lastDelaySample s.log = some (plainResp 1, -500, s.clock)) (by decide +kernel)
  obtain ⟨past, hlog⟩ := lastDelaySample_eq (of_decide_eq_true hs)
  exact ⟨s, hreach, past, hlog,
    (delay_pairing_of_answers_sent hreach).1 _ _ _ past (by rw [hlog])⟩

/-- The hook sends Delay_Req 1 and fails on Delay_Req 2; a Delay_Resp with sequence
    id 2 is then paired with the stamp of Delay_Req 1, the only one that was sent. -/
theorem delay_resp_paired_with_other_request :
    ∃ s, (ptpEngine .trap 1000000000 plainCore ⟨0, 0, 0, 0⟩).Reach s ∧
      ∃ past, s.log = .delaySample (plainResp 2) 500 s.clock :: past ∧
        sequenceId (plainResp 2) = some 2 ∧
        ∀ req txCnt reqClock, .delayReq req (some txCnt) reqClock ∈ s.log →
          sequenceId req = some 1 := by
  obtain ⟨s, hreach, hs⟩ := (ptpEngine .trap 1000000000 plainCore ⟨0, 0, 0, 0⟩).exists_reach
    (plainExchange ++ [plainRx (plainMsg 0x0 1 3 44) 319 4000, .poll 5000 none 2000,
      plainRx (plainResp 2) 320 6000])
    (fun s => lastDelaySample s.log = some (plainResp 2, 500, s.clock) ∧
      (s.log.filterMap sentReq).map sequenceId = [some 1]) (by decide +kernel)
  obtain ⟨hlast, hsent⟩ := of_decide_eq_true hs
  obtain ⟨past, hlog⟩ := lastDelaySample_eq hlast
  refine ⟨s, hreach, past, hlog, by decide, fun req txCnt reqClock hmem => ?_⟩
  have hreq : sequenceId req ∈ (s.log.filterMap sentReq).map sequenceId :=
    List.mem_map.mpr ⟨req, List.mem_filterMap.mpr ⟨_, hmem, rfl⟩, rfl⟩
  rw [hsent] at hreq
  exact List.mem_singleton.mp hreq

end FlintRTOS
