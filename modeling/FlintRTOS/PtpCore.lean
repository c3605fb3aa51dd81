import FlintRTOS.Machine
import FlintRTOS.PtpServo
import FlintRTOS.PtpWire

/-!
# The slave engine

`ptp_core.c`: the IEEE 1588 ordinary-clock slave.  It is driven by received
messages and by polls, with the transmit hook's outcome as an input of the poll,
and works on the clock of `ptp_clock.c`.

Logging is left out, but not the arithmetic done for it that could overflow.  Each
call also returns what it did as `PtpEvent`s, newest first; the machine keeps them
all, and the pairing of messages is stated over that history.
-/

namespace FlintRTOS

def ptpHeaderLength : Nat := 34

def announceLenMin : Nat := 64

def delayRespLen : Nat := 54

def syncLen : Nat := 44

def ptpEventPort : UInt16 := 319

def ptpDelayMaxNs : Int64 := 10000000

def ptpDelayWin : Nat := 8

def ptpStatsWin : UInt32 := 16

structure Dataset where
  prio1 : UInt8
  clkClass : UInt8
  clkAccuracy : UInt8
  prio2 : UInt8
  variance : UInt16
  stepsRemoved : UInt16
  gmId : Vector UInt8 8
  portId : PortId
deriving DecidableEq, Repr

structure PtpCore where
  /-- A transmit hook is set. -/
  tx : Bool
  self : MsgHeader
  selfId : PortId
  haveMaster : Bool
  master : Dataset
  lastAnnounceMs : UInt32
  announceTimeoutMs : UInt32
  utcOffset : Int16
  flags1 : UInt8
  syncWaitingFup : Bool
  syncSeq : UInt16
  t2Cnt : UInt64
  t2Ns : Int64
  syncCorr : Int64
  t2Epoch : UInt32
  msValid : Bool
  msLeg : Int64
  msEpoch : UInt32
  dreqDue : Bool
  dreqOutstanding : Bool
  dreqSeq : UInt16
  t3Ns : Int64
  t3Epoch : UInt32
  lastDreqMs : UInt32
  nowMs : UInt32
  delayWin : Vector Int64 8
  delayN : Fin 9
  delayIdx : Fin 8
  delayNs : Int64
  servo : PtpServo
  lastOffset : Int64
  nSync : UInt32
  stSum : Int64
  stMax : Int64
  stSq : UInt64
  stN : UInt32
deriving DecidableEq, Repr

/-- What the engine did. -/
inductive PtpEvent where
  /-- A master was selected, with or without one before. -/
  | selected (port : PortId)
  /-- The master was given up. -/
  | lost
  /-- A Sync of the master was taken, received at `rxCnt` under this clock. -/
  | sync (buf : Bytes) (rxCnt : UInt64) (clock : PtpClock)
  /-- A Follow_Up was matched with the Sync that waits for it. -/
  | followUp (buf : Bytes)
  /-- `ptp_servo_sample` was called, with the clock before it. -/
  | sample (raw : Int64) (clock : PtpClock)
  /-- The clock was stepped. -/
  | stepped
  /-- A Delay_Req was handed to the hook; `sent` is the stamp if that succeeded. -/
  | delayReq (buf : Bytes) (sent : Option UInt64) (clock : PtpClock)
  /-- `delay_add` was called, for this Delay_Resp and under this clock. -/
  | delaySample (buf : Bytes) (sample : Int64) (clock : PtpClock)
deriving DecidableEq, Repr

/-- What a call leaves and what it did. -/
structure PtpOut where
  core : PtpCore
  clock : PtpClock
  events : List PtpEvent
deriving DecidableEq, Repr

/-! ### Master selection -/

/-- Negative when `a` is the better one. -/
def datasetCmp (a b : Dataset) : Int :=
  if a.prio1 ≠ b.prio1 then (if a.prio1 < b.prio1 then -1 else 1)
  else if a.clkClass ≠ b.clkClass then (if a.clkClass < b.clkClass then -1 else 1)
  else if a.clkAccuracy ≠ b.clkAccuracy then (if a.clkAccuracy < b.clkAccuracy then -1 else 1)
  else if a.variance ≠ b.variance then (if a.variance < b.variance then -1 else 1)
  else if a.prio2 ≠ b.prio2 then (if a.prio2 < b.prio2 then -1 else 1)
  else if cmpBytes a.gmId.toList b.gmId.toList ≠ 0 then cmpBytes a.gmId.toList b.gmId.toList
  else if a.stepsRemoved ≠ b.stepsRemoved then (if a.stepsRemoved < b.stepsRemoved then -1 else 1)
  else cmpBytes a.portId.toList b.portId.toList

def resetMeasurements (g : PtpCore) : PtpCore :=
  { g with
    syncWaitingFup := false, msValid := false, dreqDue := false, dreqOutstanding := false
    delayN := 0, delayIdx := 0, delayNs := -1
    stN := 0, stSum := 0, stSq := 0, stMax := 0
    servo := ptpServoInit }

def logIntervalMs (log2s : Int8) : UInt32 :=
  let log2s := if log2s < -7 then -7 else log2s
  let log2s := if log2s > 6 then 6 else log2s
  if log2s ≥ 0 then 1000 <<< (UInt32.ofNat log2s.toInt.toNat)
  else 1000 >>> (UInt32.ofNat (-log2s.toInt).toNat)

/-- The dataset an Announce carries. -/
def rdDataset (b : Bytes) : Option Dataset := do
  let prio1 ← b[47]?
  let clkClass ← b[48]?
  let clkAccuracy ← b[49]?
  let variance ← rd16 b 50
  let prio2 ← b[52]?
  let gmId ← copyBytes b 53 8
  let stepsRemoved ← rd16 b 61
  let portId ← copyBytes b 20 10
  some ⟨prio1, clkClass, clkAccuracy, prio2, variance, stepsRemoved, gmId, portId⟩

/-- The last lines of `handle_announce`, for an Announce that was taken. -/
def noteAnnounce (b : Bytes) (g : PtpCore) : Option PtpCore := do
  let interval ← b[33]?
  let utcOffset ← rd16 b 44
  let flags1 ← b[7]?
  some { g with
    lastAnnounceMs := g.nowMs
    announceTimeoutMs := 3 * logIntervalMs interval.toInt8 + 500
    utcOffset := utcOffset.toInt16
    flags1 := flags1 }

def handleAnnounce (b : Bytes) (g : PtpCore) (c : PtpClock) : Option PtpOut :=
  if b.length < announceLenMin then some ⟨g, c, []⟩
  else do
    let ds ← rdDataset b
    if g.haveMaster ∧ cmpBytes ds.portId.toList g.master.portId.toList = 0 then
      some ⟨← noteAnnounce b { g with master := ds }, c, []⟩
    else if ¬ g.haveMaster ∨ datasetCmp ds g.master < 0 then
      let g := resetMeasurements { g with master := ds, haveMaster := true }
      some ⟨← noteAnnounce b g, c, [.selected ds.portId]⟩
    else some ⟨g, c, []⟩

def fromMaster (b : Bytes) (g : PtpCore) : Option Bool := do
  let port ← sourcePort b
  some (g.haveMaster && decide (cmpBytes port.toList g.master.portId.toList = 0))

section measurements

variable (o : Overflow) (freq : UInt64)

/-! ### Reporting -/

def ptpCoreUtcNowNs (now : UInt64) (g : PtpCore) (c : PtpClock) : Option Int64 := do
  let t ← ptpClockFromCnt o freq c now
  if g.flags1 &&& 0x08 ≠ 0 ∧ g.flags1 &&& 0x04 ≠ 0 then
    o.sub t (← o.mul g.utcOffset.toInt64 nsPerS)
  else some t

/-- The statistics take in the offset once the servo is locked. -/
def countOffset (offset : Int64) (g : PtpCore) : Option PtpCore :=
  if g.servo.state = .locked then do
    let ao ← abs64 o offset
    let stSum ← o.add g.stSum offset
    let square ← o.mul ao ao
    some { g with
      stSum := stSum
      stSq := g.stSq + square.toUInt64
      stMax := if ao > g.stMax then ao else g.stMax
      stN := g.stN + 1 }
  else some g

def report (now : UInt64) (offset : Int64) (g : PtpCore) (c : PtpClock) : Option PtpCore := do
  let g ← countOffset o offset g
  let _ ← ptpCoreUtcNowNs o freq now g c
  if g.stN ≥ ptpStatsWin then some { g with stN := 0, stSum := 0, stSq := 0, stMax := 0 }
  else some g

/-! ### Measurements -/

/-- The inner loop of the insertion sort, on the sorted part from its upper end. -/
def sortInsert (v : Int64) : List Int64 → List Int64
  | [] => [v]
  | x :: xs => if x > v then x :: sortInsert v xs else v :: x :: xs

def insertionSort (s : List Int64) : List Int64 :=
  (s.foldl (fun sorted v => sortInsert v sorted) []).reverse

/-- The middle one of `n` sorted values, or the mean of the two middle ones. -/
def middleOf (s : List Int64) (n : Nat) : Option Int64 :=
  if n % 2 = 1 then s[n / 2]?
  else do
    let lower ← s[n / 2 - 1]?
    let upper ← s[n / 2]?
    o.div (← o.add lower upper) 2

def delayAdd (sample : Int64) (g : PtpCore) : Option PtpCore := do
  let win := g.delayWin.set g.delayIdx sample
  let n : Fin 9 := if h : g.delayN.val < 8 then ⟨g.delayN.val + 1, by omega⟩ else g.delayN
  let delayNs ← middleOf o (insertionSort (win.toList.take n.val)) n.val
  some { g with delayWin := win, delayIdx := g.delayIdx + 1, delayN := n, delayNs := delayNs }

/-- A Sync, with its Follow_Up if it has one, is complete. -/
def syncComplete (cnt : CntReads) (t1Ns corrNs : Int64) (g : PtpCore) (c : PtpClock) :
    Option PtpOut :=
  if g.t2Epoch ≠ c.epoch then some ⟨g, c, []⟩
  else do
    let raw ← o.sub g.t2Ns (← o.add t1Ns corrNs)
    let (offset, servo, c') ← ptpServoSample o freq cnt raw g.delayNs g.t2Cnt g.servo c
    let g := { g with nSync := g.nSync + 1, servo := servo, lastOffset := offset }
    let g := if c'.epoch = g.t2Epoch then { g with msLeg := raw, msEpoch := g.t2Epoch, msValid := true }
      else { g with msValid := false }
    let g ← report o freq cnt.report offset g c'
    let events := if c'.epoch = c.epoch then [.sample raw c] else [.stepped, .sample raw c]
    some ⟨{ g with dreqDue := true }, c', events⟩

def handleSync (cnt : CntReads) (b : Bytes) (rxCnt : UInt64) (g : PtpCore) (c : PtpClock) :
    Option PtpOut :=
  if b.length < syncLen then some ⟨g, c, []⟩
  else do
    let seq ← rd16 b 30
    let t2 ← ptpClockFromCnt o freq c rxCnt
    let corr ← rdCorrNs o b
    let flags ← b[6]?
    let g := { g with
      syncSeq := seq, t2Cnt := rxCnt, t2Ns := t2, t2Epoch := c.epoch, syncCorr := corr }
    if flags &&& 0x02 ≠ 0 then some ⟨{ g with syncWaitingFup := true }, c, [.sync b rxCnt c]⟩
    else
      let t1 ← rdTsNs o b 34
      let out ← syncComplete o freq cnt t1 corr { g with syncWaitingFup := false } c
      some { out with events := out.events ++ [.sync b rxCnt c] }

def handleFollowUp (cnt : CntReads) (b : Bytes) (g : PtpCore) (c : PtpClock) : Option PtpOut :=
  if b.length < syncLen ∨ g.syncWaitingFup = false then some ⟨g, c, []⟩
  else do
    let seq ← rd16 b 30
    if seq ≠ g.syncSeq then some ⟨g, c, []⟩
    else
      let t1 ← rdTsNs o b 34
      let corr ← o.add g.syncCorr (← rdCorrNs o b)
      let out ← syncComplete o freq cnt t1 corr { g with syncWaitingFup := false } c
      some { out with events := out.events ++ [.followUp b] }

/-- The path delay a Delay_Resp yields with the leg and the stamp that are held. -/
def delaySampleOf (b : Bytes) (msLeg t3Ns : Int64) : Option Int64 := do
  let t4 ← o.sub (← rdTsNs o b 34) (← rdCorrNs o b)
  let sm ← o.sub t4 t3Ns
  o.div (← o.add msLeg sm) 2

def handleDelayResp (b : Bytes) (g : PtpCore) (c : PtpClock) : Option PtpOut :=
  if b.length < delayRespLen ∨ g.dreqOutstanding = false then some ⟨g, c, []⟩
  else do
    let seq ← rd16 b 30
    let requesting ← copyBytes b 44 10
    if seq ≠ g.dreqSeq ∨ cmpBytes requesting.toList g.selfId.toList ≠ 0 then some ⟨g, c, []⟩
    else
      let g := { g with dreqOutstanding := false }
      if g.t3Epoch ≠ c.epoch ∨ g.msValid = false ∨ g.msEpoch ≠ g.t3Epoch then some ⟨g, c, []⟩
      else
        let sample ← delaySampleOf o b g.msLeg g.t3Ns
        if (← abs64 o sample) > ptpDelayMaxNs then some ⟨g, c, []⟩
        else
          let g ← delayAdd o sample g
          some ⟨g, c, [.delaySample b sample c]⟩

/-- The branch of `send_delay_req` for what the hook returned. -/
def noteSent (sent : Option UInt64) (g : PtpCore) (c : PtpClock) : Option PtpCore :=
  match sent with
  | some txCnt => do
      let t3 ← ptpClockFromCnt o freq c txCnt
      some { g with t3Ns := t3, t3Epoch := c.epoch, dreqOutstanding := true }
  | none => some g

/-- `now` is the counter value read for the origin time; `sent` is what the hook
    returns, the transmit stamp or a failure. -/
def sendDelayReq (now : UInt64) (sent : Option UInt64) (g : PtpCore) (c : PtpClock) :
    Option PtpOut := do
  let origin ← ptpNsToTime o (← ptpClockFromCnt o freq c now)
  let g := { g with dreqSeq := g.dreqSeq + 1 }
  let buf := ptpPackDelayReq g.self g.dreqSeq (ptpInternalToTs origin)
  let sent := if g.tx then sent else none
  let g ← noteSent o freq sent g c
  some ⟨{ g with lastDreqMs := g.nowMs }, c, [.delayReq buf sent c]⟩

/-! ### Public functions -/

def ptpCoreRx (cnt : CntReads) (b : Bytes) (port : UInt16) (rxCnt : UInt64) (g : PtpCore)
    (c : PtpClock) : Option PtpOut :=
  if b.length < ptpHeaderLength then some ⟨g, c, []⟩
  else do
    let version ← b[1]?
    if version &&& 0x0F ≠ 2 then some ⟨g, c, []⟩
    else
      let domain ← b[4]?
      if domain ≠ g.self.domainNumber then some ⟨g, c, []⟩
      else
        let source ← sourcePort b
        if cmpBytes source.toList g.selfId.toList = 0 then some ⟨g, c, []⟩
        else
          let type := (← b[0]?) &&& 0x0F
          if port = ptpEventPort then
            if type = 0x0 ∧ (← fromMaster b g) then handleSync o freq cnt b rxCnt g c
            else some ⟨g, c, []⟩
          else if type = 0xB then handleAnnounce b g c
          else if type = 0x8 ∧ (← fromMaster b g) then handleFollowUp o freq cnt b g c
          else if type = 0x9 ∧ (← fromMaster b g) then handleDelayResp o b g c
          else some ⟨g, c, []⟩

def ptpCorePoll (now : UInt64) (sent : Option UInt64) (nowMs : UInt32) (g : PtpCore)
    (c : PtpClock) : Option PtpOut :=
  let g := { g with nowMs := nowMs }
  if g.haveMaster ∧ nowMs - g.lastAnnounceMs > g.announceTimeoutMs then
    some ⟨resetMeasurements { g with haveMaster := false }, c, [.lost]⟩
  else if g.dreqDue ∧ g.servo.state ≠ .unlocked ∧ nowMs - g.lastDreqMs ≥ 900 then
    sendDelayReq o freq now sent { g with dreqDue := false } c
  else some ⟨g, c, []⟩

end measurements

/-- EUI-64 from the MAC. -/
def clockIdentityOf (mac : Vector UInt8 6) : Vector UInt8 8 :=
  #v[mac[0], mac[1], mac[2], 0xFF, 0xFE, mac[3], mac[4], mac[5]]

def ptpCoreInit (mac : Vector UInt8 6) (domain : UInt8) (tx : Bool) : PtpCore :=
  let id := clockIdentityOf mac
  resetMeasurements
    { tx := tx, self := ⟨domain, id, 1⟩, selfId := id ++ (#v[0, 1] : Vector UInt8 2)
      haveMaster := false
      master := ⟨0, 0, 0, 0, 0, 0, Vector.replicate 8 0, Vector.replicate 10 0⟩
      lastAnnounceMs := 0, announceTimeoutMs := 0, utcOffset := 0, flags1 := 0
      syncWaitingFup := false, syncSeq := 0, t2Cnt := 0, t2Ns := 0, syncCorr := 0, t2Epoch := 0
      msValid := false, msLeg := 0, msEpoch := 0
      dreqDue := false, dreqOutstanding := false, dreqSeq := 0, t3Ns := 0, t3Epoch := 0
      lastDreqMs := 0, nowMs := 0
      delayWin := Vector.replicate 8 0, delayN := 0, delayIdx := 0, delayNs := 0
      servo := ptpServoInit, lastOffset := 0, nSync := 0
      stSum := 0, stMax := 0, stSq := 0, stN := 0 }

/-! ### The engine as a machine -/

inductive PtpCall where
  | rx (cnt : CntReads) (buf : Bytes) (port : UInt16) (rxCnt : UInt64)
  | poll (now : UInt64) (sent : Option UInt64) (nowMs : UInt32)
deriving DecidableEq, Repr

/-- The engine, the clock, and all that was done, newest first. -/
structure PtpState where
  core : PtpCore
  clock : PtpClock
  log : List PtpEvent
deriving DecidableEq, Repr

def PtpCall.run (o : Overflow) (freq : UInt64) (s : PtpState) : PtpCall → Option PtpOut
  | .rx cnt buf port rxCnt => ptpCoreRx o freq cnt buf port rxCnt s.core s.clock
  | .poll now sent nowMs => ptpCorePoll o freq now sent nowMs s.core s.clock

/-- Any calls with any arguments, from the given engine and clock. -/
def ptpEngine (o : Overflow) (freq : UInt64) (core : PtpCore) (clock : PtpClock) :
    Machine PtpState PtpCall where
  init := ⟨core, clock, []⟩
  guard _ _ := True
  exec s call := (call.run o freq s).map fun out => ⟨out.core, out.clock, out.events ++ s.log⟩

instance (o : Overflow) (freq : UInt64) (core : PtpCore) (clock : PtpClock) (s : PtpState)
    (call : PtpCall) : Decidable ((ptpEngine o freq core clock).guard s call) :=
  inferInstanceAs (Decidable True)

end FlintRTOS
