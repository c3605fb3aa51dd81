import FlintRTOS.Machine
import FlintRTOS.MqttPublish

/-!
# Receiving MQTT packets

`receiveSingleIteration` of coreMQTT, which `MQTT_ProcessLoop` runs once for each call: it reads
what the transport has into the free part of the network buffer, and handles the packet at its
front when all of it is there.  A packet larger than the buffer is read to its end and dropped.
When nothing has come, the keep-alive is looked after.

The buffer is kept as the bytes it holds; those behind them are never read.  The answers of the
transport and of the clock are read from outside.  There are no publish records, which this
repository does not set up: acknowledgements of publications find no record.
-/

namespace FlintRTOS.CoreMqtt

/-! ### The context -/

/-- The part of `MQTTContext_t` that receiving uses. -/
structure MqttContext where
  size : Nat
  stored : List UInt8
  stored_le : stored.length ≤ size
  keepAliveIntervalSec : UInt16
  lastPacketTxTime : UInt32
  lastPacketRxTime : UInt32
  pingReqSendTimeMs : UInt32
  waitingForPingResp : Bool

def MqttContext.store (ctx : MqttContext) (bs : List UInt8)
    (h : ctx.stored.length + bs.length ≤ ctx.size) : MqttContext :=
  { ctx with stored := ctx.stored ++ bs, stored_le := by rwa [List.length_append] }

/-- The packet at the front is taken off, and the rest moved to the front. -/
def MqttContext.consume (ctx : MqttContext) (n : Nat) : MqttContext :=
  { ctx with
    stored := ctx.stored.drop n
    stored_le := Nat.le_trans (by rw [List.length_drop]; exact Nat.sub_le _ _) ctx.stored_le }

/-! ### Keep-alive -/

def packetTxTimeoutMs : UInt32 := 30000

def packetRxTimeoutMs : UInt32 := 30000

def mqttPingrespTimeoutMs : UInt32 := 5000

/-- The clock of `handleKeepAlive`, and what `sendBuffer` does with a PINGREQ: its result, and
    when it sent the last byte. -/
structure KeepAliveReads where
  now : UInt32
  sendResult : Int
  txTime : UInt32
deriving DecidableEq, Repr

def mqttPing (env : KeepAliveReads) (ctx : MqttContext) : MqttStatus × MqttContext :=
  let ctx := { ctx with lastPacketTxTime := env.txTime }
  if env.sendResult < 2 then (.sendFailed, ctx)
  else
    (.success,
      { ctx with pingReqSendTimeMs := ctx.lastPacketTxTime, waitingForPingResp := true })

def handleKeepAlive (env : KeepAliveReads) (ctx : MqttContext) : MqttStatus × MqttContext :=
  let txTimeoutMs := 1000 * ctx.keepAliveIntervalSec.toUInt32
  let txTimeoutMs := if packetTxTimeoutMs < txTimeoutMs then packetTxTimeoutMs else txTimeoutMs
  if ctx.waitingForPingResp then
    if env.now - ctx.pingReqSendTimeMs > mqttPingrespTimeoutMs then (.keepAliveTimeout, ctx)
    else (.success, ctx)
  else if txTimeoutMs ≠ 0 ∧ env.now - ctx.lastPacketTxTime ≥ txTimeoutMs then mqttPing env ctx
  else
    let timeElapsed := env.now - ctx.lastPacketRxTime
    if timeElapsed ≠ 0 ∧ timeElapsed ≥ packetRxTimeoutMs then mqttPing env ctx
    else (.success, ctx)

/-! ### Handling a packet -/

/-- What the application callback is given: type and data of the packet, and the fields of
    `MQTTDeserializedInfo_t`. -/
structure Delivery where
  type : UInt8
  remainingData : List UInt8
  packetIdentifier : UInt16
  deserializationResult : MqttStatus
  publishInfo : Option PublishInfo
deriving DecidableEq, Repr

def deserializeSimpleAck : List UInt8 → Except MqttStatus UInt16
  | [hi, lo] => if uint16Decode hi lo = 0 then .error .badResponse else .ok (uint16Decode hi lo)
  | _ => .error .badResponse

/-- The loop of `readSubackStatus`. -/
def readSubackStatus : List UInt8 → MqttStatus → MqttStatus
  | [], status => status
  | code :: codes, status =>
    if code = 0x00 ∨ code = 0x01 ∨ code = 0x02 then readSubackStatus codes status
    else if code = 0x80 then readSubackStatus codes .serverRefused
    else .badResponse

/-- The status and the packet identifier, which stays 0 if the packet is too short. -/
def deserializeSuback : List UInt8 → MqttStatus × UInt16
  | hi :: lo :: code :: codes =>
    (if uint16Decode hi lo = 0 then .badResponse else readSubackStatus (code :: codes) .success,
      uint16Decode hi lo)
  | _ => (.badResponse, 0)

/-- A publication with a quality of service above 0 would need a record. -/
def handleIncomingPublish (type : UInt8) (data : List UInt8) : MqttStatus × List Delivery :=
  match deserializePublish type data with
  | .error status => (status, [])
  | .ok (packetIdentifier, info) =>
    if info.qos ≠ .qos0 then (.recvFailed, [])
    else (.success, [⟨type, data, packetIdentifier, .success, some info⟩])

/-- Without records no acknowledgement is expected. -/
def handlePublishAcks (data : List UInt8) : MqttStatus :=
  match deserializeSimpleAck data with
  | .error status => status
  | .ok _ => .badResponse

def handleIncomingAck (type : UInt8) (data : List UInt8) : MqttStatus × List Delivery :=
  match type with
  | 0x40 | 0x50 | 0x62 | 0x70 => (handlePublishAcks data, [])
  | 0xD0 => (if data.length ≠ 0 then .badResponse else .success, [])
  | 0x90 =>
    let (status, packetIdentifier) := deserializeSuback data
    if status = .success ∨ status = .serverRefused then
      (.success, [⟨type, data, packetIdentifier, status, none⟩])
    else (status, [])
  | 0xB0 =>
    match deserializeSimpleAck data with
    | .error status => (status, [])
    | .ok packetIdentifier => (.success, [⟨type, data, packetIdentifier, .success, none⟩])
  | _ => (.badResponse, [])

def handlePacket (type : UInt8) (data : List UInt8) : MqttStatus × List Delivery :=
  if type &&& 0xF0 = 0x30 then handleIncomingPublish type data else handleIncomingAck type data

/-! ### Reading on -/

/-- What the `recv` of the transport answers: a code below 0, or the bytes it has put into the
    buffer. -/
inductive Recv where
  | error (code : Nat)
  | bytes (bs : List UInt8)
deriving DecidableEq, Repr

def mqttRecvPollingTimeoutMs : UInt32 := 1000

/-- The loop of `recvExact`, with the answers of `recv` and the clock behind each: what it
    returns, and the bytes it has read.  There is no result without an answer, or if the
    transport returns more than it was asked for. -/
def recvExactLoop : List (Recv × UInt32) → Nat → UInt32 → Nat → Option (Int × List UInt8)
  | [], bytesRemaining, _, totalBytesRecvd =>
    if bytesRemaining > 0 then none else some (totalBytesRecvd, [])
  | (.error code, _) :: _, bytesRemaining, _, totalBytesRecvd =>
    if bytesRemaining > 0 then some (Int.negSucc code, []) else some (totalBytesRecvd, [])
  | (.bytes bs, now) :: answers, bytesRemaining, lastDataRecvTimeMs, totalBytesRecvd =>
    if bytesRemaining > 0 then
      if bs.length > bytesRemaining then none
      else if bs.length > 0 then do
        let (result, read) ← recvExactLoop answers (bytesRemaining - bs.length) now
          (totalBytesRecvd + bs.length)
        return (result, bs ++ read)
      else if now - lastDataRecvTimeMs ≥ mqttRecvPollingTimeoutMs then some (totalBytesRecvd, [])
      else recvExactLoop answers bytesRemaining lastDataRecvTimeMs totalBytesRecvd
    else some (totalBytesRecvd, [])

/-- The clock when `recvExact` is called, and the answers it gets. -/
structure Polls where
  entryMs : UInt32
  answers : List (Recv × UInt32)
deriving DecidableEq, Repr

def recvExact (polls : Polls) (bytesToRecv : Nat) : Option (Int × List UInt8) :=
  recvExactLoop polls.answers bytesToRecv polls.entryMs 0

/-- The loop of `discardStoredPacket`: how much it has read, and the bytes. -/
def discardLoop (remainingLength : Nat) : List Polls → Nat → Nat → Option (Nat × List UInt8)
  | [], _, totalBytesReceived =>
    if totalBytesReceived < remainingLength then none else some (totalBytesReceived, [])
  | polls :: calls, bytesToReceive, totalBytesReceived =>
    if totalBytesReceived < remainingLength then do
      let bytesToReceive :=
        if remainingLength - totalBytesReceived < bytesToReceive then
          remainingLength - totalBytesReceived
        else bytesToReceive
      let (bytesReceived, read) ← recvExact polls bytesToReceive
      if bytesReceived ≠ bytesToReceive then return (totalBytesReceived, read)
      else
        let (total, read') ←
          discardLoop remainingLength calls bytesToReceive (totalBytesReceived + bytesToReceive)
        return (total, read ++ read')
    else some (totalBytesReceived, [])

/-- The status, and the bytes read; the buffer is empty afterwards. -/
def discardStoredPacket (calls : List Polls) (p : PacketInfo) (ctx : MqttContext) :
    Option (MqttStatus × List UInt8) := do
  let remainingLength := p.total - ctx.stored.length
  let (totalBytesReceived, read) ← discardLoop remainingLength calls ctx.size 0
  return (if totalBytesReceived = remainingLength then .noDataAvailable else .recvFailed, read)

/-! ### One iteration -/

/-- What one iteration reads: the answer of `recv`, the keep-alive, the calls of `recvExact`
    for a packet that is dropped, and the clock at the end. -/
structure LoopReads where
  recv : Recv
  keepAlive : KeepAliveReads
  discard : List Polls
  rxTime : UInt32
deriving DecidableEq, Repr

/-- How an iteration ends: its status, the calls of the application callback, the bytes read
    from the transport, and the context. -/
structure Iteration where
  status : MqttStatus
  delivered : List Delivery
  read : List UInt8
  ctx : MqttContext

/-- The packet at the front of the buffer, all of which is there. -/
def handleFront (rxTime : UInt32) (p : PacketInfo) (bs : List UInt8) (ctx : MqttContext) :
    Iteration :=
  let data := (ctx.stored.drop p.headerLength).take p.remainingLength
  let (status, delivered) := handlePacket p.type data
  let ctx :=
    if p.type = 0xD0 ∧ status = .success then { ctx with waitingForPingResp := false } else ctx
  let ctx := ctx.consume p.total
  let ctx := if status = .success then { ctx with lastPacketRxTime := rxTime } else ctx
  ⟨status, delivered, bs, ctx⟩

/-- The second half of an iteration, when `bs` has been read and stored. -/
def processFront (env : LoopReads) (incoming : Except MqttStatus PacketInfo) (bs : List UInt8)
    (ctx : MqttContext) : Option Iteration :=
  match incoming with
  | .error status => some ⟨status, [], bs, ctx⟩
  | .ok p =>
    if p.total > ctx.size then do
      let (status, read) ← discardStoredPacket env.discard p ctx
      return ⟨status, [], bs ++ read, { ctx with stored := [], stored_le := Nat.zero_le _ }⟩
    else if p.total > ctx.stored.length then some ⟨.needMoreBytes, [], bs, ctx⟩
    else some (handleFront env.rxTime p bs ctx)

/-- That no data is available is not an error. -/
def Iteration.report (it : Iteration) : Iteration :=
  { it with status := if it.status = .noDataAvailable then .success else it.status }

def receiveSingleIteration (env : LoopReads) (ctx : MqttContext) : Option Iteration :=
  let iteration : Option Iteration :=
    match env.recv with
    | .error _ => some ⟨.recvFailed, [], [], ctx⟩
    | .bytes bs =>
      if h : ctx.stored.length + bs.length ≤ ctx.size then
        let incoming :=
          if bs.length = 0 ∧ ctx.stored.length = 0 then .error .noDataAvailable
          else processIncomingPacketTypeAndLength (ctx.stored ++ bs)
        let ctx := ctx.store bs h
        if bs.length = 0 then
          let (status, ctx) := handleKeepAlive env.keepAlive ctx
          if status = .success then processFront env incoming bs ctx
          else some ⟨status, [], bs, ctx⟩
        else processFront env incoming bs ctx
      else none
  iteration.map Iteration.report

/-! ### Packets -/

/-- A packet that the other side may send. -/
@[ext] structure Packet where
  type : UInt8
  data : List UInt8
  valid : incomingPacketValid type = true
  length_le : data.length ≤ mqttMaxRemainingLength

/-- What a broker may tell a client that does not take part in the delivery of publications with
    a quality of service above 0. -/
inductive Message where
  | publish (info : PublishInfo)
  | suback (packetId : UInt16) (codes : List UInt8)
  | unsuback (packetId : UInt16)
  | pingresp

namespace Message

def WellFormed : Message → Prop
  | publish info => info.qos = .qos0 ∧ 3 ≤ (publishData info 0).length
  | suback packetId codes =>
    packetId ≠ 0 ∧ codes ≠ [] ∧ ∀ code ∈ codes, code ∈ [0x00, 0x01, 0x02, 0x80]
  | unsuback packetId => packetId ≠ 0
  | pingresp => True

def type : Message → UInt8
  | publish info => info.byte
  | suback _ _ => 0x90
  | unsuback _ => 0xB0
  | pingresp => 0xD0

def data : Message → List UInt8
  | publish info => publishData info 0
  | suback packetId codes => uint16HighByte packetId :: uint16LowByte packetId :: codes
  | unsuback packetId => [uint16HighByte packetId, uint16LowByte packetId]
  | pingresp => []

/-- What the application is to be shown: all of a publication, the identifier, result and codes
    of an acknowledgement, and nothing of a PINGRESP, which is for the keep-alive. -/
def shown : Message → List Delivery
  | publish info => [⟨info.byte, (publish info).data, 0, .success, some info⟩]
  | suback packetId codes =>
    [⟨0x90, (suback packetId codes).data, packetId,
      if 0x80 ∈ codes then .serverRefused else .success, none⟩]
  | unsuback packetId => [⟨0xB0, (unsuback packetId).data, packetId, .success, none⟩]
  | pingresp => []

end Message

namespace Packet

variable (k : Packet)

def bytes : List UInt8 := packetBytes k.type k.data

/-- What the application is to be shown of a packet: nothing if it does not fit into the buffer.
    Any other packet that is not a message ends the connection. -/
inductive Tells (size : Nat) : List Delivery → Prop
  | dropped (large : k.bytes.length > size) : Tells size []
  | message (fits : k.bytes.length ≤ size) (m : Message) (wellFormed : m.WellFormed)
      (type : k.type = m.type) (data : k.data = m.data) : Tells size m.shown

theorem isFrame : mqttFraming.IsFrame k.bytes :=
  isFrame_iff.mpr ⟨k.type, k.data, k.valid, k.length_le, rfl⟩

theorem exists_of_isFrame {f : List UInt8} (h : mqttFraming.IsFrame f) :
    ∃ k : Packet, f = k.bytes := by
  obtain ⟨type, data, hvalid, hmax, rfl⟩ := isFrame_iff.mp h
  exact ⟨⟨type, data, hvalid, hmax⟩, rfl⟩

theorem processIncoming_bytes (t : List UInt8) :
    processIncomingPacketTypeAndLength (k.bytes ++ t) =
      .ok ⟨k.type, k.data.length, (encodeRemainingLength k.data.length).length + 1⟩ := by
  refine processIncoming_eq_ok_iff.mpr ⟨k.valid, k.length_le, rfl, k.data ++ t, ?_⟩
  simp [bytes, packetBytes]

theorem length_bytes :
    k.bytes.length = k.data.length + ((encodeRemainingLength k.data.length).length + 1) := by
  rw [bytes, packetBytes, List.length_cons, List.length_append]
  omega

end Packet

/-! ### Reading on -/

/-- All that was asked for has been read exactly if that is the result. -/
theorem recvExactLoop_spec {answers : List (Recv × UInt32)} {bytesRemaining total : Nat}
    {last : UInt32} {result : Int} {read : List UInt8}
    (h : recvExactLoop answers bytesRemaining last total = some (result, read)) :
    read.length ≤ bytesRemaining ∧
      (result = (total + bytesRemaining : Nat) ↔ read.length = bytesRemaining) := by
  induction answers generalizing bytesRemaining total last read with
  | nil =>
    rw [recvExactLoop] at h
    split at h
    · cases h
    · obtain ⟨rfl, rfl⟩ := Prod.mk.inj (Option.some.inj h)
      simp only [List.length_nil]
      omega
  | cons a answers ih =>
    obtain ⟨answer, now⟩ := a
    by_cases hgo : bytesRemaining > 0
    · cases answer with
      | error code =>
        rw [recvExactLoop, if_pos hgo] at h
        obtain ⟨rfl, rfl⟩ := Prod.mk.inj (Option.some.inj h)
        simp only [List.length_nil]
        omega
      | bytes bs =>
        rw [recvExactLoop, if_pos hgo] at h
        split at h
        · cases h
        · split at h
          · rename_i hle _
            obtain ⟨⟨result', read'⟩, hrest, h⟩ := Option.bind_eq_some_iff.mp h
            obtain ⟨rfl, rfl⟩ := Prod.mk.inj (Option.some.inj h)
            have hspec := ih hrest
            rw [List.length_append]
            omega
          · split at h
            · obtain ⟨rfl, rfl⟩ := Prod.mk.inj (Option.some.inj h)
              simp only [List.length_nil]
              omega
            · exact ih h
    · have hend : recvExactLoop ((answer, now) :: answers) bytesRemaining last total =
          some ((total : Int), []) := by
        cases answer <;> exact if_neg hgo
      obtain ⟨rfl, rfl⟩ := Prod.mk.inj (Option.some.inj (hend.symm.trans h))
      simp only [List.length_nil]
      omega

theorem discardLoop_spec {remainingLength : Nat} {calls : List Polls} {bytesToReceive total : Nat}
    {result : Nat} {read : List UInt8} (hle : total ≤ remainingLength)
    (h : discardLoop remainingLength calls bytesToReceive total = some (result, read)) :
    result = remainingLength ↔ total + read.length = remainingLength := by
  induction calls generalizing bytesToReceive total read with
  | nil =>
    rw [discardLoop] at h
    split at h
    · cases h
    · obtain ⟨rfl, rfl⟩ := Prod.mk.inj (Option.some.inj h)
      simp only [List.length_nil]
      omega
  | cons polls calls ih =>
    rw [discardLoop] at h
    split at h
    · rename_i hgo
      dsimp only at h
      generalize hask : (if remainingLength - total < bytesToReceive then remainingLength - total
        else bytesToReceive) = ask at h
      have hfit : ask ≤ remainingLength - total := by
        split at hask <;> omega
      obtain ⟨⟨bytesReceived, first⟩, hexact, h⟩ := Option.bind_eq_some_iff.mp h
      have hspec := recvExactLoop_spec hexact
      rw [Nat.zero_add] at hspec
      dsimp only at h
      split at h
      · rename_i hshort
        obtain ⟨rfl, rfl⟩ := Prod.mk.inj (Option.some.inj h)
        have hlen : first.length ≠ ask := fun heq => hshort (hspec.2.mpr heq)
        omega
      · rename_i hall
        have hlen : first.length = ask := hspec.2.mp (not_not.mp hall)
        obtain ⟨⟨result', read'⟩, hrest, h⟩ := Option.bind_eq_some_iff.mp h
        obtain ⟨rfl, rfl⟩ := Prod.mk.inj (Option.some.inj h)
        have hafter := ih (by omega) hrest
        dsimp only
        rw [List.length_append]
        omega
    · obtain ⟨rfl, rfl⟩ := Prod.mk.inj (Option.some.inj h)
      simp only [List.length_nil]
      omega

variable {ctx : MqttContext} {it : Iteration}

/-- A packet is dropped as a whole, or the connection fails. -/
theorem discardStoredPacket_spec {calls : List Polls} {p : PacketInfo} {status : MqttStatus}
    {read : List UInt8} (h : discardStoredPacket calls p ctx = some (status, read))
    (hlt : ctx.stored.length < p.total) :
    status = .noDataAvailable ∧ ctx.stored.length + read.length = p.total ∨
      status = .recvFailed := by
  obtain ⟨⟨result, read'⟩, hloop, h⟩ := Option.bind_eq_some_iff.mp h
  obtain ⟨hstatus, rfl⟩ := Prod.mk.inj (Option.some.inj h)
  have hspec := discardLoop_spec (Nat.zero_le _) hloop
  split at hstatus
  · rename_i hall
    exact .inl ⟨hstatus.symm, by omega⟩
  · exact .inr hstatus.symm

/-! ### What an iteration does -/

/-- An iteration fails, or it waits for the rest of a packet, or it takes one packet off. -/
inductive Outcome (ctx : MqttContext) (it : Iteration) : Prop
  | failed (status : it.status ≠ .success ∧ it.status ≠ .needMoreBytes)
      (delivered : it.delivered = [])
  | waits (stored : it.ctx.stored = ctx.stored ++ it.read) (delivered : it.delivered = [])
      (incomplete : ∀ k : Packet, ¬ k.bytes <+: it.ctx.stored)
      (room : 5 ≤ ctx.size → it.ctx.stored.length < ctx.size)
  | takes (k : Packet) (bytes : ctx.stored ++ it.read = k.bytes ++ it.ctx.stored)
      (delivered : k.Tells ctx.size it.delivered)

theorem report_failed (e : MqttStatus) (h : it.status = e)
    (hfatal : e ≠ .success ∧ e ≠ .needMoreBytes ∧ e ≠ .noDataAvailable) :
    it.report.status ≠ .success ∧ it.report.status ≠ .needMoreBytes := by
  rw [Iteration.report, h, if_neg hfatal.2.2]
  exact ⟨hfatal.1, hfatal.2.1⟩

theorem keepAlive_status (env : KeepAliveReads) (ctx : MqttContext) :
    (handleKeepAlive env ctx).1 = .success ∨ (handleKeepAlive env ctx).1 = .keepAliveTimeout ∨
      (handleKeepAlive env ctx).1 = .sendFailed := by
  unfold handleKeepAlive mqttPing
  dsimp only
  split_ifs <;> simp

theorem keepAlive_failed {env : KeepAliveReads} (hit : it.status = (handleKeepAlive env ctx).1)
    (h : (handleKeepAlive env ctx).1 ≠ .success) :
    it.report.status ≠ .success ∧ it.report.status ≠ .needMoreBytes := by
  rcases (keepAlive_status env ctx).resolve_left h with hstatus | hstatus
  · exact report_failed .keepAliveTimeout (hit.trans hstatus) (by decide)
  · exact report_failed .sendFailed (hit.trans hstatus) (by decide)

theorem keepAlive_stored (env : KeepAliveReads) (ctx : MqttContext) :
    (handleKeepAlive env ctx).2.stored = ctx.stored ∧
      (handleKeepAlive env ctx).2.size = ctx.size := by
  unfold handleKeepAlive mqttPing
  dsimp only
  split_ifs <;> exact ⟨rfl, rfl⟩

/-! ### Refused packets -/

section refused

variable {e : MqttStatus} {qos : Qos} {data : List UInt8}

theorem bind_eq_error {α β : Type} {x : Except MqttStatus α} {f : α → Except MqttStatus β}
    (h : x >>= f = .error e) : x = .error e ∨ ∃ a, f a = .error e := by
  cases x with
  | error e' =>
    obtain rfl : e' = e := Except.error.inj h
    exact .inl rfl
  | ok a => exact .inr ⟨a, h⟩

theorem processPublishFlags_error {flags : UInt8} (h : processPublishFlags flags = .error e) :
    e = .badResponse := by
  unfold processPublishFlags at h
  split at h
  · split at h
    · exact (Except.error.inj h).symm
    · cases h
  · split at h <;> cases h

theorem checkPublishRemainingLength_error {n m : Nat}
    (h : checkPublishRemainingLength n qos m = .error e) : e = .badResponse := by
  unfold checkPublishRemainingLength at h
  generalize (if qos = .qos0 then m else m + 2) = bound at h
  split at h
  · exact (Except.error.inj h).symm
  · cases h

theorem readPacketId_error (h : readPacketId qos data = .error e) : e = .badResponse := by
  unfold readPacketId at h
  split at h
  · cases h
  · split at h
    · split at h
      · exact (Except.error.inj h).symm
      · cases h
    · exact (Except.error.inj h).symm

theorem deserializePublish_error {type : UInt8} (h : deserializePublish type data = .error e) :
    e = .badResponse := by
  rcases bind_eq_error h with hflags | ⟨⟨qos, retain, dup⟩, h⟩
  · exact processPublishFlags_error hflags
  · rcases bind_eq_error h with hcheck | ⟨-, h⟩
    · exact checkPublishRemainingLength_error hcheck
    · split at h
      · rcases bind_eq_error h with hcheck | ⟨-, h⟩
        · exact checkPublishRemainingLength_error hcheck
        · rcases bind_eq_error h with hid | ⟨⟨packetId, payload⟩, h⟩
          · exact readPacketId_error hid
          · cases h
      · exact (Except.error.inj h).symm

theorem deserializeSimpleAck_error (h : deserializeSimpleAck data = .error e) :
    e = .badResponse := by
  unfold deserializeSimpleAck at h
  split at h
  · split at h
    · exact (Except.error.inj h).symm
    · cases h
  · exact (Except.error.inj h).symm

theorem readSubackStatus_cases (codes : List UInt8) (status : MqttStatus) :
    readSubackStatus codes status = .badResponse ∨
      (∀ code ∈ codes, code ∈ [0x00, 0x01, 0x02, 0x80]) ∧
        readSubackStatus codes status = if 0x80 ∈ codes then .serverRefused else status := by
  induction codes generalizing status with
  | nil => simp [readSubackStatus]
  | cons code codes ih =>
    rw [readSubackStatus]
    split
    · rename_i hgood
      refine (ih status).imp_right ?_
      rintro ⟨hcodes, hread⟩
      rw [hread]
      rcases hgood with rfl | rfl | rfl <;> simpa using hcodes
    · split
      · rename_i hrefused
        refine (ih .serverRefused).imp_right ?_
        rintro ⟨hcodes, hread⟩
        rw [hread, hrefused]
        simpa using hcodes
      · exact .inl rfl

/-- A SUBACK is refused, or it is one with these codes. -/
theorem deserializeSuback_cases (data : List UInt8) :
    (deserializeSuback data).1 = .badResponse ∨
      ∃ packetId codes, (Message.suback packetId codes).WellFormed ∧
        data = (Message.suback packetId codes).data ∧
        deserializeSuback data = (if 0x80 ∈ codes then .serverRefused else .success, packetId) := by
  rcases data with _ | ⟨hi, _ | ⟨lo, _ | ⟨code, codes⟩⟩⟩
  · exact .inl rfl
  · exact .inl rfl
  · exact .inl rfl
  · rw [deserializeSuback]
    by_cases hid : uint16Decode hi lo = 0
    · exact .inl (if_pos hid)
    · rw [if_neg hid]
      refine (readSubackStatus_cases (code :: codes) .success).imp_right ?_
      rintro ⟨hcodes, hread⟩
      refine ⟨uint16Decode hi lo, code :: codes, ⟨hid, List.cons_ne_nil _ _, hcodes⟩, ?_, ?_⟩
      · rw [Message.data, uint16HighByte_decode, uint16LowByte_decode]
      · rw [hread]

theorem of_deserializeSimpleAck {packetId : UInt16} (h : deserializeSimpleAck data = .ok packetId) :
    packetId ≠ 0 ∧ data = (Message.unsuback packetId).data := by
  unfold deserializeSimpleAck at h
  split at h
  · split at h
    · cases h
    · rename_i hid
      obtain rfl := Except.ok.inj h
      rw [Message.data, uint16HighByte_decode, uint16LowByte_decode]
      exact ⟨hid, rfl⟩
  · cases h

/-- The packet is a message, and the application has been shown what it says. -/
def Handled (type : UInt8) (data : List UInt8) (out : MqttStatus × List Delivery) : Prop :=
  ∃ m : Message, m.WellFormed ∧ type = m.type ∧ data = m.data ∧ out = (.success, m.shown)

theorem handleIncomingAck_cases (type : UInt8) (data : List UInt8) :
    Handled type data (handleIncomingAck type data) ∨
      handleIncomingAck type data = (.badResponse, []) := by
  have hacks : handlePublishAcks data = .badResponse := by
    unfold handlePublishAcks
    split
    · rename_i herror
      exact deserializeSimpleAck_error herror
    · rfl
  unfold handleIncomingAck
  split
  · exact .inr (by rw [hacks])
  · exact .inr (by rw [hacks])
  · exact .inr (by rw [hacks])
  · exact .inr (by rw [hacks])
  · split
    · exact .inr rfl
    · rename_i hempty
      exact .inl ⟨.pingresp, trivial, rfl, List.length_eq_zero_iff.mp (not_not.mp hempty), rfl⟩
  · rcases deserializeSuback_cases data with hbad | ⟨packetId, codes, hwf, hdata, hread⟩
    · generalize deserializeSuback data = out at hbad
      obtain ⟨status, packetId⟩ := out
      subst hbad
      exact .inr rfl
    · refine .inl ⟨.suback packetId codes, hwf, rfl, hdata, ?_⟩
      rw [hread, Message.shown, ← hdata]
      dsimp only
      split <;> rfl
  · split
    · rename_i herror
      exact .inr (by rw [deserializeSimpleAck_error herror])
    · rename_i packetId hread
      obtain ⟨hid, hdata⟩ := of_deserializeSimpleAck hread
      exact .inl ⟨.unsuback packetId, hid, rfl, hdata, by rw [Message.shown, ← hdata]⟩
  · exact .inr rfl

/-- A packet that is refused is not shown to the application. -/
theorem handlePacket_cases (type : UInt8) (data : List UInt8) :
    Handled type data (handlePacket type data) ∨
      handlePacket type data = (.badResponse, []) ∨ handlePacket type data = (.recvFailed, []) := by
  unfold handlePacket
  split
  · rename_i htype
    unfold handleIncomingPublish
    split
    · rename_i herror
      exact .inr (.inl (by rw [deserializePublish_error herror]))
    · rename_i packetId info hread
      split
      · exact .inr (.inr rfl)
      · rename_i hqos
        obtain ⟨hbyte, hdata, hlen, hid⟩ := of_deserializePublish htype hread
        obtain rfl := hid (not_not.mp hqos)
        refine .inl ⟨.publish info, ⟨not_not.mp hqos, hdata ▸ hlen⟩, hbyte, hdata, ?_⟩
        rw [Message.shown, Message.data, hbyte, ← hdata]
  · exact (handleIncomingAck_cases type data).imp_right .inl

end refused

/-! ### The front of the buffer -/

section front

variable {p : PacketInfo} {stored : List UInt8} {e : MqttStatus}

theorem not_prefix_of_error
    (h : processIncomingPacketTypeAndLength stored = .error e) (k : Packet) :
    ¬ k.bytes <+: stored := by
  rintro ⟨t, rfl⟩
  rw [k.processIncoming_bytes] at h
  cases h

theorem eq_badResponse_of_decided
    (h : processIncomingPacketTypeAndLength stored = .error e) (hmore : front stored ≠ .more) :
    e = .badResponse := by
  cases stored with
  | nil => exact absurd rfl hmore
  | cons c l =>
    rcases processIncoming_error h with rfl | ⟨rfl, -⟩
    · rfl
    · rw [front, h] at hmore
      exact absurd rfl hmore

theorem not_prefix_of_short
    (h : processIncomingPacketTypeAndLength stored = .ok p) (hlt : stored.length < p.total)
    (k : Packet) : ¬ k.bytes <+: stored := by
  rintro ⟨t, rfl⟩
  rw [k.processIncoming_bytes] at h
  obtain rfl := Except.ok.inj h
  rw [List.length_append, k.length_bytes] at hlt
  change _ < k.data.length + ((encodeRemainingLength k.data.length).length + 1) at hlt
  omega

/-- With the rest of it, an accepted header is a packet. -/
theorem exists_packet_append {read : List UInt8}
    (h : processIncomingPacketTypeAndLength stored = .ok p)
    (hlen : stored.length + read.length = p.total) : ∃ k : Packet, stored ++ read = k.bytes := by
  have hfront : mqttFraming.front stored = .size p.total := front_eq_size_iff.mpr ⟨p, h, rfl⟩
  apply Packet.exists_of_isFrame
  rw [FrameStream.Framing.IsFrame, mqttFraming.stable (by rw [hfront]; simp), hfront,
    List.length_append, hlen]

/-- The packet at the front, when all of it is there. -/
theorem exists_packet_front
    (h : processIncomingPacketTypeAndLength stored = .ok p) (hle : p.total ≤ stored.length) :
    ∃ k : Packet, stored = k.bytes ++ stored.drop p.total ∧ p.total = k.bytes.length ∧
      p.type = k.type ∧ (stored.drop p.headerLength).take p.remainingLength = k.data := by
  have hfront : mqttFraming.front stored = .size p.total := front_eq_size_iff.mpr ⟨p, h, rfl⟩
  obtain ⟨k, hk⟩ := Packet.exists_of_isFrame (FrameStream.Framing.isFrame_take hfront hle)
  have hstored : stored = k.bytes ++ stored.drop p.total := by
    rw [← hk, List.take_append_drop]
  generalize stored.drop p.total = rest at hstored ⊢
  subst hstored
  rw [k.processIncoming_bytes] at h
  obtain rfl := Except.ok.inj h
  refine ⟨k, rfl, k.length_bytes.symm, rfl, ?_⟩
  change (List.drop ((encodeRemainingLength k.data.length).length + 1)
    (k.type :: (encodeRemainingLength k.data.length ++ k.data) ++ rest)).take k.data.length = _
  rw [List.cons_append, List.drop_succ_cons, List.append_assoc, List.drop_left, List.take_left]

theorem handleFront_ctx (rxTime : UInt32) (p : PacketInfo) (bs : List UInt8) (ctx : MqttContext) :
    (handleFront rxTime p bs ctx).ctx.stored = ctx.stored.drop p.total ∧
      (handleFront rxTime p bs ctx).ctx.size = ctx.size := by
  unfold handleFront
  dsimp only
  split_ifs <;> exact ⟨rfl, rfl⟩

end front

theorem handleFront_outcome {rxTime : UInt32} {p : PacketInfo} {bs : List UInt8}
    {ctx₀ : MqttContext} (hstored : ctx.stored = ctx₀.stored ++ bs) (hsize : ctx.size = ctx₀.size)
    (hin : processIncomingPacketTypeAndLength ctx.stored = .ok p)
    (hle : p.total ≤ ctx.stored.length) : Outcome ctx₀ (handleFront rxTime p bs ctx).report := by
  obtain ⟨k, hbytes, htotal, htype, hdata⟩ := exists_packet_front hin hle
  have hctx := (handleFront_ctx rxTime p bs ctx).1
  have hout : ((handleFront rxTime p bs ctx).status, (handleFront rxTime p bs ctx).delivered) =
      handlePacket k.type k.data := by
    rw [← htype, ← hdata]
    rfl
  rcases handlePacket_cases k.type k.data with ⟨m, hwf, hmtype, hmdata, hok⟩ | hbad | hrecv
  · obtain ⟨-, hshown⟩ := Prod.mk.inj (hout.trans hok)
    refine .takes k ?_ ?_
    · change ctx₀.stored ++ bs = k.bytes ++ (handleFront rxTime p bs ctx).ctx.stored
      rw [hctx, ← hstored]
      exact hbytes
    · change k.Tells ctx₀.size (handleFront rxTime p bs ctx).delivered
      have hfits := ctx.stored_le
      rw [hshown]
      exact .message (by omega) m hwf hmtype hmdata
  · obtain ⟨hstatus, hnone⟩ := Prod.mk.inj (hout.trans hbad)
    exact .failed (report_failed .badResponse hstatus (by decide)) hnone
  · obtain ⟨hstatus, hnone⟩ := Prod.mk.inj (hout.trans hrecv)
    exact .failed (report_failed .recvFailed hstatus (by decide)) hnone

theorem processFront_outcome {env : LoopReads} {bs : List UInt8} {ctx₀ : MqttContext}
    (hstored : ctx.stored = ctx₀.stored ++ bs) (hsize : ctx.size = ctx₀.size)
    (h : processFront env (processIncomingPacketTypeAndLength ctx.stored) bs ctx = some it) :
    Outcome ctx₀ it.report ∧ it.ctx.size = ctx₀.size := by
  unfold processFront at h
  cases hin : processIncomingPacketTypeAndLength ctx.stored with
  | error e =>
    rw [hin] at h
    obtain rfl := Option.some.inj h
    refine ⟨?_, hsize⟩
    by_cases hmore : front ctx.stored = .more
    · refine .waits hstored rfl (not_prefix_of_error hin) fun hfive => ?_
      have := length_lt_of_more hmore
      change ctx.stored.length < ctx₀.size
      omega
    · obtain rfl := eq_badResponse_of_decided hin hmore
      exact .failed (report_failed .badResponse rfl (by decide)) rfl
  | ok p =>
    rw [hin] at h
    dsimp only at h
    have hle := ctx.stored_le
    split at h
    · rename_i hlarge
      obtain ⟨⟨status, read⟩, hdiscard, h⟩ := Option.bind_eq_some_iff.mp h
      obtain rfl := Option.some.inj h
      refine ⟨?_, hsize⟩
      rcases discardStoredPacket_spec hdiscard (by omega) with ⟨rfl, hlen⟩ | rfl
      · obtain ⟨k, hk⟩ := exists_packet_append hin hlen
        have htotal : k.bytes.length = p.total := by rw [← hk, List.length_append, hlen]
        refine .takes k ?_ (.dropped (by omega))
        change ctx₀.stored ++ (bs ++ read) = k.bytes ++ []
        rw [List.append_nil, ← hk, hstored, List.append_assoc]
      · exact .failed (report_failed .recvFailed rfl (by decide)) rfl
    · rename_i hfits
      split at h
      · rename_i hshort
        obtain rfl := Option.some.inj h
        refine ⟨.waits hstored rfl (not_prefix_of_short hin hshort) fun _ => ?_, hsize⟩
        change ctx.stored.length < ctx₀.size
        omega
      · rename_i hwhole
        obtain rfl := Option.some.inj h
        exact ⟨handleFront_outcome hstored hsize hin (Nat.not_lt.mp hwhole),
          (handleFront_ctx _ _ _ _).2.trans hsize⟩

/-- Both ways of finding nothing at all are the same. -/
theorem incoming_eq (stored bs : List UInt8) :
    (if bs.length = 0 ∧ stored.length = 0 then .error .noDataAvailable
      else processIncomingPacketTypeAndLength (stored ++ bs)) =
      processIncomingPacketTypeAndLength (stored ++ bs) := by
  split
  · rename_i hempty
    rw [List.length_eq_zero_iff.mp hempty.1, List.length_eq_zero_iff.mp hempty.2]
    rfl
  · rfl

/-- Every iteration that returns fails, waits, or takes one packet off. -/
theorem receiveSingleIteration_outcome {env : LoopReads}
    (h : receiveSingleIteration env ctx = some it) : Outcome ctx it ∧ it.ctx.size = ctx.size := by
  obtain ⟨it', hit, rfl⟩ := Option.map_eq_some_iff.mp h
  cases hrecv : env.recv with
  | error code =>
    rw [hrecv] at hit
    obtain rfl := Option.some.inj hit
    exact ⟨.failed (report_failed .recvFailed rfl (by decide)) rfl, rfl⟩
  | bytes bs =>
    rw [hrecv] at hit
    dsimp only at hit
    split at hit
    · rename_i hroom
      rw [incoming_eq] at hit
      split at hit
      · obtain ⟨hstored, hsize⟩ := keepAlive_stored env.keepAlive (ctx.store bs hroom)
        split at hit
        · have hfront : processFront env (processIncomingPacketTypeAndLength
              (handleKeepAlive env.keepAlive (ctx.store bs hroom)).2.stored) bs
              (handleKeepAlive env.keepAlive (ctx.store bs hroom)).2 = some it' := by
            rw [hstored]
            exact hit
          exact processFront_outcome hstored hsize hfront
        · rename_i hfailed
          obtain rfl := Option.some.inj hit
          exact ⟨.failed (keepAlive_failed rfl hfailed) rfl, hsize⟩
      · have hstored : (ctx.store bs hroom).stored = ctx.stored ++ bs := rfl
        exact processFront_outcome hstored rfl hit
    · cases hit

end FlintRTOS.CoreMqtt
