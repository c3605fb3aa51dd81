import FlintRTOS.BigEndian
import FlintRTOS.MqttWire

/-!
# Publications

How a publication is laid out as a PUBLISH packet and read back, and how `MQTT_Publish` hands
the packet to the transport.  The header is put into an array of its own; topic and payload are
sent from where they are, so that a packet is a list of vectors.  The transport takes as many
bytes of a vector as it likes at a time.

The records that coreMQTT keeps of publications with a quality of service above 0 are read from
outside.  This repository does not set any up, and `MQTT_Publish` then refuses such a
publication.
-/

namespace FlintRTOS.CoreMqtt

/-! ### PUBLISH -/

inductive Qos where
  | qos0
  | qos1
  | qos2
deriving DecidableEq, Repr

/-- `MQTTPublishInfo_t`; the length of the topic is a `uint16_t`. -/
structure PublishInfo where
  qos : Qos
  retain : Bool
  dup : Bool
  topicName : List UInt8
  payload : List UInt8
  topicName_lt : topicName.length < 2 ^ 16
deriving DecidableEq, Repr

def uint8SetBit (x : UInt8) (position : UInt8) : UInt8 := x ||| (1 <<< position)

def uint8CheckBit (x : UInt8) (position : UInt8) : Bool := x &&& (1 <<< position) = 1 <<< position

def uint16HighByte (x : UInt16) : UInt8 := (x >>> 8).toUInt8

def uint16LowByte (x : UInt16) : UInt8 := (x &&& 0x00FF).toUInt8

def uint16Decode (hi lo : UInt8) : UInt16 := (hi.toUInt16 <<< 8) ||| lo.toUInt16

/-- The remaining length and the size of the packet. -/
def calculatePublishPacketSize (info : PublishInfo) : Option (Nat × Nat) :=
  let packetSize := info.topicName.length + 2
  let packetSize := if info.qos ≠ .qos0 then packetSize + 2 else packetSize
  let payloadLimit := mqttMaxRemainingLength - packetSize - 1
  if info.payload.length > payloadLimit then none
  else
    let packetSize := packetSize + info.payload.length
    let payloadLimit := payloadLimit - remainingLengthEncodedSize packetSize
    if info.payload.length > payloadLimit then none
    else some (packetSize, packetSize + (1 + remainingLengthEncodedSize packetSize))

/-- The first byte of a PUBLISH. -/
def publishByte (qos : Qos) (retain dup : Bool) : UInt8 :=
  let publishFlags := match qos with
    | .qos0 => 0x30
    | .qos1 => uint8SetBit 0x30 1
    | .qos2 => uint8SetBit 0x30 2
  let publishFlags := if retain then uint8SetBit publishFlags 0 else publishFlags
  if dup then uint8SetBit publishFlags 3 else publishFlags

def PublishInfo.byte (info : PublishInfo) : UInt8 := publishByte info.qos info.retain info.dup

/-- `MQTT_SerializePublishHeaderWithoutTopic`. -/
def serializePublishHeaderWithoutTopic (info : PublishInfo) (remainingLength : Nat) : List UInt8 :=
  let topicNameLength := UInt16.ofNat info.topicName.length
  info.byte :: (encodeRemainingLength remainingLength ++
    [uint16HighByte topicNameLength, uint16LowByte topicNameLength])

/-- The vectors of `sendPublishWithoutCopy`. -/
def publishVectors (info : PublishInfo) (remainingLength : Nat) (packetId : UInt16) :
    List (List UInt8) :=
  [serializePublishHeaderWithoutTopic info remainingLength, info.topicName] ++
    (if info.qos ≠ .qos0 then [[uint16HighByte packetId, uint16LowByte packetId]] else []) ++
    (if info.payload.length > 0 then [info.payload] else [])

def processPublishFlags (publishFlags : UInt8) : Except MqttStatus (Qos × Bool × Bool) := do
  let qos ←
    if uint8CheckBit publishFlags 2 then
      if uint8CheckBit publishFlags 1 then Except.error MqttStatus.badResponse else pure Qos.qos2
    else if uint8CheckBit publishFlags 1 then pure .qos1
    else pure .qos0
  return (qos, uint8CheckBit publishFlags 0, uint8CheckBit publishFlags 3)

def checkPublishRemainingLength (remainingLength : Nat) (qos : Qos) (qos0Minimum : Nat) :
    Except MqttStatus Unit :=
  if remainingLength < (if qos = .qos0 then qos0Minimum else qos0Minimum + 2) then
    .error .badResponse
  else .ok ()

/-- The packet identifier, 0 where there is none, and the payload behind it. -/
def readPacketId (qos : Qos) (rest : List UInt8) : Except MqttStatus (UInt16 × List UInt8) :=
  if qos = .qos0 then .ok (0, rest)
  else match rest with
    | hi :: lo :: payload =>
      if uint16Decode hi lo = 0 then .error .badResponse else .ok (uint16Decode hi lo, payload)
    | _ => .error .badResponse

/-- `data` is the packet behind its fixed header.  Both lengths are checked before bytes are
    read, so that the last cases are not reached. -/
def deserializePublish (type : UInt8) (data : List UInt8) :
    Except MqttStatus (UInt16 × PublishInfo) := do
  let (qos, retain, dup) ← processPublishFlags (type &&& 0x0F)
  checkPublishRemainingLength data.length qos 3
  match data with
  | hi :: lo :: rest =>
    let topicNameLength := uint16Decode hi lo
    checkPublishRemainingLength data.length qos (topicNameLength.toNat + 2)
    let (packetId, payload) ← readPacketId qos (rest.drop topicNameLength.toNat)
    return (packetId, ⟨qos, retain, dup, rest.take topicNameLength.toNat, payload, by
      rw [List.length_take]
      exact Nat.lt_of_le_of_lt (Nat.min_le_left _ _) topicNameLength.toNat_lt⟩)
  | _ => .error .badResponse

theorem bind_eq_ok {α β : Type} {x : Except MqttStatus α} {f : α → Except MqttStatus β} {b : β}
    (h : x >>= f = .ok b) : ∃ a, x = .ok a ∧ f a = .ok b := by
  cases x with
  | error e => cases h
  | ok a => exact ⟨a, rfl, h⟩

theorem toNat_uint16Decode (hi lo : UInt8) :
    (uint16Decode hi lo).toNat = hi.toNat * 2 ^ 8 + lo.toNat := by
  have hhi := hi.toNat_lt
  have hlo := lo.toNat_lt
  rw [uint16Decode, UInt16.toNat_or, UInt16.toNat_shiftLeft, UInt8.toNat_toUInt16,
    UInt8.toNat_toUInt16]
  change hi.toNat <<< 8 % 2 ^ 16 ||| lo.toNat = _
  rw [Nat.shiftLeft_eq, Nat.mod_eq_of_lt (by omega), BigEndian.mul_two_pow_or (by omega)]

theorem toNat_uint16HighByte (x : UInt16) : (uint16HighByte x).toNat = x.toNat / 256 := by
  have hx := x.toNat_lt
  rw [uint16HighByte, UInt16.toNat_toUInt8, UInt16.toNat_shiftRight]
  change x.toNat >>> 8 % 256 = _
  rw [Nat.shiftRight_eq_div_pow]
  omega

theorem toNat_uint16LowByte (x : UInt16) : (uint16LowByte x).toNat = x.toNat % 256 := by
  rw [uint16LowByte, UInt16.toNat_toUInt8, UInt16.toNat_and]
  change (x.toNat &&& (2 ^ 8 - 1)) % 256 = _
  rw [Nat.and_two_pow_sub_one_eq_mod]
  omega

theorem uint16Decode_bytes (x : UInt16) :
    uint16Decode (uint16HighByte x) (uint16LowByte x) = x := by
  apply UInt16.toNat.inj
  rw [toNat_uint16Decode, toNat_uint16HighByte, toNat_uint16LowByte]
  omega

theorem uint16HighByte_decode (hi lo : UInt8) : uint16HighByte (uint16Decode hi lo) = hi := by
  apply UInt8.toNat.inj
  have hlo := lo.toNat_lt
  rw [toNat_uint16HighByte, toNat_uint16Decode]
  omega

theorem uint16LowByte_decode (hi lo : UInt8) : uint16LowByte (uint16Decode hi lo) = lo := by
  apply UInt8.toNat.inj
  have hlo := lo.toNat_lt
  rw [toNat_uint16LowByte, toNat_uint16Decode]
  omega

theorem publishByte_spec (qos : Qos) (retain dup : Bool) :
    publishByte qos retain dup &&& 0xF0 = 0x30 ∧
      incomingPacketValid (publishByte qos retain dup) = true ∧
      processPublishFlags (publishByte qos retain dup &&& 0x0F) = .ok (qos, retain, dup) := by
  refine ⟨?_, ?_, ?_⟩
  · cases qos <;> cases retain <;> cases dup <;> decide
  · cases qos <;> cases retain <;> cases dup <;> decide
  · cases qos <;> cases retain <;> cases dup <;> rfl

/-- What follows the fixed header of a publication. -/
def publishData (info : PublishInfo) (packetId : UInt16) : List UInt8 :=
  let topicNameLength := UInt16.ofNat info.topicName.length
  [uint16HighByte topicNameLength, uint16LowByte topicNameLength] ++ info.topicName ++
    (if info.qos ≠ .qos0 then [uint16HighByte packetId, uint16LowByte packetId] else []) ++
    info.payload

theorem length_publishData (info : PublishInfo) (packetId : UInt16) :
    (publishData info packetId).length =
      info.topicName.length + 2 + (if info.qos ≠ .qos0 then 2 else 0) + info.payload.length := by
  unfold publishData
  split <;> simp <;> omega

variable {info : PublishInfo} {n : Nat} {qos : Qos} {packetId : UInt16}
  {vectors : List (List UInt8)} {startTime : UInt32} {result : Int} {wire : List UInt8}

theorem calculatePublishPacketSize_eq {remainingLength packetSize : Nat}
    (h : calculatePublishPacketSize info = some (remainingLength, packetSize)) (packetId : UInt16) :
    remainingLength = (publishData info packetId).length ∧
      remainingLength ≤ mqttMaxRemainingLength := by
  have htopic := info.topicName_lt
  -- the first check only keeps the second from going below zero
  have hsize : ∀ s, s + info.payload.length = (publishData info packetId).length →
      s ≤ 2 ^ 16 + 4 →
      (if info.payload.length > mqttMaxRemainingLength - s - 1 then none
        else if info.payload.length > mqttMaxRemainingLength - s - 1 -
            remainingLengthEncodedSize (s + info.payload.length) then none
        else some (s + info.payload.length,
          s + info.payload.length + (1 + remainingLengthEncodedSize (s + info.payload.length)))) =
        some (remainingLength, packetSize) →
      remainingLength = (publishData info packetId).length ∧
        remainingLength ≤ mqttMaxRemainingLength := by
    intro s hs hle h
    split at h
    · cases h
    · split at h
      · cases h
      · rename_i hfit _
        obtain ⟨rfl, -⟩ := Prod.mk.inj (Option.some.inj h)
        refine ⟨hs, ?_⟩
        unfold mqttMaxRemainingLength at hfit ⊢
        omega
  refine hsize (if info.qos ≠ .qos0 then info.topicName.length + 2 + 2
    else info.topicName.length + 2) ?_ ?_ h
  · rw [length_publishData]
    split <;> rfl
  · split <;> omega

theorem flatten_publishVectors {remainingLength : Nat} (packetId : UInt16)
    (h : remainingLength = (publishData info packetId).length) :
    (publishVectors info remainingLength packetId).flatten =
      packetBytes info.byte (publishData info packetId) := by
  have hpayload : (if info.payload.length > 0 then [info.payload] else []).flatten =
      info.payload := by
    split
    · exact List.flatten_singleton
    · rename_i hempty
      rw [gt_iff_lt, List.length_pos_iff, not_not] at hempty
      rw [hempty]
      rfl
  have hid : (if info.qos ≠ .qos0 then [[uint16HighByte packetId, uint16LowByte packetId]]
      else []).flatten =
      if info.qos ≠ .qos0 then [uint16HighByte packetId, uint16LowByte packetId] else [] := by
    split
    · rfl
    · rfl
  rw [publishVectors, List.flatten_append, List.flatten_append, hpayload, hid, packetBytes, ← h,
    publishData, serializePublishHeaderWithoutTopic]
  simp

theorem checkPublishRemainingLength_eq_ok {m : Nat} (h : m + (if qos ≠ .qos0 then 2 else 0) ≤ n) :
    checkPublishRemainingLength n qos m = .ok () := by
  unfold checkPublishRemainingLength
  rw [if_neg]
  split at h <;> split <;> simp_all

theorem readPacketId_append (hid : qos ≠ .qos0 → packetId ≠ 0) (payload : List UInt8) :
    readPacketId qos ((if qos ≠ .qos0 then [uint16HighByte packetId, uint16LowByte packetId]
      else []) ++ payload) = .ok (if qos = .qos0 then 0 else packetId, payload) := by
  unfold readPacketId
  by_cases hqos : qos = .qos0
  · rw [if_pos hqos, if_neg (not_not.mpr hqos), if_pos hqos]
    rfl
  · rw [if_neg hqos, if_pos hqos, if_neg hqos]
    change (if uint16Decode (uint16HighByte packetId) (uint16LowByte packetId) = 0
      then Except.error MqttStatus.badResponse else _) = _
    rw [uint16Decode_bytes, if_neg (hid hqos)]
    rfl

theorem deserializePublish_publishData (htopic : info.topicName ≠ [])
    (hid : info.qos ≠ .qos0 → packetId ≠ 0) :
    deserializePublish info.byte (publishData info packetId) =
      .ok (if info.qos = .qos0 then 0 else packetId, info) := by
  have hpos : 0 < info.topicName.length := List.length_pos_iff.mpr htopic
  have hlen := length_publishData info packetId
  have hlength : (UInt16.ofNat info.topicName.length).toNat = info.topicName.length :=
    UInt16.toNat_ofNat_of_lt' info.topicName_lt
  have hcons : publishData info packetId =
      uint16HighByte (UInt16.ofNat info.topicName.length) ::
        uint16LowByte (UInt16.ofNat info.topicName.length) ::
          (info.topicName ++ ((if info.qos ≠ .qos0 then
            [uint16HighByte packetId, uint16LowByte packetId] else []) ++ info.payload)) := by
    simp [publishData]
  have hfirst : checkPublishRemainingLength (publishData info packetId).length info.qos 3 =
      .ok () := checkPublishRemainingLength_eq_ok (by omega)
  have hsecond : checkPublishRemainingLength (publishData info packetId).length info.qos
      (info.topicName.length + 2) = .ok () :=
    checkPublishRemainingLength_eq_ok (by omega)
  rw [hcons] at hfirst hsecond ⊢
  simp only [deserializePublish, PublishInfo.byte, (publishByte_spec _ _ _).2.2, hfirst, hsecond,
    uint16Decode_bytes, hlength, List.drop_left, List.take_left, readPacketId_append hid, bind,
    Except.bind, pure, Except.pure]

theorem type_eq_publishByte {type : UInt8} {retain dup : Bool} (htype : type &&& 0xF0 = 0x30)
    (h : processPublishFlags (type &&& 0x0F) = .ok (qos, retain, dup)) :
    type = publishByte qos retain dup := by
  have hall : ∀ n < 256, UInt8.ofNat n &&& 0xF0 = 0x30 →
      (processPublishFlags (UInt8.ofNat n &&& 0x0F)).toOption.all
        (fun f => UInt8.ofNat n = publishByte f.1 f.2.1 f.2.2) = true := by decide +kernel
  have htyped := hall type.toNat type.toNat_lt
  rw [UInt8.ofNat_toNat, h] at htyped
  exact of_decide_eq_true (htyped htype)

theorem of_readPacketId {rest payload : List UInt8}
    (h : readPacketId qos rest = .ok (packetId, payload)) :
    rest = (if qos ≠ .qos0 then [uint16HighByte packetId, uint16LowByte packetId] else []) ++
      payload ∧ (qos = .qos0 → packetId = 0) := by
  unfold readPacketId at h
  split at h
  · rename_i hqos
    obtain ⟨rfl, rfl⟩ := Prod.mk.inj (Except.ok.inj h)
    rw [if_neg (not_not.mpr hqos)]
    exact ⟨rfl, fun _ => rfl⟩
  · rename_i hqos
    split at h
    · split at h
      · cases h
      · obtain ⟨rfl, rfl⟩ := Prod.mk.inj (Except.ok.inj h)
        rw [if_pos hqos, uint16HighByte_decode, uint16LowByte_decode]
        exact ⟨rfl, fun hzero => absurd hzero hqos⟩
    · cases h

theorem le_of_checkPublishRemainingLength {m : Nat}
    (h : checkPublishRemainingLength n qos m = .ok ()) : m ≤ n := by
  unfold checkPublishRemainingLength at h
  split_ifs at h <;> omega

/-- Nothing is accepted but a publication as it is laid out. -/
theorem of_deserializePublish {type : UInt8} {data : List UInt8} (htype : type &&& 0xF0 = 0x30)
    (h : deserializePublish type data = .ok (packetId, info)) :
    type = info.byte ∧ data = publishData info packetId ∧ 3 ≤ data.length ∧
      (info.qos = .qos0 → packetId = 0) := by
  obtain ⟨⟨qos, retain, dup⟩, hflags, h⟩ := bind_eq_ok h
  obtain ⟨_, hthree, h⟩ := bind_eq_ok h
  have hlen := le_of_checkPublishRemainingLength hthree
  rcases data with _ | ⟨hi, _ | ⟨lo, rest⟩⟩
  · cases h
  · cases h
  · obtain ⟨_, htopic, h⟩ := bind_eq_ok h
    have htake := le_of_checkPublishRemainingLength htopic
    obtain ⟨⟨packetId', payload⟩, hid, h⟩ := bind_eq_ok h
    obtain ⟨rfl, rfl⟩ := Prod.mk.inj (Except.ok.inj h)
    obtain ⟨hrest, hzero⟩ := of_readPacketId hid
    have hlength : (rest.take (uint16Decode hi lo).toNat).length = (uint16Decode hi lo).toNat := by
      rw [List.length_cons, List.length_cons] at htake
      rw [List.length_take]
      omega
    refine ⟨type_eq_publishByte htype hflags, ?_, hlen, hzero⟩
    rw [publishData, hlength, UInt16.ofNat_toNat, uint16HighByte_decode, uint16LowByte_decode,
      List.append_assoc, List.append_assoc, ← hrest, List.take_append_drop]
    rfl

/-! ### Sending -/

/-- What the `send` of the transport answers: a code below 0, or how many of the bytes it has
    taken. -/
inductive Send where
  | error (code : Nat)
  | taken (n : Nat)
deriving DecidableEq, Repr

def mqttSendTimeoutMs : UInt32 := 20000

/-- The inner loop of `sendMessageVector` and what follows it: the vectors that are left when
    so many bytes have been sent. -/
def advance : Nat → List (List UInt8) → List (List UInt8)
  | _, [] => []
  | sendResult, v :: vs =>
    if sendResult ≥ v.length then advance (sendResult - v.length) vs else v.drop sendResult :: vs

/-- The loop of `sendMessageVector`, with the answers of `send` and the clock behind each: what
    it returns, and the bytes that the transport has taken.  A transport that takes more than it
    is given breaks its contract, and there is no result without an answer. -/
def sendMessageLoop (startTime : UInt32) (bytesToSend : Nat) :
    List (Send × UInt32) → List (List UInt8) → Nat → Option (Int × List UInt8)
  | [], _, bytesSent => if bytesSent < bytesToSend then none else some (bytesSent, [])
  | (.error code, _) :: _, _, bytesSent =>
    if bytesSent < bytesToSend then some (Int.negSucc code, []) else some (bytesSent, [])
  | (.taken _, _) :: _, [], bytesSent =>
    if bytesSent < bytesToSend then none else some (bytesSent, [])
  | (.taken n, now) :: answers, v :: vs, bytesSent =>
    if bytesSent < bytesToSend then
      if n > v.length then none
      else if now - startTime > mqttSendTimeoutMs then some ((bytesSent + n : Nat), v.take n)
      else do
        let (result, wire) ←
          sendMessageLoop startTime bytesToSend answers (advance n (v :: vs)) (bytesSent + n)
        return (result, v.take n ++ wire)
    else some (bytesSent, [])

def sendMessageVector (vectors : List (List UInt8)) (startTime : UInt32)
    (answers : List (Send × UInt32)) : Option (Int × List UInt8) :=
  sendMessageLoop startTime (vectors.map List.length).sum answers vectors 0

def sendPublishWithoutCopy (info : PublishInfo) (remainingLength : Nat) (packetId : UInt16)
    (startTime : UInt32) (answers : List (Send × UInt32)) : Option (MqttStatus × List UInt8) := do
  let vectors := publishVectors info remainingLength packetId
  let (result, wire) ← sendMessageVector vectors startTime answers
  return (if result ≠ (vectors.map List.length).sum then .sendFailed else .success, wire)

/-- The publish records: whether there are any, and what reserving and updating one answers. -/
structure RecordReads where
  outgoing : Bool
  reserve : MqttStatus
  update : MqttStatus
deriving DecidableEq, Repr

/-- The checks of `MQTT_Publish` before anything is sent, and the remaining length. -/
def preparePublish (env : RecordReads) (info : PublishInfo) (packetId : UInt16) :
    Except MqttStatus Nat :=
  if info.qos ≠ .qos0 ∧ packetId = 0 then .error .badParameter
  else if env.outgoing = false ∧ info.qos ≠ .qos0 then .error .badParameter
  else if info.topicName = [] then .error .badParameter
  else match calculatePublishPacketSize info with
    | none => .error .badParameter
    | some (remainingLength, _) =>
      if info.qos = .qos0 ∨ env.reserve = .success ∨ env.reserve = .stateCollision ∧ info.dup then
        .ok remainingLength
      else .error env.reserve

/-- `MQTT_Publish`: the status, and what the transport has taken. -/
def mqttPublish (env : RecordReads) (info : PublishInfo) (packetId : UInt16) (startTime : UInt32)
    (answers : List (Send × UInt32)) : Option (MqttStatus × List UInt8) :=
  match preparePublish env info packetId with
  | .error status => some (status, [])
  | .ok remainingLength => do
    let (status, wire) ← sendPublishWithoutCopy info remainingLength packetId startTime answers
    return (if status = .success ∧ info.qos ≠ .qos0 then env.update else status, wire)

theorem flatten_advance : (advance n vectors).flatten = vectors.flatten.drop n := by
  induction vectors generalizing n with
  | nil => simp [advance]
  | cons v vs ih =>
    rw [advance]
    split
    · rename_i hpast
      rw [ih, List.flatten_cons, List.drop_append, List.drop_eq_nil_of_le hpast, List.nil_append]
    · rename_i hwithin
      rw [List.flatten_cons, List.flatten_cons, List.drop_append_of_le_length (by omega)]

variable {answers : List (Send × UInt32)}

/-- The loop ends when everything has been sent. -/
theorem sent_all {bytesToSend : Nat} {bytesSent : Nat}
    (hleft : bytesSent + vectors.flatten.length = bytesToSend) (hdone : ¬ bytesSent < bytesToSend)
    (h : sendMessageLoop startTime bytesToSend answers vectors bytesSent = some (result, wire)) :
    wire <+: vectors.flatten ∧ (result = bytesToSend ↔ wire = vectors.flatten) := by
  have hend : sendMessageLoop startTime bytesToSend answers vectors bytesSent =
      some ((bytesSent : Int), []) := by
    unfold sendMessageLoop
    split <;> exact if_neg hdone
  obtain ⟨rfl, rfl⟩ := Prod.mk.inj (Option.some.inj (hend.symm.trans h))
  have hnil : vectors.flatten = [] := List.length_eq_zero_iff.mp (by omega)
  rw [hnil]
  exact ⟨List.prefix_nil.mpr rfl, fun _ => rfl, fun _ => by omega⟩

/-- A part of the first vector is on the wire, and with it what has been sent of the rest. -/
theorem take_prefix_flatten {v : List UInt8} {vs : List (List UInt8)} (hle : n ≤ v.length)
    (hrest : wire <+: (v :: vs).flatten.drop n) :
    v.take n ++ wire <+: (v :: vs).flatten ∧
      (wire = (v :: vs).flatten.drop n ↔ v.take n ++ wire = (v :: vs).flatten) := by
  have hsplit : (v :: vs).flatten = v.take n ++ (v :: vs).flatten.drop n := by
    rw [List.flatten_cons, List.drop_append_of_le_length hle, ← List.append_assoc,
      List.take_append_drop]
  constructor
  · rw [hsplit]
    exact (List.prefix_append_right_inj _).mpr hrest
  · constructor
    · intro heq
      rw [heq, ← hsplit]
    · intro heq
      rw [hsplit] at heq
      exact List.append_cancel_left heq

/-- Nothing is lost, repeated or reordered: what has been taken is the beginning of the message,
    and all of it exactly if the loop returns its length. -/
theorem sendMessageLoop_spec {bytesToSend : Nat} {bytesSent : Nat}
    (hleft : bytesSent + vectors.flatten.length = bytesToSend)
    (h : sendMessageLoop startTime bytesToSend answers vectors bytesSent = some (result, wire)) :
    wire <+: vectors.flatten ∧ (result = bytesToSend ↔ wire = vectors.flatten) := by
  induction answers generalizing vectors bytesSent wire with
  | nil =>
    by_cases hgo : bytesSent < bytesToSend
    · rw [sendMessageLoop, if_pos hgo] at h
      cases h
    · exact sent_all hleft hgo h
  | cons a answers ih =>
    obtain ⟨answer, now⟩ := a
    by_cases hgo : bytesSent < bytesToSend
    · cases answer with
      | error code =>
        rw [sendMessageLoop, if_pos hgo] at h
        obtain ⟨rfl, rfl⟩ := Prod.mk.inj (Option.some.inj h)
        refine ⟨?_, ?_, ?_⟩
        · exact List.nil_prefix
        · intro hcode
          omega
        · intro hnil
          rw [← hnil, List.length_nil] at hleft
          omega
      | taken n =>
        cases vectors with
        | nil =>
          rw [List.flatten_nil, List.length_nil] at hleft
          omega
        | cons v vs =>
          rw [sendMessageLoop, if_pos hgo] at h
          split at h
          · cases h
          · rename_i hfit
            have hle : n ≤ v.length := by omega
            have hlen : ((v :: vs).flatten.drop n).length + n = (v :: vs).flatten.length := by
              rw [List.length_drop, List.flatten_cons, List.length_append]
              omega
            split at h
            · -- the time is over
              obtain ⟨rfl, rfl⟩ := Prod.mk.inj (Option.some.inj h)
              have hnone : [] <+: (v :: vs).flatten.drop n := List.nil_prefix
              have htake := take_prefix_flatten hle hnone
              rw [List.append_nil] at htake
              refine ⟨htake.1, Iff.trans ?_ htake.2⟩
              constructor
              · intro hall
                exact (List.length_eq_zero_iff.mp (by omega)).symm
              · intro hnil
                rw [← hnil, List.length_nil] at hlen
                omega
            · obtain ⟨⟨result', wire'⟩, hrest, h⟩ := Option.bind_eq_some_iff.mp h
              obtain ⟨rfl, rfl⟩ := Prod.mk.inj (Option.some.inj h)
              have hafter := ih (by rw [flatten_advance]; omega) hrest
              rw [flatten_advance] at hafter
              have htake := take_prefix_flatten hle hafter.1
              exact ⟨htake.1, hafter.2.trans htake.2⟩
    · exact sent_all hleft hgo h

theorem sendMessageVector_spec
    (h : sendMessageVector vectors startTime answers = some (result, wire)) :
    wire <+: vectors.flatten ∧
      (result = (vectors.map List.length).sum ↔ wire = vectors.flatten) := by
  refine sendMessageLoop_spec ?_ h
  rw [Nat.zero_add, List.length_flatten]

theorem preparePublish_cases (env : RecordReads) (info : PublishInfo) (packetId : UInt16) :
    (∃ e, preparePublish env info packetId = .error e ∧ e ≠ .success) ∨
      ∃ n packetSize, preparePublish env info packetId = .ok n ∧
        (info.qos ≠ .qos0 → packetId ≠ 0) ∧ info.topicName ≠ [] ∧
        calculatePublishPacketSize info = some (n, packetSize) := by
  unfold preparePublish
  split
  · exact .inl ⟨_, rfl, by decide⟩
  · rename_i hid
    split
    · exact .inl ⟨_, rfl, by decide⟩
    · split
      · exact .inl ⟨_, rfl, by decide⟩
      · rename_i htopic
        cases calculatePublishPacketSize info with
        | none => exact .inl ⟨_, rfl, by decide⟩
        | some sizes =>
          dsimp only
          split
          · exact .inr ⟨_, _, rfl, fun hqos hzero => hid ⟨hqos, hzero⟩, htopic, rfl⟩
          · rename_i hrefused
            exact .inl ⟨_, rfl, fun hok => hrefused (.inr (.inl hok))⟩

theorem of_sendPublish {remainingLength : Nat} {status : MqttStatus}
    (hlen : remainingLength = (publishData info packetId).length)
    (h : sendPublishWithoutCopy info remainingLength packetId startTime answers =
      some (status, wire)) :
    wire <+: packetBytes info.byte (publishData info packetId) ∧
      (status = .success ↔ wire = packetBytes info.byte (publishData info packetId)) := by
  obtain ⟨⟨result, wire'⟩, hsend, h⟩ := Option.bind_eq_some_iff.mp h
  obtain ⟨hstatus, rfl⟩ := Prod.mk.inj (Option.some.inj h)
  have hspec := sendMessageVector_spec hsend
  rw [flatten_publishVectors packetId hlen] at hspec
  refine ⟨hspec.1, Iff.trans ?_ hspec.2⟩
  rw [← hstatus]
  split
  · rename_i hne
    exact ⟨fun hsuccess => absurd hsuccess (by decide), fun heq => absurd heq hne⟩
  · rename_i heq
    exact ⟨fun _ => not_not.mp heq, fun _ => rfl⟩

/-- Whatever the transport answers, it has taken the beginning of one packet, and all of it if
    `MQTT_Publish` reports success.  The packet is accepted by the receiving side, which reads
    back the publication. -/
theorem publication_round_trip {env : RecordReads} {info : PublishInfo} {packetId : UInt16}
    {startTime : UInt32} {answers : List (Send × UInt32)} {status : MqttStatus}
    {wire : List UInt8}
    (h : mqttPublish env info packetId startTime answers = some (status, wire))
    (hsent : status = .success ∨ wire ≠ []) :
    ∃ data, mqttFraming.IsFrame (packetBytes info.byte data) ∧
      deserializePublish info.byte data = .ok (if info.qos = .qos0 then 0 else packetId, info) ∧
      wire <+: packetBytes info.byte data ∧
      (status = .success → wire = packetBytes info.byte data) ∧
      (wire = packetBytes info.byte data → info.qos = .qos0 → status = .success) := by
  unfold mqttPublish at h
  rcases preparePublish_cases env info packetId with ⟨e, hprepare, hfailed⟩ |
    ⟨n, packetSize, hprepare, hid, htopic, hsize⟩
  · rw [hprepare] at h
    obtain ⟨rfl, rfl⟩ := Prod.mk.inj (Option.some.inj h)
    rcases hsent with rfl | hne
    · exact absurd rfl hfailed
    · exact absurd rfl hne
  · rw [hprepare] at h
    dsimp only at h
    obtain ⟨hlen, hmax⟩ := calculatePublishPacketSize_eq hsize packetId
    obtain ⟨⟨status', wire'⟩, hsend, h⟩ := Option.bind_eq_some_iff.mp h
    obtain ⟨hstatus, rfl⟩ := Prod.mk.inj (Option.some.inj h)
    obtain ⟨hfirst, hall⟩ := of_sendPublish hlen hsend
    have hframe : mqttFraming.IsFrame (packetBytes info.byte (publishData info packetId)) :=
      isFrame_iff.mpr ⟨info.byte, _, (publishByte_spec _ _ _).2.1, hlen ▸ hmax, rfl⟩
    refine ⟨publishData info packetId, hframe, deserializePublish_publishData htopic hid,
      hfirst, ?_, ?_⟩
    · rintro rfl
      apply hall.mp
      by_contra hfailed
      rw [if_neg fun hboth => hfailed hboth.1] at hstatus
      exact hfailed hstatus
    · intro hwhole hqos
      rw [if_neg fun hboth => hboth.2 hqos] at hstatus
      rw [← hstatus]
      exact hall.mpr hwhole

/-- A publication to `a` of one byte, of which the transport takes 3 bytes, none and the rest. -/
theorem publication_round_trip_split :
    ∃ data, deserializePublish 0x30 data = .ok (0, ⟨.qos0, false, false, [97], [1], by decide⟩) ∧
      [0x30, 4, 0, 1, 97, 1] = packetBytes 0x30 data := by
  have h : mqttPublish ⟨false, .success, .success⟩ ⟨.qos0, false, false, [97], [1], by decide⟩ 0 0
      [(.taken 3, 1), (.taken 0, 2), (.taken 1, 3), (.taken 1, 4), (.taken 1, 5)] =
      some (.success, [0x30, 4, 0, 1, 97, 1]) := by
    have hlength : encodeRemainingLength 4 = [4] := encodeRemainingLength_of_lt (by decide)
    have hvectors : publishVectors ⟨.qos0, false, false, [97], [1], by decide⟩ 4 0 =
        [[0x30, 4, 0, 1], [97], [1]] := by
      rw [publishVectors, serializePublishHeaderWithoutTopic, hlength]
      rfl
    rw [mqttPublish]
    change (sendPublishWithoutCopy _ 4 _ _ _ >>= _) = _
    rw [sendPublishWithoutCopy, hvectors]
    rfl
  obtain ⟨data, -, hread, -, hall, -⟩ := publication_round_trip h (.inl rfl)
  exact ⟨data, hread, hall rfl⟩

end FlintRTOS.CoreMqtt
