import FlintRTOS.MqttReceive

/-!
# The packets of a connection

A connection of the application, from the CONNACK on: `flint_mqtt_service` calls
`MQTT_ProcessLoop` again and again and drops the connection when that fails.  How the bytes of
the broker are cut into pieces is up to TCP, the transport and the room in the network buffer;
what the application is shown does not depend on it.
-/

namespace FlintRTOS.CoreMqtt

/-- `received` and `delivered` record what `recv` has returned and what the callback has been
    given so far. -/
structure Connection where
  ctx : MqttContext
  alive : Bool
  received : List UInt8
  delivered : List Delivery

inductive ConnectionAction where
  | loop (env : LoopReads)
  /-- The application sends something of its own. -/
  | sent (timeMs : UInt32)
deriving DecidableEq, Repr

def ConnectionAction.isLoop : ConnectionAction → Bool
  | .loop _ => true
  | .sent _ => false

def Connection.after (c : Connection) (it : Iteration) : Connection where
  ctx := it.ctx
  alive := it.status = .success ∨ it.status = .needMoreBytes
  received := c.received ++ it.read
  delivered := c.delivered ++ it.delivered

def Connection.exec (c : Connection) : ConnectionAction → Option Connection
  | .loop env => (receiveSingleIteration env c.ctx).map c.after
  | .sent timeMs => some { c with ctx := { c.ctx with lastPacketTxTime := timeMs } }

/-- After `MQTT_Init` and `MQTT_Connect`, which set no time of reception. -/
def connected (size : Nat) (keepAliveSeconds : UInt16) (txTime : UInt32) : Connection where
  ctx := ⟨size, [], Nat.zero_le _, keepAliveSeconds, txTime, 0, 0, false⟩
  alive := true
  received := []
  delivered := []

def connection (size : Nat) (keepAliveSeconds : UInt16) (txTime : UInt32) :
    Machine Connection ConnectionAction where
  init := connected size keepAliveSeconds txTime
  guard c _ := c.alive = true
  exec := Connection.exec

instance (size : Nat) (keepAliveSeconds : UInt16) (txTime : UInt32) (c : Connection)
    (a : ConnectionAction) : Decidable ((connection size keepAliveSeconds txTime).guard c a) :=
  inferInstanceAs (Decidable (c.alive = true))

/-! ### The packets of a stream -/

def streamOf (ks : List Packet) : List UInt8 := (ks.map Packet.bytes).flatten

/-- What the application is to be shown of some packets, one after the other. -/
inductive Told (size : Nat) : List Packet → List Delivery → Prop
  | nil : Told size [] []
  | snoc {ks : List Packet} {k : Packet} {ds new : List Delivery} (before : Told size ks ds)
      (last : k.Tells size new) : Told size (ks ++ [k]) (ds ++ new)

@[simp] theorem streamOf_append (ks ls : List Packet) :
    streamOf (ks ++ ls) = streamOf ks ++ streamOf ls := by
  simp [streamOf]

@[simp] theorem streamOf_singleton (k : Packet) : streamOf [k] = k.bytes := by
  simp [streamOf]

theorem Packet.bytes_inj {k l : Packet} (h : k.bytes = l.bytes) : k = l := by
  have hinfo := k.processIncoming_bytes []
  rw [h, l.processIncoming_bytes] at hinfo
  have hlen : l.data.length = k.data.length :=
    congrArg PacketInfo.remainingLength (Except.ok.inj hinfo)
  rw [bytes, bytes, packetBytes, packetBytes, hlen] at h
  obtain ⟨htype, hdata⟩ := List.cons.inj h
  exact Packet.ext htype (List.append_cancel_left hdata)

/-- What has been read of a stream of packets is some of them, from the first on. -/
theorem prefix_of_streamOf {ks ps : List Packet} {r : List UInt8}
    (h : streamOf ks ++ r <+: streamOf ps) : ks <+: ps := by
  have hframes : ∀ (ls : List Packet), ∀ f ∈ ls.map Packet.bytes, mqttFraming.IsFrame f := by
    intro ls f hf
    obtain ⟨l, -, rfl⟩ := List.mem_map.mp hf
    exact l.isFrame
  have hle := FrameStream.Framing.prefix_of_append_prefix (hframes ks) (hframes ps) h
  have hinj : Function.Injective Packet.bytes := fun _ _ => Packet.bytes_inj
  rw [List.prefix_iff_eq_take, ← List.map_take, List.length_map] at hle
  rw [List.prefix_iff_eq_take]
  exact List.map_injective_iff.mpr hinj hle

/-! ### Along a run -/

/-- What has been received is some packets and the bytes that are stored, and the application
    has been shown what those packets say. -/
structure Intact (size : Nat) (c : Connection) (ks : List Packet) (rest : List UInt8) : Prop where
  received : c.received = streamOf ks ++ rest
  delivered : Told size ks c.delivered
  size_eq : c.ctx.size = size
  stored : c.alive = true → rest = c.ctx.stored

section run

variable {size : Nat} {keepAliveSeconds : UInt16} {txTime : UInt32} {c : Connection}
  {ks : List Packet} {rest : List UInt8} {it : Iteration}

theorem Intact.fails (h : Intact size c ks rest) (hsize : it.ctx.size = c.ctx.size)
    (hstatus : it.status ≠ .success ∧ it.status ≠ .needMoreBytes)
    (hdelivered : it.delivered = []) : Intact size (c.after it) ks (rest ++ it.read) := by
  have hdead : (c.after it).alive ≠ true := by
    change ¬ decide (it.status = .success ∨ it.status = .needMoreBytes) = true
    rw [decide_eq_true_iff, not_or]
    exact hstatus
  refine ⟨?_, ?_, hsize.trans h.size_eq, fun hyes => absurd hyes hdead⟩
  · change c.received ++ it.read = _
    rw [h.received, List.append_assoc]
  · change Told size ks (c.delivered ++ it.delivered)
    rw [hdelivered, List.append_nil]
    exact h.delivered

theorem Intact.waits (h : Intact size c ks rest) (halive : c.alive = true)
    (hsize : it.ctx.size = c.ctx.size) (hstored : it.ctx.stored = c.ctx.stored ++ it.read)
    (hdelivered : it.delivered = []) : Intact size (c.after it) ks (c.after it).ctx.stored := by
  refine ⟨?_, ?_, hsize.trans h.size_eq, fun _ => rfl⟩
  · change c.received ++ it.read = streamOf ks ++ it.ctx.stored
    rw [h.received, h.stored halive, hstored, List.append_assoc]
  · change Told size ks (c.delivered ++ it.delivered)
    rw [hdelivered, List.append_nil]
    exact h.delivered

theorem Intact.takes (h : Intact size c ks rest) (halive : c.alive = true)
    (hsize : it.ctx.size = c.ctx.size) {k : Packet}
    (hbytes : c.ctx.stored ++ it.read = k.bytes ++ it.ctx.stored)
    (hdelivered : k.Tells size it.delivered) :
    Intact size (c.after it) (ks ++ [k]) (c.after it).ctx.stored := by
  refine ⟨?_, h.delivered.snoc hdelivered, hsize.trans h.size_eq, fun _ => rfl⟩
  change c.received ++ it.read = streamOf (ks ++ [k]) ++ it.ctx.stored
  rw [h.received, h.stored halive, List.append_assoc, hbytes, streamOf_append,
    streamOf_singleton, List.append_assoc]

theorem Intact.sent (h : Intact size c ks rest) (timeMs : UInt32) :
    Intact size { c with ctx := { c.ctx with lastPacketTxTime := timeMs } } ks rest :=
  ⟨h.received, h.delivered, h.size_eq, h.stored⟩

theorem intact_connected : Intact size (connected size keepAliveSeconds txTime) [] [] :=
  ⟨rfl, .nil, rfl, fun _ => rfl⟩

theorem exists_intact (h : (connection size keepAliveSeconds txTime).Reach c) :
    ∃ ks rest, Intact size c ks rest := by
  refine h.invariant (P := fun c => ∃ ks rest, Intact size c ks rest) ⟨[], [], intact_connected⟩ ?_
  rintro c a c' - ⟨ks, rest, hintact⟩ ⟨halive, hexec⟩
  cases a with
  | sent timeMs =>
    obtain rfl := Option.some.inj hexec
    exact ⟨ks, rest, hintact.sent timeMs⟩
  | loop env =>
    obtain ⟨it, hit, rfl⟩ := Option.map_eq_some_iff.mp hexec
    obtain ⟨houtcome, hsize⟩ := receiveSingleIteration_outcome hit
    cases houtcome with
    | failed hstatus hdelivered => exact ⟨ks, _, hintact.fails hsize hstatus hdelivered⟩
    | waits hstored hdelivered => exact ⟨ks, _, hintact.waits halive hsize hstored hdelivered⟩
    | takes k hbytes hdelivered =>
      rw [hintact.size_eq] at hdelivered
      exact ⟨ks ++ [k], _, hintact.takes halive hsize hbytes hdelivered⟩

/-- However the bytes of some packets come in, the application is shown what the first of them
    say, in order and each once.  As long as the connection has not been dropped, these are all
    that have come in as a whole, and what is stored is the beginning of those after them. -/
theorem packets_delivered_in_order (h : (connection size keepAliveSeconds txTime).Reach c)
    (ps : List Packet) (hsent : c.received <+: streamOf ps) :
    ∃ n ≤ ps.length, Told size (ps.take n) c.delivered ∧
      (c.alive = true → c.received = streamOf (ps.take n) ++ c.ctx.stored ∧
        c.ctx.stored <+: streamOf (ps.drop n)) := by
  obtain ⟨ks, rest, hintact⟩ := exists_intact h
  rw [hintact.received] at hsent
  obtain ⟨ls, rfl⟩ := prefix_of_streamOf hsent
  refine ⟨ks.length, by simp, ?_, fun halive => ?_⟩
  · rw [List.take_left]
    exact hintact.delivered
  · rw [List.take_left, List.drop_left, hintact.received, ← hintact.stored halive]
    refine ⟨rfl, ?_⟩
    rw [streamOf_append] at hsent
    exact (List.prefix_append_right_inj _).mp hsent

/-- A publication to `a` in two pieces, the second with the beginning of a PINGRESP: it has been
    shown, and the PINGRESP is waited for. -/
theorem packets_delivered_in_order_publish :
    ∃ c, (connection 8 30 0).Reach c ∧ c.alive = true ∧
      c.received = [0x30, 4, 0, 1, 97, 1, 0xD0] ∧
      c.delivered = [⟨0x30, [0, 1, 97, 1], 0, .success,
        some ⟨.qos0, false, false, [97], [1], by decide⟩⟩] ∧
      Told 8 [⟨0x30, [0, 1, 97, 1], rfl, by decide⟩] c.delivered := by
  have hfour : encodeRemainingLength 4 = [4] := encodeRemainingLength_of_lt (by decide)
  have hzero : encodeRemainingLength 0 = [0] := encodeRemainingLength_of_lt (by decide)
  obtain ⟨c, hreach, hc⟩ := Machine.exists_reach (connection 8 30 0)
    [.loop ⟨.bytes [0x30, 4, 0], ⟨0, 0, 0⟩, [], 0⟩,
      .loop ⟨.bytes [1, 97, 1, 0xD0], ⟨0, 0, 0⟩, [], 0⟩]
    (fun c => decide (c.alive = true ∧ c.received = [0x30, 4, 0, 1, 97, 1, 0xD0] ∧
      c.ctx.stored = [0xD0] ∧ c.delivered = [⟨0x30, [0, 1, 97, 1], 0, .success,
        some ⟨.qos0, false, false, [97], [1], by decide⟩⟩])) (by decide)
  rw [decide_eq_true_iff] at hc
  obtain ⟨halive, hreceived, hstored, hshown⟩ := hc
  have hpublish : Packet.bytes ⟨0x30, [0, 1, 97, 1], rfl, by decide⟩ = [0x30, 4, 0, 1, 97, 1] := by
    change 0x30 :: (encodeRemainingLength 4 ++ [0, 1, 97, 1]) = _
    rw [hfour]
    rfl
  have hping : Packet.bytes ⟨0xD0, [], rfl, Nat.zero_le _⟩ = [0xD0, 0] := by
    change 0xD0 :: (encodeRemainingLength 0 ++ []) = _
    rw [hzero]
    rfl
  obtain ⟨n, hn, htold, hall⟩ := packets_delivered_in_order hreach
    [⟨0x30, [0, 1, 97, 1], rfl, by decide⟩, ⟨0xD0, [], rfl, Nat.zero_le _⟩]
    (by rw [hreceived, streamOf, List.map_cons, List.map_singleton, hpublish, hping]; decide)
  have hlen := congrArg List.length (hall halive).1
  rw [hreceived, hstored, streamOf] at hlen
  match n, hn with
  | 0, _ => simp at hlen
  | 1, _ => exact ⟨c, hreach, halive, hreceived, hshown, htold⟩
  | 2, _ => simp [hpublish, hping] at hlen

/-! ### Progress -/

/-- `recv` does not hold back: it returns something when there is room and the packets have not
    all been received. -/
def Eager (stream : List UInt8) (c : Connection) : ConnectionAction → Prop
  | .loop env =>
    match env.recv with
    | .error _ => False
    | .bytes bs => bs = [] → c.ctx.stored.length = c.ctx.size ∨ c.received = stream
  | .sent _ => True

instance (stream : List UInt8) (c : Connection) :
    (a : ConnectionAction) → Decidable (Eager stream c a)
  | .loop ⟨.error _, _, _, _⟩ => inferInstanceAs (Decidable False)
  | .loop ⟨.bytes _, _, _, _⟩ => inferInstanceAs (Decidable (_ → _))
  | .sent _ => inferInstanceAs (Decidable True)

variable {env : LoopReads} {ctx : MqttContext} {bs : List UInt8} {ps : List Packet}

theorem Eager.exists_bytes {stream : List UInt8} (h : Eager stream c (.loop env)) :
    ∃ bs, env.recv = .bytes bs ∧
      (bs = [] → c.ctx.stored.length = c.ctx.size ∨ c.received = stream) := by
  obtain ⟨recv, keepAlive, discard, rxTime⟩ := env
  cases recv with
  | error code => exact False.elim h
  | bytes bs => exact ⟨bs, rfl, h⟩

theorem prefix_of_processFront {incoming : Except MqttStatus PacketInfo}
    (h : processFront env incoming bs ctx = some it) : bs <+: it.read := by
  unfold processFront at h
  split at h
  · obtain rfl := Option.some.inj h
    exact List.prefix_rfl
  · split at h
    · obtain ⟨out, -, hout⟩ := Option.bind_eq_some_iff.mp h
      obtain rfl := Option.some.inj hout
      exact List.prefix_append _ _
    · split at h <;> obtain rfl := Option.some.inj h <;> exact List.prefix_rfl

theorem prefix_read (h : receiveSingleIteration env ctx = some it) (hrecv : env.recv = .bytes bs) :
    bs <+: it.read := by
  obtain ⟨it', hit, rfl⟩ := Option.map_eq_some_iff.mp h
  change bs <+: it'.read
  rw [hrecv] at hit
  dsimp only at hit
  split at hit
  · split at hit
    · split at hit
      · exact prefix_of_processFront hit
      · obtain rfl := Option.some.inj hit
        exact List.prefix_rfl
    · exact prefix_of_processFront hit
  · cases hit

/-- Nothing is left when all has been received and no packet is complete. -/
theorem eq_of_received_all (h : Intact size c ks c.ctx.stored) (hall : c.received = streamOf ps)
    (hincomplete : ∀ k : Packet, ¬ k.bytes <+: c.ctx.stored) : ks = ps := by
  have hstream : streamOf ks ++ c.ctx.stored = streamOf ps := by rw [← h.received, hall]
  obtain ⟨ls, rfl⟩ := prefix_of_streamOf ⟨[], by rw [List.append_nil, hstream]⟩
  cases ls with
  | nil => rw [List.append_nil]
  | cons l ls =>
    have hrest : c.ctx.stored = streamOf (l :: ls) := by
      rw [streamOf_append] at hstream
      exact List.append_cancel_left hstream
    refine absurd ?_ (hincomplete l)
    rw [hrest, ← List.singleton_append, streamOf_append, streamOf_singleton]
    exact List.prefix_append _ _

/-- An iteration that waits has brought something in, unless all packets have been taken. -/
theorem Intact.reads_or_all {ps : List Packet} {env : LoopReads}
    (h : Intact size c ks c.ctx.stored) (heager : Eager (streamOf ps) c (.loop env))
    (hit : receiveSingleIteration env c.ctx = some it)
    (hstored : it.ctx.stored = c.ctx.stored ++ it.read)
    (hincomplete : ∀ k : Packet, ¬ k.bytes <+: it.ctx.stored)
    (hroom : it.ctx.stored.length < c.ctx.size) : 0 < it.read.length ∨ ks = ps := by
  obtain ⟨bs, hrecv, hempty⟩ := heager.exists_bytes
  have hread := (prefix_read hit hrecv).length_le
  by_cases hbs : bs = []
  · rcases hempty hbs with hfull | hall
    · -- a full buffer holds a whole packet or the header of one that is too large
      have hlen := congrArg List.length hstored
      rw [List.length_append] at hlen
      omega
    · right
      refine eq_of_received_all h hall fun k hk => hincomplete k ?_
      rw [hstored]
      exact hk.trans (List.prefix_append _ _)
  · left
    have := List.length_pos_iff.mpr hbs
    omega

/-- Every iteration brings something in or takes a packet off, until all of them are. -/
theorem progress (hroom : 5 ≤ size) {as : List ConnectionAction}
    (h : ((connection size keepAliveSeconds txTime).restrict (Eager (streamOf ps))).Run
      (connected size keepAliveSeconds txTime) as c) (halive : c.alive = true)
    (hsent : c.received <+: streamOf ps) :
    ∃ ks, Intact size c ks c.ctx.stored ∧
      (as.countP ConnectionAction.isLoop ≤ c.received.length + ks.length ∨ ks = ps) := by
  induction h with
  | refl => exact ⟨[], intact_connected, .inl (Nat.zero_le _)⟩
  | @tail as c c' a _ hst ih =>
    obtain ⟨⟨hguard, hexec⟩, heager⟩ := Machine.restrict_step.mp hst
    rw [List.countP_append]
    cases a with
    | sent timeMs =>
      obtain rfl := Option.some.inj hexec
      obtain ⟨ks, hintact, hcount⟩ := ih hguard hsent
      exact ⟨ks, hintact.sent timeMs, hcount⟩
    | loop env =>
      obtain ⟨it, hit, rfl⟩ := Option.map_eq_some_iff.mp hexec
      have hreceived : (c.after it).received = c.received ++ it.read := rfl
      have hbefore : c.received <+: streamOf ps := by
        rw [hreceived] at hsent
        exact (List.prefix_append _ _).trans hsent
      obtain ⟨ks, hintact, hcount⟩ := ih hguard hbefore
      obtain ⟨houtcome, hsize⟩ := receiveSingleIteration_outcome hit
      have hone : [ConnectionAction.loop env].countP ConnectionAction.isLoop = 1 := rfl
      rw [hone, hreceived, List.length_append]
      cases houtcome with
      | failed hstatus =>
        rcases of_decide_eq_true halive with hs | hs
        · exact absurd hs hstatus.1
        · exact absurd hs hstatus.2
      | waits hstored hdelivered hincomplete hlt =>
        refine ⟨ks, hintact.waits hguard hsize hstored hdelivered, ?_⟩
        have hroom' := hlt (by rw [hintact.size_eq]; exact hroom)
        rcases hcount with hcount | hcount
        · rcases hintact.reads_or_all heager hit hstored hincomplete hroom' with hread | hall
          · left
            omega
          · exact .inr hall
        · exact .inr hcount
      | takes k hbytes hdelivered =>
        rw [hintact.size_eq] at hdelivered
        have hnext := hintact.takes hguard hsize hbytes hdelivered
        refine ⟨ks ++ [k], hnext, ?_⟩
        rw [List.length_append, List.length_singleton]
        rcases hcount with hcount | rfl
        · left
          omega
        · rw [hnext.received] at hsent
          have hle := (prefix_of_streamOf hsent).length_le
          rw [List.length_append, List.length_singleton] at hle
          omega

/-- A transport that does not hold back and a connection that is not dropped: after as many
    iterations as there are bytes and packets, the application has been shown what all of the
    packets say, and the buffer is empty. -/
theorem all_packets_delivered {ps : List Packet} (hroom : 5 ≤ size) {as : List ConnectionAction}
    (h : ((connection size keepAliveSeconds txTime).restrict (Eager (streamOf ps))).Run
      (connected size keepAliveSeconds txTime) as c)
    (halive : c.alive = true) (hsent : c.received <+: streamOf ps)
    (hlong : (streamOf ps).length + ps.length ≤ as.countP ConnectionAction.isLoop) :
    Told size ps c.delivered ∧ c.received = streamOf ps ∧ c.ctx.stored = [] := by
  obtain ⟨ks, hintact, hcount⟩ := progress hroom h halive hsent
  have hks : ks = ps := by
    rcases hcount with hcount | hcount
    · have hlen := hsent.length_le
      have hle : ks <+: ps := by
        rw [hintact.received] at hsent
        exact prefix_of_streamOf hsent
      exact hle.eq_of_length_le (by omega)
    · exact hcount
  subst hks
  have hreceived := hintact.received
  have hnil : c.ctx.stored = [] := by
    have hlen := hsent.length_le
    rw [hreceived, List.length_append] at hlen
    exact List.length_eq_zero_iff.mp (by omega)
  refine ⟨hintact.delivered, ?_, hnil⟩
  rw [hreceived, hnil, List.append_nil]

end run

/-- A publication, and one that is too large for the buffer and is read to its end and dropped. -/
theorem all_packets_delivered_publish :
    ∃ c, (connection 8 30 0).Reach c ∧
      c.received = [0x30, 4, 0, 1, 97, 1, 0x30, 8, 0, 1, 97, 1, 2, 3, 4, 5] ∧
      c.delivered = [⟨0x30, [0, 1, 97, 1], 0, .success,
        some ⟨.qos0, false, false, [97], [1], by decide⟩⟩] ∧
      Told 8 [⟨0x30, [0, 1, 97, 1], rfl, by decide⟩,
        ⟨0x30, [0, 1, 97, 1, 2, 3, 4, 5], rfl, by decide⟩] c.delivered ∧ c.ctx.stored = [] := by
  have hfour : encodeRemainingLength 4 = [4] := encodeRemainingLength_of_lt (by decide)
  have height : encodeRemainingLength 8 = [8] := encodeRemainingLength_of_lt (by decide)
  have hstream : streamOf [⟨0x30, [0, 1, 97, 1], rfl, by decide⟩,
      ⟨0x30, [0, 1, 97, 1, 2, 3, 4, 5], rfl, by decide⟩] =
      [0x30, 4, 0, 1, 97, 1, 0x30, 8, 0, 1, 97, 1, 2, 3, 4, 5] := by
    change 0x30 :: (encodeRemainingLength 4 ++ [0, 1, 97, 1]) ++
      ((0x30 :: (encodeRemainingLength 8 ++ [0, 1, 97, 1, 2, 3, 4, 5])) ++ []) = _
    rw [hfour, height]
    rfl
  obtain ⟨c, hrun, hc⟩ := Machine.exists_run ((connection 8 30 0).restrict
      (Eager [0x30, 4, 0, 1, 97, 1, 0x30, 8, 0, 1, 97, 1, 2, 3, 4, 5]))
    (.loop ⟨.bytes [0x30, 4, 0, 1, 97, 1, 0x30], ⟨0, 0, 0⟩, [], 0⟩ ::
      .loop ⟨.bytes [8, 0, 1, 97], ⟨0, 0, 0⟩, [⟨0, [(.bytes [1, 2, 3, 4, 5], 0)]⟩], 0⟩ ::
      List.replicate 16 (.loop ⟨.bytes [], ⟨0, 0, 0⟩, [], 0⟩))
    (fun c => decide (c.alive = true ∧
      c.received = [0x30, 4, 0, 1, 97, 1, 0x30, 8, 0, 1, 97, 1, 2, 3, 4, 5] ∧
      c.delivered = [⟨0x30, [0, 1, 97, 1], 0, .success,
        some ⟨.qos0, false, false, [97], [1], by decide⟩⟩])) (by decide)
  rw [decide_eq_true_iff] at hc
  obtain ⟨halive, hreceived, hshown⟩ := hc
  rw [← hstream] at hrun
  obtain ⟨htold, -, hnil⟩ := all_packets_delivered (by decide) hrun halive
    ⟨[], by rw [List.append_nil, hreceived, hstream]⟩ (by rw [hstream]; decide)
  exact ⟨c, (Machine.Reach.init.run hrun).of_restrict, hreceived, hshown, htold, hnil⟩

end FlintRTOS.CoreMqtt
