import FlintRTOS.CircularBuffer
import FlintRTOS.MqttConnection

/-!
# The receive ring is a byte pipe

The indices of the ring run freely and wrap at `2 ^ 32`, which its size divides, so an
index taken modulo the size is unaffected.  The ring is therefore a circular buffer:
`on_recv` pushes at its back and `mqtt_transport_recv` pops at its front.
-/

namespace FlintRTOS.MqttTransport

namespace RxRing

variable {c : RxRing}

/-- The bytes in the ring, oldest first. -/
def contents (c : RxRing) : List UInt8 :=
  (List.range c.ringUsed.toNat).map fun i => c.rx ((c.rxTail.toNat + i) % rxRingSize.toNat)

/-- The ring as a circular buffer. -/
def buffer (c : RxRing) (hle : c.ringUsed ≤ rxRingSize) : CircularBuffer UInt8 where
  size := rxRingSize.toNat
  slot := c.rx
  read := (c.rxTail.toNat + (rxRingSize.toNat - 1)) % rxRingSize.toNat
  count := c.ringUsed.toNat
  read_lt := Nat.mod_lt _ (by decide)
  count_le := hle

theorem index_buffer (hle : c.ringUsed ≤ rxRingSize) (i : Nat) :
    (c.buffer hle).index i = (c.rxTail.toNat + i) % rxRingSize.toNat := by
  change ((c.rxTail.toNat + 4095) % 4096 + 1 + i) % 4096 = (c.rxTail.toNat + i) % 4096
  omega

theorem contents_buffer (hle : c.ringUsed ≤ rxRingSize) :
    (c.buffer hle).contents = c.contents := by
  simp only [CircularBuffer.contents, index_buffer]
  rfl

/-- The head is where the back of the buffer is, also when it has wrapped. -/
theorem write_buffer (hle : c.ringUsed ≤ rxRingSize) :
    (c.buffer hle).write = (c.rxHead % rxRingSize).toNat := by
  rw [CircularBuffer.write, index_buffer, UInt32.toNat_mod]
  change (c.rxTail.toNat + (c.rxHead - c.rxTail).toNat) % 4096 = c.rxHead.toNat % 4096
  rw [UInt32.toNat_sub]
  have htail := c.rxTail.toNat_lt
  omega

/-! ### Writing -/

theorem ringUsed_put (hspace : c.ringUsed < rxRingSize) (b : UInt8) :
    (c.put b).ringUsed.toNat = c.ringUsed.toNat + 1 := by
  have hspace : (c.rxHead - c.rxTail).toNat < 4096 := hspace
  change (c.rxHead + 1 - c.rxTail).toNat = (c.rxHead - c.rxTail).toNat + 1
  rw [UInt32.toNat_sub, UInt32.toNat_add, UInt32.toNat_one]
  rw [UInt32.toNat_sub] at hspace ⊢
  have hhead := c.rxHead.toNat_lt
  have htail := c.rxTail.toNat_lt
  omega

theorem contents_put (hspace : c.ringUsed < rxRingSize) (b : UInt8) :
    (c.put b).contents = c.contents ++ [b] := by
  have hle : c.ringUsed ≤ rxRingSize := UInt32.le_of_lt hspace
  have hused := ringUsed_put hspace b
  have hle' : (c.put b).ringUsed ≤ rxRingSize := by
    rw [UInt32.le_iff_toNat_le, hused]
    exact hspace
  have hcount : (c.buffer hle).count < (c.buffer hle).size := hspace
  have hbuffer : (c.put b).buffer hle' = (c.buffer hle).pushBack b hcount := by
    have hslot : (c.put b).rx = Function.update c.rx (c.buffer hle).write b := by
      rw [write_buffer hle]
      rfl
    exact CircularBuffer.ext rfl hslot rfl hused
  rw [← contents_buffer hle', hbuffer, CircularBuffer.contents_pushBack, contents_buffer]

theorem copy_spec (payload : List UInt8) :
    ∀ {c : RxRing}, c.ringUsed.toNat + payload.length ≤ rxRingSize.toNat →
      (c.copy payload).contents = c.contents ++ payload ∧
        (c.copy payload).ringUsed.toNat = c.ringUsed.toNat + payload.length := by
  induction payload with
  | nil =>
    intro c _
    exact ⟨(List.append_nil _).symm, rfl⟩
  | cons b payload ih =>
    intro c hfits
    rw [List.length_cons] at hfits
    have hspace : c.ringUsed < rxRingSize := by
      rw [UInt32.lt_iff_toNat_lt]
      omega
    have hused := ringUsed_put hspace b
    obtain ⟨hcontents, hcount⟩ := ih (c := c.put b) (by omega)
    refine ⟨?_, ?_⟩
    · change ((c.put b).copy payload).contents = _
      rw [hcontents, contents_put hspace, List.append_assoc, List.singleton_append]
    · change ((c.put b).copy payload).ringUsed.toNat = _
      rw [hcount, hused, List.length_cons]
      omega

/-- A chain that fits is appended, segment after segment. -/
theorem foldl_copy_spec (payloads : List (List UInt8)) :
    ∀ {c : RxRing}, c.ringUsed.toNat + payloads.flatten.length ≤ rxRingSize.toNat →
      (payloads.foldl copy c).contents = c.contents ++ payloads.flatten ∧
        (payloads.foldl copy c).ringUsed.toNat = c.ringUsed.toNat + payloads.flatten.length := by
  induction payloads with
  | nil =>
    intro c _
    exact ⟨(List.append_nil _).symm, rfl⟩
  | cons payload payloads ih =>
    intro c hfits
    rw [List.flatten_cons, List.length_append] at hfits
    obtain ⟨hcopy, hused⟩ := copy_spec payload (c := c) (by omega)
    obtain ⟨hcontents, hcount⟩ := ih (c := c.copy payload) (by omega)
    refine ⟨?_, ?_⟩
    · rw [List.foldl_cons, hcontents, hcopy, List.flatten_cons, List.append_assoc]
    · rw [List.foldl_cons, hcount, hused, List.flatten_cons, List.length_append]
      omega

theorem fits_of_accepted (hle : c.ringUsed ≤ rxRingSize) {q : Pbuf}
    (hroom : ¬ q.totLen.toUInt32 > c.ringFree) :
    c.ringUsed.toNat + q.payloads.flatten.length ≤ rxRingSize.toNat := by
  rw [← q.totLen_eq]
  have hle := UInt32.le_iff_toNat_le.mp hle
  rw [gt_iff_lt, UInt32.lt_iff_toNat_lt, not_lt, ringFree, UInt32.toNat_sub_of_le _ _ hle] at hroom
  have htot : q.totLen.toUInt32.toNat = q.totLen.toNat := UInt16.toNat_toUInt32 _
  omega

/-! ### Reading -/

theorem ringUsed_advance (hsome : c.ringUsed > 0) :
    ({ c with rxTail := c.rxTail + 1 } : RxRing).ringUsed.toNat = c.ringUsed.toNat - 1 := by
  have hsome : 0 < (c.rxHead - c.rxTail).toNat := UInt32.lt_iff_toNat_lt.mp hsome
  change (c.rxHead - (c.rxTail + 1)).toNat = (c.rxHead - c.rxTail).toNat - 1
  rw [UInt32.toNat_sub, UInt32.toNat_add, UInt32.toNat_one]
  rw [UInt32.toNat_sub] at hsome ⊢
  have hhead := c.rxHead.toNat_lt
  have htail := c.rxTail.toNat_lt
  omega

theorem contents_advance (hle : c.ringUsed ≤ rxRingSize) (hsome : c.ringUsed > 0) :
    c.contents = c.rx (c.rxTail % rxRingSize).toNat ::
      ({ c with rxTail := c.rxTail + 1 } : RxRing).contents := by
  have hused := ringUsed_advance hsome
  have hle' : ({ c with rxTail := c.rxTail + 1 } : RxRing).ringUsed ≤ rxRingSize := by
    rw [UInt32.le_iff_toNat_le] at hle ⊢
    omega
  have hcount : 0 < (c.buffer hle).count := UInt32.lt_iff_toNat_lt.mp hsome
  have hread : (({ c with rxTail := c.rxTail + 1 } : RxRing).buffer hle').read =
      (c.buffer hle).popFront.read := by
    have hsize : rxRingSize.toNat = 4096 := rfl
    simp only [buffer, CircularBuffer.popFront]
    rw [CircularBuffer.next_mod (by decide), UInt32.toNat_add, UInt32.toNat_one, hsize]
    omega
  have hpop : ({ c with rxTail := c.rxTail + 1 } : RxRing).buffer hle' =
      (c.buffer hle).popFront :=
    CircularBuffer.ext rfl rfl hread hused
  have hfront : CircularBuffer.next (c.buffer hle).size (c.buffer hle).read =
      (c.rxTail % rxRingSize).toNat := by
    rw [CircularBuffer.next_read, index_buffer, Nat.add_zero, UInt32.toNat_mod]
  rw [← contents_buffer hle, ← contents_buffer hle', hpop,
    CircularBuffer.contents_popFront _ hcount, hfront]
  rfl

/-- Reading takes a front part of the contents and leaves the rest. -/
theorem drain_spec (len : Nat) :
    ∀ {c : RxRing}, c.ringUsed ≤ rxRingSize →
      c.contents = (c.drain len).1 ++ (c.drain len).2.contents ∧
        (c.drain len).2.ringUsed ≤ rxRingSize := by
  induction len with
  | zero =>
    intro c hle
    exact ⟨rfl, hle⟩
  | succ len ih =>
    intro c hle
    rw [drain]
    split
    · rename_i hsome
      have hused := ringUsed_advance hsome
      obtain ⟨hcontents, hle'⟩ := ih (c := { c with rxTail := c.rxTail + 1 }) (by
        rw [UInt32.le_iff_toNat_le] at hle ⊢
        omega)
      exact ⟨by rw [contents_advance hle hsome, hcontents]; rfl, hle'⟩
    · exact ⟨rfl, hle⟩

theorem ringUsed_drain (len : Nat) :
    ∀ c : RxRing, (c.drain len).2.ringUsed.toNat = c.ringUsed.toNat - len := by
  induction len with
  | zero => exact fun c => rfl
  | succ len ih =>
    intro c
    rw [drain]
    split
    · rename_i hsome
      have hused := ringUsed_advance hsome
      have hrest := ih { c with rxTail := c.rxTail + 1 }
      change (({ c with rxTail := c.rxTail + 1 } : RxRing).drain len).2.ringUsed.toNat = _
      omega
    · rename_i hnone
      have hzero : c.ringUsed.toNat = 0 :=
        Nat.eq_zero_of_not_pos fun hpos => hnone (UInt32.lt_iff_toNat_lt.mpr hpos)
      change c.ringUsed.toNat = _
      omega

end RxRing

/-! ### Runs -/

namespace Transport

/-- Nothing is lost, duplicated or reordered, and the ring does not overflow. -/
structure Pipe (w : Transport) : Prop where
  accepted : w.accepted = w.returned ++ w.net.ctx.contents
  used : w.net.ctx.ringUsed ≤ rxRingSize

theorem Pipe.flow {w w' : Transport} (h : w.Pipe) (hflow : w.Flow w') : w'.Pipe := by
  obtain ⟨haccepted, hused⟩ := h
  cases hflow with
  | keep hring hacc hret =>
    constructor
    · rw [hacc, hret, hring, haccepted]
    · rwa [hring]
  | reset hhead htail hacc hret =>
    have hzero : w'.net.ctx.ringUsed = 0 := by
      rw [RxRing.ringUsed, hhead, htail]
      rfl
    constructor
    · rw [hacc, hret, RxRing.contents, hzero]
      rfl
    · rw [hzero]
      decide
  | accept q hroom hring hacc hret =>
    obtain ⟨hcontents, hcount⟩ :=
      RxRing.foldl_copy_spec q.payloads (RxRing.fits_of_accepted hused hroom)
    constructor
    · rw [hacc, hret, hring, hcontents, haccepted, List.append_assoc]
    · rw [hring, UInt32.le_iff_toNat_le, hcount]
      exact RxRing.fits_of_accepted hused hroom
  | drain len hring hacc hret =>
    obtain ⟨hcontents, hle⟩ := RxRing.drain_spec len hused
    constructor
    · rw [hacc, hret, hring, haccepted, hcontents, List.append_assoc]
    · rwa [hring]

theorem pipe_of_reach {w : Transport} (h : transport.Reach w) : w.Pipe := by
  refine h.invariant ⟨rfl, by decide⟩ ?_
  intro w a w' hreach hpipe hst
  exact hpipe.flow ((inv_of_reach hreach).step hst).2

end Transport

/-- **The receive ring is a lossless byte pipe.**  Since the last reset, what
    `mqtt_transport_recv` has returned is a front part of the accepted payloads and
    the rest is in the ring, which never holds more than its size.  A pbuf that is
    refused changes nothing. -/
theorem rx_ring_lossless {w : Transport} (h : transport.Reach w) :
    w.accepted = w.returned ++ w.net.ctx.contents ∧ w.net.ctx.ringUsed ≤ rxRingSize ∧
      ∀ p q e net, onRecv p (some q) w.net = some (e, net) → e ≠ .ok → net = w.net := by
  obtain ⟨haccepted, hused⟩ := Transport.pipe_of_reach h
  refine ⟨haccepted, hused, ?_⟩
  intro p q e net hrecv hrefused
  simp only [onRecv] at hrecv
  split at hrecv
  · cases hrecv
    rfl
  · obtain ⟨n, -, hn⟩ := Option.bind_eq_some_iff.mp hrecv
    cases hn
    exact absurd rfl hrefused

/-- Three bytes in two segments, of which two have been read. -/
theorem rx_ring_lossless_read :
    ∃ w, transport.Reach w ∧ w.returned = [1, 2] ∧ w.accepted = [1, 2] ++ w.net.ctx.contents := by
  obtain ⟨w, hreach, hw⟩ := transport.exists_reach
    [.callOpen asksServer 1883 1000, .onDns (some 5), .pumped asksServer, .onConnected 0 .ok,
      .pumped asksServer, .callRecv 2, .onRecv 0 (some ⟨[[1], [2, 3]], 3, rfl⟩),
      .pumped asksServer]
    (fun w => w.returned = [1, 2]) (by decide)
  have hreturned := of_decide_eq_true hw
  obtain ⟨haccepted, -⟩ := rx_ring_lossless hreach
  exact ⟨w, hreach, hreturned, by rw [haccepted, hreturned]⟩

/-! ### Chains larger than the ring -/

/-- `TCP_WND` of `lwipopts.h`. -/
def tcpWnd : UInt16 := 4 * 1460

/-- `on_recv` takes the chain. -/
def Accepts (p : Nat) (q : Pbuf) (n : Net) : Prop := ∃ net, onRecv p (some q) n = some (.ok, net)

theorem accepts_iff_of_empty {n : Net} {p : Nat} {r : TcpPcb} (hpcb : n.pcbs[p]? = some r)
    (hlive : r.released = []) (hempty : n.ctx.ringUsed = 0) (q : Pbuf) :
    Accepts p q n ↔ q.totLen.toNat ≤ rxRingSize.toNat := by
  have htest : q.totLen.toUInt32 > n.ctx.ringFree ↔ ¬ q.totLen.toNat ≤ rxRingSize.toNat := by
    rw [gt_iff_lt, UInt32.lt_iff_toNat_lt, RxRing.ringFree, hempty, UInt32.sub_zero,
      UInt16.toNat_toUInt32, not_le]
  unfold Accepts
  simp only [onRecv, htest]
  constructor
  · rintro ⟨net, hnet⟩
    by_contra hlarge
    rw [if_pos hlarge] at hnet
    cases hnet
  · intro hsmall
    rw [if_neg (not_not_intro hsmall)]
    simp [Net.tcpRecved, Net.touch, Net.mapCtx, hpcb, hlive]

/-- **Large chains.**  On an empty ring `on_recv` takes a chain if and only if the chain
    is no larger than the ring, and so it is after `mqtt_transport_recv` has emptied the
    ring. -/
theorem empty_ring_accepts_iff {w : Transport} (h : transport.Reach w) {p : Nat}
    (hset : w.registered p (·.recv)) (q : Pbuf) :
    (w.net.ctx.ringUsed = 0 → (Accepts p q w.net ↔ q.totLen.toNat ≤ rxRingSize.toNat)) ∧
      ∀ len : UInt64, w.net.ctx.ringUsed ≠ 0 → rxRingSize.toNat ≤ len.toNat →
        (mqttTransportRecv len w.net).2.ctx.ringUsed = 0 ∧
          (Accepts p q (mqttTransportRecv len w.net).2 ↔
            q.totLen.toNat ≤ rxRingSize.toNat) := by
  obtain ⟨r, hpcb, hr⟩ := (Option.any_eq_true _ _).mp hset
  have hlive : r.released = [] := (of_decide_eq_true hr).1
  refine ⟨fun hempty => accepts_iff_of_empty hpcb hlive hempty q, ?_⟩
  intro len hsome hlen
  have hused := (Transport.pipe_of_reach h).used
  have hdrained : (mqttTransportRecv len w.net).2.ctx.ringUsed = 0 := by
    rw [mqttTransportRecv, if_neg hsome]
    apply UInt32.toNat_inj.mp
    change (w.net.ctx.toRxRing.drain len.toNat).2.ringUsed.toNat = 0
    rw [RxRing.ringUsed_drain]
    exact Nat.sub_eq_zero_of_le ((UInt32.le_iff_toNat_le.mp hused).trans hlen)
  have hsame : (mqttTransportRecv len w.net).2.pcbs[p]? = some r := by
    rw [mqttTransportRecv, if_neg hsome]
    exact hpcb
  exact ⟨hdrained, accepts_iff_of_empty hsame hlive hdrained q⟩

/-- One pbuf of zeros. -/
def zeros (len : UInt16) : Pbuf := ⟨[List.replicate len.toNat 0], len, by simp⟩

theorem exists_connected :
    ∃ w, transport.Reach w ∧ w.registered 0 (·.recv) ∧ w.net.ctx.ringUsed = 0 := by
  obtain ⟨w, hreach, hw⟩ := transport.exists_reach
    [.callOpen asksServer 1883 1000, .onDns (some 5), .pumped asksServer, .onConnected 0 .ok,
      .pumped asksServer]
    (fun w => w.registered 0 (·.recv) ∧ w.net.ctx.ringUsed = 0) (by decide +kernel)
  exact ⟨w, hreach, of_decide_eq_true hw⟩

/-- A window of data joined into one chain is refused on an empty ring. -/
theorem empty_ring_refuses_window :
    ∃ w, transport.Reach w ∧ w.registered 0 (·.recv) ∧ w.net.ctx.ringUsed = 0 ∧
      onRecv 0 (some (zeros tcpWnd)) w.net = some (.mem, w.net) := by
  obtain ⟨w, hreach, hset, hempty⟩ := exists_connected
  have hlarge : (zeros tcpWnd).totLen.toUInt32 > w.net.ctx.ringFree := by
    rw [RxRing.ringFree, hempty]
    decide
  exact ⟨w, hreach, hset, hempty, by simp only [onRecv, if_pos hlarge]⟩

/-- The same connection takes as much as the ring holds. -/
theorem empty_ring_accepts_ring :
    ∃ w, transport.Reach w ∧ w.registered 0 (·.recv) ∧ w.net.ctx.ringUsed = 0 ∧
      Accepts 0 (zeros 4096) w.net := by
  obtain ⟨w, hreach, hset, hempty⟩ := exists_connected
  have haccepts := (empty_ring_accepts_iff hreach hset (zeros 4096)).1 hempty
  exact ⟨w, hreach, hset, hempty, haccepts.mpr (by decide)⟩

end FlintRTOS.MqttTransport
