import FlintRTOS.MqttStream

/-!
# A broker that falls silent

`handleKeepAlive` sends a PINGREQ when nothing has been received for a while, and gives the
connection up when no PINGRESP comes.  The clock is a counter of milliseconds that wraps around;
here every reading is that of a time which does not.
-/

namespace FlintRTOS.CoreMqtt

/-- What is stored is not refused, and can not be handled without more bytes. -/
def Pending (ctx : MqttContext) : Prop :=
  processIncomingPacketTypeAndLength ctx.stored ≠ .error .badResponse ∧
    ∀ p, processIncomingPacketTypeAndLength ctx.stored = .ok p →
      ctx.stored.length < p.total ∧ p.total ≤ ctx.size

variable {ctx : MqttContext} {b δ r u t e : Nat}

theorem elapsed {a : Nat} (hle : a ≤ b) (hlt : b < a + 2 ^ 32) :
    (UInt32.ofNat b - UInt32.ofNat a).toNat = b - a := by
  rw [← UInt32.ofNat_sub hle, UInt32.toNat_ofNat_of_lt' (by change b - a < 2 ^ 32; omega)]

/-! ### Silence -/

/-- The last packet came at `r`, and `b` is when its silence is noticed at the latest, up to the
    distance of two iterations. -/
structure Listening (δ r b u : Nat) (ctx : MqttContext) (t e : Nat) : Prop where
  pending : Pending ctx
  rx : ctx.lastPacketRxTime = UInt32.ofNat r
  le : t ≤ e
  ready : ctx.waitingForPingResp = false → t ≤ b
  waiting : ctx.waitingForPingResp = true → ∃ p, ctx.pingReqSendTimeMs = UInt32.ofNat p ∧
    p ≤ e ∧ t < p + 2 ^ 31 ∧ (t ≤ p + 5000 ∨ t = u) ∧ (t ≤ b + δ ∨ p ≤ b + 2 * δ)

theorem Listening.bound (hu : u ≤ b) (h : Listening δ r b u ctx t e) : t ≤ b + 5000 + 2 * δ := by
  cases hwait : ctx.waitingForPingResp with
  | false =>
    have := h.ready hwait
    omega
  | true =>
    obtain ⟨p, -, -, -, ht, hp⟩ := h.waiting hwait
    omega

/-- A PINGREQ has been sent. -/
def MqttContext.pinged (ctx : MqttContext) (txTime : UInt32) : MqttContext :=
  { ctx with lastPacketTxTime := txTime, pingReqSendTimeMs := txTime, waitingForPingResp := true }

/-- What `handleKeepAlive` does when the transport takes a PINGREQ. -/
theorem handleKeepAlive_cases {env : KeepAliveReads} (htaken : 2 ≤ env.sendResult)
    (ctx : MqttContext) :
    (ctx.waitingForPingResp = true ∧ mqttPingrespTimeoutMs < env.now - ctx.pingReqSendTimeMs ∧
        handleKeepAlive env ctx = (.keepAliveTimeout, ctx)) ∨
      (ctx.waitingForPingResp = true ∧ env.now - ctx.pingReqSendTimeMs ≤ mqttPingrespTimeoutMs ∧
        handleKeepAlive env ctx = (.success, ctx)) ∨
      (ctx.waitingForPingResp = false ∧
        handleKeepAlive env ctx = (.success, ctx.pinged env.txTime)) ∨
      (ctx.waitingForPingResp = false ∧ env.now - ctx.lastPacketRxTime < packetRxTimeoutMs ∧
        handleKeepAlive env ctx = (.success, ctx)) := by
  have hping : mqttPing env ctx = (.success, ctx.pinged env.txTime) :=
    if_neg (Int.not_lt.mpr htaken)
  unfold handleKeepAlive
  dsimp only
  generalize (if packetTxTimeoutMs < 1000 * ctx.keepAliveIntervalSec.toUInt32
    then packetTxTimeoutMs else 1000 * ctx.keepAliveIntervalSec.toUInt32) = txTimeoutMs
  split
  · rename_i hwait
    split
    · rename_i hlate
      exact .inl ⟨hwait, hlate, rfl⟩
    · rename_i hintime
      exact .inr (.inl ⟨hwait, UInt32.not_lt.mp hintime, rfl⟩)
  · rename_i hready
    rw [Bool.not_eq_true] at hready
    split
    · exact .inr (.inr (.inl ⟨hready, hping⟩))
    · split
      · exact .inr (.inr (.inl ⟨hready, hping⟩))
      · rename_i hrecent
        refine .inr (.inr (.inr ⟨hready, ?_, rfl⟩))
        by_contra hlate
        refine hrecent ⟨?_, UInt32.not_lt.mp hlate⟩
        intro hzero
        rw [hzero] at hlate
        exact hlate (by decide)

/-- A context that waits for a PINGRESP in vain. -/
def Missed (ctx : MqttContext) (t : Nat) : Prop :=
  ctx.waitingForPingResp = true ∧
    ∃ p, ctx.pingReqSendTimeMs = UInt32.ofNat p ∧ p + 5000 < t

/-- What one silent iteration does to the times. -/
theorem Listening.step {t' p e' : Nat} {env : KeepAliveReads} (h : Listening δ r b u ctx t e)
    (hδ : δ < 2 ^ 29) (hr : r + 30000 ≤ b) (hb : b < r + 2 ^ 31 + 30000) (hrt : r ≤ t)
    (hnext : e ≤ t' ∧ t' ≤ t + δ) (hping : t' ≤ p ∧ p ≤ e') (hnow : env.now = UInt32.ofNat t')
    (htaken : 2 ≤ env.sendResult) (htx : env.txTime = UInt32.ofNat p) :
    (handleKeepAlive env ctx).1 = .success ∧
        Listening δ r b u (handleKeepAlive env ctx).2 t' e' ∨
      (handleKeepAlive env ctx).1 ≠ .success ∧ Missed (handleKeepAlive env ctx).2 t' := by
  have hle := h.le
  rcases handleKeepAlive_cases htaken ctx with ⟨hwait, hlate, hkeep⟩ |
    ⟨hwait, hintime, hkeep⟩ | ⟨hready, hkeep⟩ | ⟨hready, hrecent, hkeep⟩ <;> rw [hkeep]
  · -- given up
    obtain ⟨q, hq, hqe, hq31, -⟩ := h.waiting hwait
    rw [hnow, hq, UInt32.lt_iff_toNat_lt, elapsed (by omega) (by omega)] at hlate
    change 5000 < t' - q at hlate
    exact .inr ⟨by simp, hwait, q, hq, by omega⟩
  · -- still waiting
    refine .inl ⟨rfl, h.pending, h.rx, by omega,
      fun hno => absurd (hwait.symm.trans hno) (by decide), fun _ => ?_⟩
    obtain ⟨q, hq, hqe, hq31, htq, hbound⟩ := h.waiting hwait
    rw [hnow, hq, UInt32.le_iff_toNat_le, elapsed (by omega) (by omega)] at hintime
    change t' - q ≤ 5000 at hintime
    exact ⟨q, hq, by omega, by omega, .inl (by omega), by omega⟩
  · -- a PINGREQ has been sent
    have ht := h.ready hready
    exact .inl ⟨rfl, h.pending, h.rx, by omega,
      fun hno => absurd hno (by simp [MqttContext.pinged]),
      fun _ => ⟨p, htx, hping.2, by omega, .inl (by omega), .inl (by omega)⟩⟩
  · -- it is too early
    have ht := h.ready hready
    rw [hnow, h.rx, UInt32.lt_iff_toNat_lt, elapsed (by omega) (by omega)] at hrecent
    change t' - r < 30000 at hrecent
    exact .inl ⟨rfl, h.pending, h.rx, by omega, fun _ => by omega,
      fun hno => absurd (hready.symm.trans hno) (by decide)⟩

end FlintRTOS.CoreMqtt
