import FlintRTOS.MqttTransport

/-!
# Who owns a pcb

Every pcb lwIP has handed out is either the one in the context, live and with the
context as its argument, or was released exactly once.  A callback for a live pcb is
then a callback for the pcb of the context, and a transport that is up has one.

`exists_exec` runs any action from such a state: it does not fault, it keeps the
ownership, and `Flow` says what it does to the ring.
-/

namespace FlintRTOS.MqttTransport

/-! ### Ownership -/

structure Net.Owned (n : Net) : Prop where
  held : ∀ p, n.ctx.pcb = some p → ∃ r, n.pcbs[p]? = some r ∧ r.released = [] ∧ r.arg = true
  given : ∀ p r, n.pcbs[p]? = some r → n.ctx.pcb ≠ some p → ∃ how, r.released = [how]
  connected : n.ctx.state = .up ∨ n.ctx.state = .connecting → n.ctx.pcb ≠ none

/-- What a stage says of the context. -/
def Stage.Tells (c : NetworkContext) : Stage → Prop
  | .outside (some (.opened r)) =>
      r = 0 ∧ c.state = .up ∨ r = -1 ∧ c.pcb = none ∧ c.state = .error
  | .outside (some .closed) => c.pcb = none
  | .resolving .. => c.pcb = none
  | _ => True

namespace Net

variable {n : Net} {p : Nat} {r : TcpPcb}

theorem Owned.pcb_eq (h : n.Owned) (hr : n.pcbs[p]? = some r) (hlive : r.released = []) :
    n.ctx.pcb = some p := by
  by_contra hne
  obtain ⟨how, hhow⟩ := h.given p r hr hne
  rw [hlive] at hhow
  cases hhow

/-- The context may change as long as it keeps its pcb. -/
theorem Owned.withCtx (h : n.Owned) {ctx : NetworkContext} (hpcb : ctx.pcb = n.ctx.pcb)
    (hstate : ctx.state = .up ∨ ctx.state = .connecting → n.ctx.pcb ≠ none) :
    (⟨ctx, n.pcbs⟩ : Net).Owned where
  held := by
    change ∀ p, ctx.pcb = some p → _
    rw [hpcb]
    exact h.held
  given := by
    change ∀ p r, n.pcbs[p]? = some r → ctx.pcb ≠ some p → _
    rw [hpcb]
    exact h.given
  connected := by
    change ctx.state = .up ∨ ctx.state = .connecting → ctx.pcb ≠ none
    rw [hpcb]
    exact hstate

theorem touch_live (hr : n.pcbs[p]? = some r) (hlive : r.released = []) (f : TcpPcb → TcpPcb) :
    n.touch p f = some ⟨n.ctx, n.pcbs.set p (f r)⟩ := by
  simp only [touch, hr, if_pos hlive]

theorem touch_set {ctx : NetworkContext} {pcbs : List TcpPcb} (hp : p < pcbs.length)
    (hlive : r.released = []) (f : TcpPcb → TcpPcb) :
    (⟨ctx, pcbs.set p r⟩ : Net).touch p f = some ⟨ctx, pcbs.set p (f r)⟩ := by
  rw [touch_live (r := r) (List.getElem?_set_self hp) hlive, List.set_set]

theorem touch_last {ctx : NetworkContext} {pcbs : List TcpPcb} (hlive : r.released = [])
    (f : TcpPcb → TcpPcb) :
    (⟨ctx, pcbs ++ [r]⟩ : Net).touch pcbs.length f = some ⟨ctx, pcbs ++ [f r]⟩ := by
  have hget : (pcbs ++ [r])[pcbs.length]? = some r := List.getElem?_concat_length
  rw [touch_live (r := r) hget hlive]
  simp

theorem Owned.append (h : n.Owned) (hpcb : n.ctx.pcb = none) {ctx : NetworkContext}
    (hctx : ctx.pcb = some n.pcbs.length) (hlive : r.released = []) (harg : r.arg = true) :
    (⟨ctx, n.pcbs ++ [r]⟩ : Net).Owned where
  held := by
    intro p hp
    cases hctx.symm.trans hp
    exact ⟨r, List.getElem?_concat_length, hlive, harg⟩
  given := by
    intro p r' hr' hne
    have hle := (List.getElem?_eq_some_iff.mp hr').1
    have hlt : p < n.pcbs.length := by
      have hp : p ≠ n.pcbs.length := by
        rintro rfl
        exact hne hctx
      simp only [List.length_append, List.length_singleton] at hle
      omega
    rw [List.getElem?_append_left hlt] at hr'
    exact h.given p r' hr' (by simp [hpcb])
  connected := by
    intro _
    change ctx.pcb ≠ none
    simp [hctx]

/-- The pcb in the context is used without losing it. -/
theorem Owned.exists_touch (h : n.Owned) (hp : n.ctx.pcb = some p) {f : TcpPcb → TcpPcb}
    (hf : ∀ r, (f r).released = r.released ∧ (f r).arg = r.arg) :
    ∃ n', n.touch p f = some n' ∧ n'.ctx = n.ctx ∧ n'.Owned := by
  obtain ⟨r, hr, hlive, harg⟩ := h.held p hp
  obtain ⟨hlt, -⟩ := List.getElem?_eq_some_iff.mp hr
  refine ⟨⟨n.ctx, n.pcbs.set p (f r)⟩, touch_live hr hlive f, rfl, ?_, ?_, h.connected⟩
  · intro q hq
    cases hp.symm.trans hq
    exact ⟨f r, List.getElem?_set_self hlt, (hf r).1.trans hlive, (hf r).2.trans harg⟩
  · intro q r' hr' hne
    have hqp : p ≠ q := by
      rintro rfl
      exact hne hp
    rw [List.getElem?_set_ne hqp] at hr'
    exact h.given q r' hr' hne

theorem Owned.of_release (h : n.Owned) (hp : n.ctx.pcb = some p) {ctx : NetworkContext}
    (hpcb : ctx.pcb = none) (hstate : ctx.state = .idle ∨ ctx.state = .error)
    (hrel : ∃ how, r.released = [how]) :
    (⟨ctx, n.pcbs.set p r⟩ : Net).Owned where
  held := by
    intro q hq
    cases hpcb.symm.trans hq
  given := by
    intro q r' hr' _
    by_cases hqp : p = q
    · subst hqp
      rw [List.getElem?_set] at hr'
      split at hr'
      · split at hr'
        · cases hr'
          exact hrel
        · cases hr'
      · contradiction
    · rw [List.getElem?_set_ne hqp] at hr'
      refine h.given q r' hr' ?_
      rintro hq
      cases hp.symm.trans hq
      exact hqp rfl
  connected := by
    change ctx.state = .up ∨ ctx.state = .connecting → _
    rcases hstate with hstate | hstate <;> simp [hstate]

end Net

/-! ### The calls -/

section calls

variable {n : Net}

/-- `tcp_close`, or `tcp_abort` when it fails, releases a pcb whose callbacks are unset. -/
theorem exists_released (ctx : NetworkContext) {pcbs : List TcpPcb} {p : Nat} {r : TcpPcb}
    (hlt : p < pcbs.length) (hlive : r.released = []) (herrf : r.errf = false)
    (closeErr : Err) (k : Net → Option Net) :
    ∃ how, (((⟨ctx, pcbs.set p r⟩ : Net).tcpClose p closeErr).bind fun n =>
        if closeErr ≠ .ok then (tcpAbort p n).bind k else k n) =
      k ⟨ctx, pcbs.set p { r with released := [how] }⟩ := by
  by_cases hok : closeErr = .ok
  · refine ⟨.close, ?_⟩
    simp [Net.tcpClose, hok, Net.release, Net.touch_set hlt hlive, hlive]
  · refine ⟨.abort, ?_⟩
    simp [Net.tcpClose, hok, Net.release, Net.touch_set hlt hlive, hlive, tcpAbort, herrf, hlt]

theorem exists_close (h : n.Owned) (closeErr : Err) :
    ∃ n', mqttTransportClose closeErr n = some n' ∧ n'.Owned ∧ n'.ctx.pcb = none ∧
      n'.ctx.toRxRing = n.ctx.toRxRing := by
  have hstate : (if n.ctx.state ≠ .error then TransportState.idle else n.ctx.state) = .idle ∨
      (if n.ctx.state ≠ .error then TransportState.idle else n.ctx.state) = .error := by
    split
    · exact .inl rfl
    · rename_i herror
      exact .inr (not_not.mp herror)
  cases hpcb : n.ctx.pcb with
  | none =>
    have hclose : mqttTransportClose closeErr n = some (n.mapCtx fun c =>
        { c with state := if c.state ≠ .error then .idle else c.state }) := by
      simp only [mqttTransportClose, hpcb]
      rfl
    refine ⟨_, hclose, h.withCtx rfl ?_, hpcb, rfl⟩
    rcases hstate with hstate | hstate <;> simp [hstate]
  | some p =>
    obtain ⟨r, hr, hlive, -⟩ := h.held p hpcb
    obtain ⟨hlt, -⟩ := List.getElem?_eq_some_iff.mp hr
    obtain ⟨how, hrel⟩ := exists_released n.ctx hlt
      (r := { r with arg := false, recv := false, errf := false }) hlive rfl closeErr _
    refine ⟨⟨{ n.ctx with
        pcb := none
        state := if n.ctx.state ≠ .error then .idle else n.ctx.state },
      n.pcbs.set p { r with arg := false, recv := false, errf := false, released := [how] }⟩,
      ?_, h.of_release hpcb rfl hstate ⟨how, rfl⟩, rfl, rfl⟩
    simp (disch := exact hlive) only [mqttTransportClose, hpcb, Net.tcpArg, Net.tcpRecv,
      Net.tcpErr, Net.touch_live hr hlive, Net.touch_set hlt, Option.bind_eq_bind,
      Option.bind_some]
    exact hrel

/-- A stretch of a call from `n` that does not touch the ring: it ends, with the
    ownership kept. -/
def Lands (n : Net) (out : Option (Stage × Net)) : Prop :=
  ∃ stage n', out = some (stage, n') ∧ n'.Owned ∧ stage.Tells n'.ctx ∧
    n'.ctx.toRxRing = n.ctx.toRxRing ∧ stage.bytes = []

theorem Lands.of_ring {m : Net} {out : Option (Stage × Net)} (h : Lands m out)
    (hring : m.ctx.toRxRing = n.ctx.toRxRing) : Lands n out := by
  unfold Lands at h
  rwa [hring] at h

section opening

variable (env : OpenReads) (port : UInt16) (timeoutMs t0 : UInt32)

theorem lands_openFailed (h : n.Owned) (hpcb : n.ctx.pcb = none) (text : String) :
    Lands n (some (openFailed text n)) :=
  ⟨_, _, rfl, h.withCtx rfl (by simp), .inr ⟨rfl, hpcb, rfl⟩, rfl, rfl⟩

theorem lands_openDropped (h : n.Owned) (text : String) : Lands n (openDropped env text n) := by
  obtain ⟨n', hclose, hn', hpcb, hring⟩ :=
    exists_close (n := n.mapCtx fun c => { c with err := some text }) (h.withCtx rfl h.connected)
      env.failClose
  refine ⟨.outside (some (.opened (-1))), n'.mapCtx fun c => { c with state := .error }, ?_,
    hn'.withCtx rfl (by simp), .inr ⟨rfl, hpcb, rfl⟩, hring, rfl⟩
  rw [openDropped, hclose]
  rfl

theorem lands_openSettle (h : n.Owned) : Lands n (openSettle env timeoutMs t0 n) := by
  unfold openSettle
  split
  · exact ⟨_, _, rfl, h, trivial, rfl, rfl⟩
  · exact lands_openDropped env h _
  · split
    · exact lands_openDropped env h _
    · rename_i hup
      have hup := not_not.mp hup
      split
      · rename_i hnone
        exact absurd hnone (h.connected (.inl hup))
      · rename_i p hp
        obtain ⟨n', htouch, hctx, hn'⟩ :=
          h.exists_touch hp (f := fun r => { r with keepalive := true }) fun r => ⟨rfl, rfl⟩
        refine ⟨.outside (some (.opened 0)), n', by rw [htouch]; rfl, hn', ?_, by rw [hctx], rfl⟩
        rw [hctx]
        exact .inl ⟨rfl, hup⟩

theorem lands_openConnect (h : n.Owned) (hpcb : n.ctx.pcb = none) :
    Lands n (openConnect env port timeoutMs n) := by
  unfold openConnect
  split
  · simp (disch := rfl) only [Net.tcpArg, Net.tcpRecv, Net.tcpErr, Net.tcpNagleDisable,
      Net.tcpConnect, Net.touch_last, TcpPcb.new, Net.mapCtx, Option.bind_eq_bind, Option.bind_some]
    split
    · exact lands_openDropped env (h.append hpcb rfl rfl rfl) _
    · rename_i hok
      have hok := not_not.mp hok
      refine lands_openSettle env timeoutMs env.tcpStart (h.append hpcb rfl ?_ ?_)
      · rw [if_pos hok]
      · rw [if_pos hok]
  · have hnone : n.mapCtx (fun c => { c with pcb := none }) = n := by
      rw [Net.mapCtx, ← hpcb]
    rw [hnone]
    exact lands_openFailed h hpcb _

theorem lands_openResolved (h : n.Owned) (hpcb : n.ctx.pcb = none) :
    Lands n (openResolved env port timeoutMs n) := by
  unfold openResolved
  split
  · exact lands_openConnect env port timeoutMs h hpcb
  · exact lands_openFailed h hpcb _

theorem lands_openResolve (h : n.Owned) (hpcb : n.ctx.pcb = none) :
    Lands n (openResolve env port timeoutMs t0 n) := by
  unfold openResolve
  split
  · exact ⟨_, _, rfl, h, hpcb, rfl, rfl⟩
  · exact lands_openFailed h hpcb _
  · exact lands_openResolved env port timeoutMs h hpcb

theorem lands_open (h : n.Owned) :
    Lands (n.mapCtx openReset) (mqttTransportOpen env port timeoutMs n) := by
  obtain ⟨n', hclose, hn', hpcb, hring⟩ := exists_close h env.closeErr
  have hreset : (n'.mapCtx openReset).Owned := hn'.withCtx rfl (by simp [openReset])
  rw [mqttTransportOpen, hclose, Option.bind_eq_bind, Option.bind_some]
  refine Lands.of_ring (m := n'.mapCtx openReset) ?_ ?_
  · split
    · exact lands_openResolved env port timeoutMs (hreset.withCtx rfl hreset.connected) hpcb
    · exact lands_openResolve env port timeoutMs env.dnsStart hreset hpcb
    · exact lands_openFailed hreset hpcb _
  · simp only [Net.mapCtx, openReset, hring]

end opening

theorem lands_send (h : n.Owned) (env : SendReads) (buf : List UInt8) :
    Lands n (mqttTransportSend env buf n) := by
  unfold mqttTransportSend
  split
  · exact ⟨_, _, rfl, h, trivial, rfl, rfl⟩
  · rename_i hup
    split
    · rename_i hnone
      simp [mqttTransportIsUp, hnone] at hup
    · rename_i p hp
      obtain ⟨n₁, h₁, hctx₁, hn₁⟩ := h.exists_touch hp (f := id) fun r => ⟨rfl, rfl⟩
      have hp₁ : n₁.ctx.pcb = some p := by
        rw [hctx₁, hp]
      rw [h₁, Option.bind_eq_bind, Option.bind_some]
      split
      · exact ⟨_, _, rfl, hn₁, trivial, by rw [hctx₁], rfl⟩
      · obtain ⟨n₂, h₂, hctx₂, hn₂⟩ := hn₁.exists_touch hp₁ (f := fun r =>
            if env.write = .ok then
              { r with written := r.written ++ buf.take (sendLen env buf).toNat }
            else r)
          fun r => by split <;> exact ⟨rfl, rfl⟩
        have hp₂ : n₂.ctx.pcb = some p := by
          rw [hctx₂, hp₁]
        rw [Net.tcpWrite, h₂, Option.bind_some]
        split
        · exact ⟨_, _, rfl, hn₂, trivial, by rw [hctx₂, hctx₁], rfl⟩
        · obtain ⟨n₃, h₃, hctx₃, hn₃⟩ := hn₂.exists_touch hp₂ (f := id) fun r => ⟨rfl, rfl⟩
          rw [h₃, Option.bind_some]
          exact ⟨_, _, rfl, hn₃, trivial, by rw [hctx₃, hctx₂, hctx₁], rfl⟩

end calls

/-! ### Any action -/

namespace Transport

/-- What an action does to the ring and to what has gone through it. -/
inductive Flow (w w' : Transport) : Prop where
  | keep : w'.net.ctx.toRxRing = w.net.ctx.toRxRing → w'.accepted = w.accepted →
      w'.returned = w.returned → Flow w w'
  | reset : w'.net.ctx.rxHead = 0 → w'.net.ctx.rxTail = 0 → w'.accepted = [] →
      w'.returned = [] → Flow w w'
  | accept (q : Pbuf) : ¬ q.totLen.toUInt32 > w.net.ctx.ringFree →
      w'.net.ctx.toRxRing = q.payloads.foldl RxRing.copy w.net.ctx.toRxRing →
      w'.accepted = w.accepted ++ q.payloads.flatten → w'.returned = w.returned → Flow w w'
  | drain (len : Nat) : w'.net.ctx.toRxRing = (w.net.ctx.toRxRing.drain len).2 →
      w'.accepted = w.accepted →
      w'.returned = w.returned ++ (w.net.ctx.toRxRing.drain len).1 → Flow w w'

structure Inv (w : Transport) : Prop where
  owned : w.net.Owned
  tells : w.stage.Tells w.net.ctx

variable {w : Transport}

/-- lwIP calls back for the pcb of the context, with the context. -/
theorem Inv.of_registered (h : w.Inv) {p : Nat} {set : TcpPcb → Bool}
    (hreg : w.registered p set = true) :
    w.net.ctx.pcb = some p ∧ (w.net.pcbs[p]?).any (·.arg) = true := by
  obtain ⟨r, hr, hset⟩ := (Option.any_eq_true _ _).mp hreg
  obtain ⟨hlive, -⟩ := of_decide_eq_true hset
  have hpcb := h.owned.pcb_eq hr hlive
  obtain ⟨r', hr', -, harg⟩ := h.owned.held p hpcb
  exact ⟨hpcb, by rw [hr', Option.any_some, harg]⟩

/-- No call is in progress that counts on there being no pcb. -/
theorem Inv.interrupted (h : w.Inv) {p : Nat} (hpcb : w.net.ctx.pcb = some p)
    (c : NetworkContext) : w.stage.interrupted.Tells c := by
  have htells := h.tells
  cases hstage : w.stage with
  | outside => trivial
  | resolving port timeoutMs t0 =>
    rw [hstage] at htells
    cases hpcb.symm.trans htells
  | connecting => trivial
  | sending => trivial
  | receiving => trivial

end Transport

theorem Lands.exists_reached {w : Transport} {out : Option (Stage × Net)} (h : Lands w.net out) :
    ∃ w', out.map w.reached = some w' ∧ w'.Inv ∧ w.Flow w' := by
  obtain ⟨stage, n', rfl, howned, htells, hring, hbytes⟩ := h
  refine ⟨_, rfl, ⟨howned, htells⟩, .keep hring rfl ?_⟩
  change w.returned ++ stage.bytes = _
  rw [hbytes, List.append_nil]

namespace Transport

variable {w : Transport}

theorem exists_recvLoop (h : w.Inv) (len : UInt64) :
    (w.reached (recvLoop len w.net)).Inv ∧ w.Flow (w.reached (recvLoop len w.net)) :=
  ⟨⟨h.owned.withCtx rfl h.owned.connected, trivial⟩, .drain len.toNat rfl rfl rfl⟩

theorem Inv.exists_onDns (h : w.Inv) (ip : Option UInt32) :
    ∃ w', transport.exec w (.onDns ip) = some w' ∧ w'.Inv ∧ w.Flow w' := by
  have hkeeps : (onDns ip w.net.ctx).pcb = w.net.ctx.pcb ∧
      (onDns ip w.net.ctx).state = w.net.ctx.state ∧
      (onDns ip w.net.ctx).toRxRing = w.net.ctx.toRxRing := by
    cases ip with
    | none => exact ⟨rfl, rfl, rfl⟩
    | some ip => exact ⟨rfl, rfl, rfl⟩
  obtain ⟨hpcb, hstate, hring⟩ := hkeeps
  refine ⟨_, rfl, ⟨h.owned.withCtx hpcb ?_, ?_⟩, .keep hring rfl rfl⟩
  · rw [hstate]
    exact h.owned.connected
  · have htells := h.tells
    change w.stage.interrupted.Tells (onDns ip w.net.ctx)
    cases hstage : w.stage with
    | outside => trivial
    | resolving port timeoutMs t0 =>
      rw [hstage] at htells
      exact hpcb.trans htells
    | connecting => trivial
    | sending => trivial
    | receiving => trivial

theorem Inv.exists_onRecv (h : w.Inv) {p : Nat} (hpcb : w.net.ctx.pcb = some p)
    (harg : (w.net.pcbs[p]?).any (·.arg) = true) (pbuf : Option Pbuf) :
    ∃ w', transport.exec w (.onRecv p pbuf) = some w' ∧ w'.Inv ∧ w.Flow w' := by
  have hexec : ∀ {e : Err} {net : Net}, onRecv p pbuf w.net = some (e, net) →
      transport.exec w (.onRecv p pbuf) =
        some ⟨net, w.stage.interrupted, w.accepted ++ if e = .ok then payload pbuf else [],
          w.returned⟩ := by
    intro e net hrecv
    simp only [transport, exec, hrecv, callback, if_pos harg, Option.bind_eq_bind,
      Option.bind_some, Option.map_some]
  cases pbuf with
  | none =>
    exact ⟨_, hexec rfl, ⟨h.owned.withCtx rfl (by simp), h.interrupted hpcb _⟩,
      .keep rfl (List.append_nil _) rfl⟩
  | some q =>
    by_cases hfull : q.totLen.toUInt32 > w.net.ctx.ringFree
    · exact ⟨_, hexec (if_pos hfull), ⟨h.owned, h.interrupted hpcb _⟩,
        .keep rfl (List.append_nil _) rfl⟩
    · obtain ⟨n', htouch, hctx, hn'⟩ :=
        Net.Owned.exists_touch (p := p)
          (n := w.net.mapCtx fun c =>
            { c with toRxRing := q.payloads.foldl RxRing.copy c.toRxRing })
          (h.owned.withCtx rfl h.owned.connected) hpcb
          (f := fun r => { r with recved := r.recved + q.totLen.toNat }) fun r => ⟨rfl, rfl⟩
      have hrecv : onRecv p (some q) w.net = some (.ok, n') := by
        simp only [onRecv, if_neg hfull, Net.tcpRecved, htouch]
        rfl
      exact ⟨_, hexec hrecv, ⟨hn', h.interrupted hpcb _⟩,
        .accept q hfull (congrArg NetworkContext.toRxRing hctx) rfl rfl⟩

/-- lwIP has freed the pcb that the context still names. -/
theorem Inv.exists_onErr (h : w.Inv) {p : Nat} (hpcb : w.net.ctx.pcb = some p)
    (harg : (w.net.pcbs[p]?).any (·.arg) = true) (e : Err) :
    ∃ w', transport.exec w (.onErr p e) = some w' ∧ w'.Inv ∧ w.Flow w' := by
  obtain ⟨r, hr, hlive, -⟩ := h.owned.held p hpcb
  have hexec : transport.exec w (.onErr p e) = some { w with
      net := ⟨onErr e w.net.ctx, w.net.pcbs.set p { r with released := r.released ++ [.lwip] }⟩
      stage := w.stage.interrupted } := by
    change w.callback p ((w.net.touch p _).map _) = _
    rw [Net.touch_live hr hlive, callback, if_pos harg]
    rfl
  refine ⟨_, hexec, ⟨h.owned.of_release hpcb rfl (.inr rfl) ⟨.lwip, ?_⟩, h.interrupted hpcb _⟩,
    .keep rfl rfl rfl⟩
  rw [hlive]
  rfl

theorem Inv.exists_pumped (h : w.Inv) (hguard : ¬ w.stage.isOutside) (env : OpenReads) :
    ∃ w', transport.exec w (.pumped env) = some w' ∧ w'.Inv ∧ w.Flow w' := by
  change ∃ w', (w.afterPump env).map w.reached = some w' ∧ _
  have htells := h.tells
  unfold afterPump
  cases hstage : w.stage with
  | outside last => exact absurd (by rw [hstage]; rfl) hguard
  | resolving port timeoutMs t0 =>
    rw [hstage] at htells
    exact (lands_openResolve env port timeoutMs t0 h.owned htells).exists_reached
  | connecting timeoutMs t0 => exact (lands_openSettle env timeoutMs t0 h.owned).exists_reached
  | sending => exact ⟨_, rfl, ⟨h.owned, trivial⟩, .keep rfl rfl (List.append_nil _)⟩
  | receiving len =>
    refine ⟨_, rfl, ?_⟩
    unfold recvPumped
    split
    · exact ⟨⟨h.owned, trivial⟩, .keep rfl rfl (List.append_nil _)⟩
    · exact exists_recvLoop h len

/-- **Any action** the guards admit is defined, keeps the ownership and moves bytes
    only as `Flow` says. -/
theorem exists_exec (h : w.Inv) {a : Action} (hguard : transport.guard w a) :
    ∃ w', transport.exec w a = some w' ∧ w'.Inv ∧ w.Flow w' := by
  cases a with
  | onRecv p pbuf =>
    obtain ⟨hpcb, harg⟩ := h.of_registered hguard
    exact h.exists_onRecv hpcb harg pbuf
  | onErr p e =>
    obtain ⟨hpcb, harg⟩ := h.of_registered hguard
    exact h.exists_onErr hpcb harg e
  | onConnected p e =>
    obtain ⟨hpcb, harg⟩ := h.of_registered hguard
    refine ⟨_, if_pos harg, ⟨h.owned.withCtx rfl ?_, h.interrupted hpcb _⟩, .keep rfl rfl rfl⟩
    intro _
    simp [hpcb]
  | onDns ip =>
    exact h.exists_onDns ip
  | callOpen env port timeoutMs =>
    obtain ⟨stage, n', hout, howned, htells, hring, hbytes⟩ :=
      lands_open env port timeoutMs h.owned
    refine ⟨⟨n', stage, [], stage.bytes⟩, ?_, ⟨howned, htells⟩,
      .reset (congrArg RxRing.rxHead hring) (congrArg RxRing.rxTail hring) rfl hbytes⟩
    change (mqttTransportOpen env port timeoutMs w.net).map _ = _
    rw [hout]
    rfl
  | callClose closeErr =>
    obtain ⟨n', hclose, hn', hpcb, hring⟩ := exists_close h.owned closeErr
    refine ⟨w.reached (.outside (some .closed), n'), ?_, ⟨hn', hpcb⟩,
      .keep hring rfl (List.append_nil _)⟩
    change (mqttTransportClose closeErr w.net).map _ = _
    rw [hclose]
    rfl
  | callSend env buf => exact (lands_send h.owned env buf).exists_reached
  | callRecv len =>
    refine ⟨_, rfl, ?_⟩
    unfold mqttTransportRecv
    split
    · exact ⟨⟨h.owned, trivial⟩, .keep rfl rfl (List.append_nil _)⟩
    · exact exists_recvLoop h len
  | pumped env => exact h.exists_pumped hguard env

theorem inv_initial : initial.Inv where
  owned :=
    { held := by
        intro p hp
        cases hp
      given := by
        intro p r hr
        cases hr
      connected := by
        intro hstate
        rcases hstate with hstate | hstate <;> cases hstate }
  tells := trivial

/-- What one step does, read off the run. -/
theorem Inv.step (h : w.Inv) {a : Action} {w' : Transport} (hst : transport.Step w a w') :
    w'.Inv ∧ w.Flow w' := by
  obtain ⟨hguard, hexec⟩ := hst
  obtain ⟨w₁, hexec₁, hinv, hflow⟩ := exists_exec h hguard
  cases hexec.symm.trans hexec₁
  exact ⟨hinv, hflow⟩

theorem inv_of_reach (h : transport.Reach w) : w.Inv :=
  h.invariant inv_initial fun _ _ _ _ hinv hst => (hinv.step hst).1

end Transport

/-- **The connection state.**  In any order of calls and callbacks a transport that is
    up has a live pcb, `mqtt_transport_open` returns 0 only when it is up and -1 only
    with no pcb and in the error state, and a pcb is released exactly once: all but
    the one in the context are, and a close leaves none there.  No call and no
    callback uses a pcb that lwIP has freed. -/
theorem transport_connection_state {w : Transport} (h : transport.Reach w) :
    (w.net.ctx.state = .up →
      ∃ p r, w.net.ctx.pcb = some p ∧ w.net.pcbs[p]? = some r ∧ r.released = []) ∧
    (∀ ret, w.stage = .outside (some (.opened ret)) →
      ret = 0 ∧ w.net.ctx.state = .up ∨
        ret = -1 ∧ w.net.ctx.pcb = none ∧ w.net.ctx.state = .error) ∧
    (w.stage = .outside (some .closed) → w.net.ctx.pcb = none) ∧
    (∀ p r, w.net.pcbs[p]? = some r →
      w.net.ctx.pcb = some p ∧ r.released = [] ∨
        w.net.ctx.pcb ≠ some p ∧ ∃ how, r.released = [how]) ∧
    transport.Safe w := by
  have hinv := Transport.inv_of_reach h
  have htells := hinv.tells
  refine ⟨?_, ?_, ?_, ?_, ?_⟩
  · intro hup
    obtain ⟨p, hp⟩ := Option.ne_none_iff_exists'.mp (hinv.owned.connected (.inl hup))
    obtain ⟨r, hr, hlive, -⟩ := hinv.owned.held p hp
    exact ⟨p, r, hp, hr, hlive⟩
  · intro ret hstage
    rwa [hstage] at htells
  · intro hstage
    rwa [hstage] at htells
  · intro p r hr
    by_cases hp : w.net.ctx.pcb = some p
    · obtain ⟨r', hr', hlive, -⟩ := hinv.owned.held p hp
      cases hr.symm.trans hr'
      exact .inl ⟨hp, hlive⟩
    · exact .inr ⟨hp, hinv.owned.given p r hr hp⟩
  · intro a hguard
    obtain ⟨w', hexec, -⟩ := Transport.exists_exec hinv hguard
    exact ⟨w', hexec⟩

/-- lwIP asks a name server and everything it is asked then succeeds. -/
def asksServer : OpenReads := ⟨.ok, .inprogress, 0, 0, 0, true, .ok, 0, 0, .ok⟩

/-- A connection that comes up and is reset by the peer while the broker is sent to. -/
theorem transport_connection_state_reset :
    ∃ w, transport.Reach w ∧ w.stage = .sending ∧ w.net.pcbs.length = 1 ∧
      ∀ (p : Nat) (r : TcpPcb), w.net.pcbs[p]? = some r → ∃ how, r.released = [how] := by
  obtain ⟨w, hreach, hw⟩ := transport.exists_reach
    [.callOpen asksServer 1883 1000, .onDns (some 5), .pumped asksServer, .onConnected 0 .ok,
      .pumped asksServer, .callSend ⟨0, 0, .ok⟩ [16], .onErr 0 .rst]
    (fun w => w.stage = .sending ∧ w.net.pcbs.length = 1 ∧ w.net.ctx.pcb = none) (by decide)
  obtain ⟨hstage, hlength, hpcb⟩ := of_decide_eq_true hw
  obtain ⟨-, -, -, hreleased, -⟩ := transport_connection_state hreach
  refine ⟨w, hreach, hstage, hlength, fun p r hr => ?_⟩
  rcases hreleased p r hr with ⟨hp, -⟩ | ⟨-, hhow⟩
  · cases hpcb.symm.trans hp
  · exact hhow

end FlintRTOS.MqttTransport
