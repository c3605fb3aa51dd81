import FlintRTOS.Machine
import FlintRTOS.MqttCommand
import FlintRTOS.SignedArith

/-!
# Reconnecting

`flint_mqtt_service` called at any times and with any answers of the transport, of
coreMQTT and of the platform.  Time is a natural number of milliseconds, of which the
clock of the platform shows the last 32 bits.

The device keeps a record that no code reads: how many drops there have been since the
last connect, and when the next attempt is due.  `Serviced` is everything a call does,
and `Device.Inv` relates the variables of the code to the record.
-/

namespace FlintRTOS.MqttApp

/-! ### What a call does -/

/-- Commands and publications leave the connection alone. -/
structure SameConnection (g g' : FlintMqtt) : Prop where
  inited : g'.inited = g.inited
  connected : g'.connected = g.connected
  nextAttemptMs : g'.nextAttemptMs = g.nextAttemptMs
  backoffMs : g'.backoffMs = g.backoffMs

theorem SameConnection.refl (g : FlintMqtt) : SameConnection g g := ⟨rfl, rfl, rfl, rfl⟩

theorem SameConnection.trans {g₁ g₂ g₃ : FlintMqtt} (h : SameConnection g₁ g₂)
    (h' : SameConnection g₂ g₃) : SameConnection g₁ g₃ :=
  ⟨h'.inited.trans h.inited, h'.connected.trans h.connected,
    h'.nextAttemptMs.trans h.nextAttemptMs, h'.backoffMs.trans h.backoffMs⟩

/-- Neither an attempt nor its end. -/
def Effect.isQuiet : Effect → Bool
  | .led _ => true
  | .publish _ => true
  | _ => false

/-- A part of a call that leaves the connection alone. -/
def Quiet (g : FlintMqtt) (out : FlintMqtt × List Effect) : Prop :=
  SameConnection g out.1 ∧ ∀ e ∈ out.2, e.isQuiet = true

theorem Quiet.nothing (g : FlintMqtt) : Quiet g (g, []) :=
  ⟨.refl g, nofun⟩

theorem Quiet.andThen {g : FlintMqtt} {out out' : FlintMqtt × List Effect} (h : Quiet g out)
    (h' : Quiet out.1 out') : Quiet g (out'.1, out.2 ++ out'.2) := by
  refine ⟨h.1.trans h'.1, ?_⟩
  intro e he
  rcases List.mem_append.mp he with he | he
  · exact h.2 e he
  · exact h'.2 e he

theorem quiet_publish (topic : Topic) (sent : Bool) {g g' : FlintMqtt} (h : SameConnection g g') :
    Quiet g (publish topic sent g') := by
  unfold publish
  split
  · refine ⟨?_, ?_⟩
    · cases sent <;> exact h.trans ⟨rfl, rfl, rfl, rfl⟩
    · intro e he
      rw [List.mem_singleton.mp he]
      rfl
  · exact ⟨h, nofun⟩

theorem quiet_handleCommand (plat : Platform) (p : List UInt8) (g : FlintMqtt) :
    ∃ out, handleCommand plat p g = some out ∧ Quiet g out := by
  refine ⟨_, handleCommand_eq plat p g, ⟨rfl, rfl, rfl, rfl⟩, ?_⟩
  intro e he
  rw [runCommand_effects] at he
  rcases (ledCalls_iff (classify (cmdBytes p))).2.2.2 with hcalls | hcalls | hcalls | hcalls <;>
    rw [hcalls] at he
  · cases he
  all_goals
    rw [List.mem_singleton.mp he]
    rfl

theorem quiet_onEvent (g : FlintMqtt) (pkt : Packet) :
    ∃ out, onEvent g pkt = some out ∧ Quiet g out := by
  unfold onEvent
  split
  · rename_i topic payload _
    split
    · have hbegins : Begins (fun i => topic[i]?) topic := fun _ _ => rfl
      simp only [wordEq_eq hbegins, Option.bind_eq_bind, Option.bind_some]
      split
      · exact quiet_handleCommand pkt.plat payload g
      · exact ⟨_, rfl, .nothing g⟩
    · exact ⟨_, rfl, .nothing g⟩
  · exact ⟨_, rfl, .nothing g⟩

theorem quiet_onEvents (pkts : List Packet) :
    ∀ g : FlintMqtt, ∃ out, onEvents g pkts = some out ∧ Quiet g out := by
  induction pkts with
  | nil => exact fun g => ⟨_, rfl, .nothing g⟩
  | cons pkt pkts ih =>
    intro g
    obtain ⟨out, hfirst, hquiet⟩ := quiet_onEvent g pkt
    obtain ⟨out', hrest, hquiet'⟩ := ih out.1
    refine ⟨_, ?_, hquiet.andThen hquiet'⟩
    simp only [onEvents, hfirst, hrest, Option.bind_eq_bind, Option.bind_some]
    rfl

section service

variable {env : ServiceReads UInt32}

theorem quiet_publishReply (g : FlintMqtt) : Quiet g (publishReply env g) := by
  unfold publishReply
  split
  · refine quiet_publish .reply (env.sent .reply) ?_
    exact ⟨rfl, rfl, rfl, rfl⟩
  · exact .nothing g

theorem quiet_publishPtp (g : FlintMqtt) : Quiet g (publishPtp env g) := by
  have hsame : ∀ g' : FlintMqtt, SameConnection g g' →
      Quiet g (if env.ptpJson > 0 then publish .ptp (env.sent .ptp) g' else (g', [])) := by
    intro g' hg'
    split
    · exact quiet_publish _ _ hg'
    · exact ⟨hg', nofun⟩
  unfold publishPtp
  split
  · refine hsame _ ?_
    split <;> exact ⟨rfl, rfl, rfl, rfl⟩
  · exact .nothing g

theorem quiet_publishStats (g : FlintMqtt) : Quiet g (publishStats env g) := by
  unfold publishStats
  split
  · simp only
    split
    · refine quiet_publish .stats (env.sent .stats) ?_
      exact ⟨rfl, rfl, rfl, rfl⟩
    · exact ⟨⟨rfl, rfl, rfl, rfl⟩, nofun⟩
  · exact .nothing g

/-- The time of the attempt has come, by the code's comparison. -/
def Reached (env : ServiceReads UInt32) (g : FlintMqtt) : Prop :=
  (env.start - g.nextAttemptMs).toInt32 ≥ 0

/-- Everything a call does to the connection. -/
inductive Serviced (env : ServiceReads UInt32) (g : FlintMqtt) : FlintMqtt × List Effect → Prop where
  | uninitialised (hinited : g.inited = false) : Serviced env g (g, [])
  | waiting (hinited : g.inited = true) (hoff : g.connected = false) (hearly : ¬ Reached env g) :
      Serviced env g (g, [])
  | failed {g₁ : FlintMqtt} (hinited : g.inited = true) (hoff : g.connected = false)
      (hreached : Reached env g) (hsame : SameConnection g g₁) :
      Serviced env g (drop env.drop g₁, [.tryConnect, .drop])
  | connected {g' : FlintMqtt} {effects : List Effect} (hinited : g.inited = true)
      (hoff : g.connected = false) (hreached : Reached env g) (hinited' : g'.inited = true)
      (hon : g'.connected = true) (hbackoff : g'.backoffMs = backoffMinMs)
      (hquiet : ∀ e ∈ effects, e.isQuiet = true) :
      Serviced env g (g', [.tryConnect, .connected] ++ effects)
  | lost {g₁ : FlintMqtt} {effects : List Effect} (hinited : g.inited = true)
      (hon : g.connected = true) (hsame : SameConnection g g₁)
      (hquiet : ∀ e ∈ effects, e.isQuiet = true) :
      Serviced env g (drop env.drop g₁, effects ++ [.drop])
  | kept {out : FlintMqtt × List Effect} (hinited : g.inited = true) (hon : g.connected = true)
      (hquiet : Quiet g out) : Serviced env g out

theorem serviced_tryConnect {g : FlintMqtt} (hinited : g.inited = true) (hoff : g.connected = false)
    (hreached : Reached env g) : Serviced env g (tryConnect env g) := by
  unfold tryConnect
  split
  · exact .failed hinited hoff hreached ⟨rfl, rfl, rfl, rfl⟩
  split
  · exact .failed hinited hoff hreached (.refl g)
  split
  · exact .failed hinited hoff hreached ⟨rfl, rfl, rfl, rfl⟩
  · obtain ⟨hsame, hquiet⟩ := quiet_publish .status (env.sent .status) (.refl { g with
        connected := true, backoffMs := backoffMinMs, st.connects := g.st.connects + 1 })
    exact .connected hinited hoff hreached (hsame.inited.trans hinited) hsame.connected
      hsame.backoffMs hquiet

variable {effects : List Effect} {out : FlintMqtt × List Effect}

theorem serviced_processed {g g₁ : FlintMqtt} (hinited : g.inited = true) (hon : g.connected = true)
    (h : Quiet g (g₁, effects)) :
    Serviced env g ((processed env g₁).1, effects ++ (processed env g₁).2) := by
  unfold processed
  split
  · exact .lost hinited hon h.1 h.2
  split
  · exact .lost hinited hon h.1 h.2
  · refine .kept hinited hon (h.andThen ?_)
    exact ((quiet_publishReply g₁).andThen (quiet_publishPtp _)).andThen (quiet_publishStats _)

theorem serviced_flintMqttService (env : ServiceReads UInt32) (g : FlintMqtt) :
    ∃ out, flintMqttService env g = some out ∧ Serviced env g out := by
  unfold flintMqttService
  split
  · rename_i hinited
    exact ⟨_, rfl, .uninitialised (Bool.not_eq_true _ |>.mp hinited)⟩
  rename_i hinited
  have hinited : g.inited = true := not_not.mp hinited
  split
  · rename_i hoff
    have hoff : g.connected = false := Bool.not_eq_true _ |>.mp hoff
    split
    · rename_i hreached
      exact ⟨_, rfl, serviced_tryConnect hinited hoff hreached⟩
    · rename_i hearly
      exact ⟨_, rfl, .waiting hinited hoff hearly⟩
  · rename_i hon
    obtain ⟨⟨g₁, effects⟩, hevents, hquiet⟩ := quiet_onEvents env.packets g
    refine ⟨_, ?_, serviced_processed hinited (not_not.mp hon) hquiet⟩
    simp only [hevents, Option.bind_eq_bind, Option.bind_some]
    rfl

theorem notMem_of_quiet (h : ∀ e ∈ effects, e.isQuiet = true) {e : Effect}
    (he : e.isQuiet = false) : e ∉ effects := by
  intro hmem
  rw [h e hmem] at he
  cases he

theorem Serviced.off_of_drop {g : FlintMqtt} (h : Serviced env g out) (hdrop : .drop ∈ out.2) :
    out.1.inited = true ∧ out.1.connected = false := by
  cases h with
  | uninitialised => cases hdrop
  | waiting => cases hdrop
  | failed hinited _ _ hsame => exact ⟨hsame.inited.trans hinited, rfl⟩
  | connected _ _ _ _ _ _ hquiet =>
    rcases List.mem_append.mp hdrop with hdrop | hdrop
    · exact absurd hdrop (by decide)
    · exact absurd hdrop (notMem_of_quiet hquiet rfl)
  | lost hinited _ hsame => exact ⟨hsame.inited.trans hinited, rfl⟩
  | kept _ _ hquiet => exact absurd hdrop (notMem_of_quiet hquiet.2 rfl)

/-- An attempt is made by a call that finds no connection and the time reached. -/
theorem Serviced.tryConnect_iff {g : FlintMqtt} (h : Serviced env g out) :
    .tryConnect ∈ out.2 ↔ g.inited = true ∧ g.connected = false ∧ Reached env g := by
  cases h with
  | uninitialised hinited =>
    exact ⟨nofun, fun hyes => absurd (hyes.1.symm.trans hinited) (by decide)⟩
  | waiting _ _ hearly => exact ⟨nofun, fun hyes => absurd hyes.2.2 hearly⟩
  | failed hinited hoff hreached => exact ⟨fun _ => ⟨hinited, hoff, hreached⟩, fun _ => by simp⟩
  | connected hinited hoff hreached =>
    exact ⟨fun _ => ⟨hinited, hoff, hreached⟩, fun _ => by simp⟩
  | lost _ hon _ hquiet =>
    refine ⟨fun hmem => ?_, fun hyes => absurd (hyes.2.1.symm.trans hon) (by decide)⟩
    rcases List.mem_append.mp hmem with hmem | hmem
    · exact absurd hmem (notMem_of_quiet hquiet rfl)
    · exact absurd hmem (by decide)
  | kept _ hon hquiet =>
    exact ⟨fun hmem => absurd hmem (notMem_of_quiet hquiet.2 rfl),
      fun hyes => absurd (hyes.2.1.symm.trans hon) (by decide)⟩

end service

/-! ### The device over time -/

def ServiceReads.map {T U : Type} (f : T → U) (r : ServiceReads T) : ServiceReads U where
  start := f r.start
  drop := f r.drop
  lastPtp := f r.lastPtp
  lastStats := f r.lastStats
  again := f r.again
  opened := r.opened
  mqttInit := r.mqttInit
  connect := r.connect
  process := r.process
  packets := r.packets
  isUp := r.isUp
  ptpJson := r.ptpJson
  statsJson := r.statsJson
  sent := r.sent

/-- The statics before the first call. -/
def FlintMqtt.zero : FlintMqtt where
  id := []
  inited := false
  connected := false
  nextAttemptMs := 0
  backoffMs := 0
  lastPtpMs := 0
  lastStatsMs := 0
  bootMs := 0
  tCmd := []
  replyPending := false
  reply := fun _ => 0
  st := ⟨0, 0, 0, 0⟩

/-- How long after the `k`-th drop in a row the next attempt is due. -/
def backoff (k : Nat) : Nat := min (2000 * 2 ^ (k - 1)) 60000

/-- The application, when its last call began and when it last read the clock, the drops
    since the last connect, and when the next attempt is due. -/
structure Device where
  g : FlintMqtt
  call : Nat
  last : Nat
  drops : Nat
  due : Nat

inductive Call where
  | init (clientId : List UInt8) (boot now : Nat)
  | service (env : ServiceReads Nat)

namespace Device

/-- The record after a call that had these effects and read the time of a drop as given. -/
def after (d : Device) (env : ServiceReads Nat) (out : FlintMqtt × List Effect) : Device where
  g := out.1
  call := env.start
  last := if .drop ∈ out.2 then env.drop else env.start
  drops := if .drop ∈ out.2 then d.drops + 1 else if .connected ∈ out.2 then 0 else d.drops
  due := if .drop ∈ out.2 then env.drop + backoff (d.drops + 1) else d.due

def exec (d : Device) : Call → Option Device
  | .init clientId boot now =>
    some ⟨flintMqttInit clientId (UInt32.ofNat boot) (UInt32.ofNat now) d.g, boot, now, 0, now⟩
  | .service env => (flintMqttService (env.map UInt32.ofNat) d.g).map (d.after env)

/-- Time does not go back, calls begin less than `2 ^ 31` ms apart, and the application is
    initialised once. -/
def guard (d : Device) : Call → Prop
  | .init _ boot now => d.g.inited = false ∧ d.last ≤ boot ∧ boot ≤ now
  | .service env => d.last ≤ env.start ∧ env.start ≤ env.drop ∧ env.start < d.call + 2 ^ 31

instance (d : Device) (c : Call) : Decidable (d.guard c) :=
  match c with
  | .init .. => inferInstanceAs (Decidable (_ ∧ _))
  | .service _ => inferInstanceAs (Decidable (_ ∧ _))

end Device

def device : Machine Device Call where
  init := ⟨FlintMqtt.zero, 0, 0, 0, 0⟩
  guard := Device.guard
  exec := Device.exec

instance (d : Device) (c : Call) : Decidable (device.guard d c) :=
  inferInstanceAs (Decidable (d.guard c))

/-! ### The variables of the code and the record -/

namespace Device

/-- While there is no connection `next_attempt_ms` is the due time, not before the last
    call and not more than a minute ahead; `backoff_ms` is what the next drop will add. -/
structure Inv (d : Device) : Prop where
  due : d.g.inited = true → d.g.connected = false →
    d.g.nextAttemptMs = UInt32.ofNat d.due ∧ d.call ≤ d.due ∧ d.due ≤ d.last + 60000
  backoff : d.g.inited = true → d.g.backoffMs.toNat = MqttApp.backoff (d.drops + 1)

variable {d : Device}

theorem Inv.reached_iff {env : ServiceReads Nat} (h : d.Inv) (hinited : d.g.inited = true)
    (hoff : d.g.connected = false) (hguard : d.guard (.service env)) :
    Reached (env.map UInt32.ofNat) d.g ↔ d.due ≤ env.start := by
  obtain ⟨hnext, hcall, hdue⟩ := h.due hinited hoff
  obtain ⟨hlast, _, hgap⟩ := hguard
  unfold Reached
  rw [hnext]
  exact Overflow.sub_toInt32_nonneg_iff (by omega) (by omega)

theorem backoff_succ (k : Nat) : MqttApp.backoff (k + 2) = min (2 * MqttApp.backoff (k + 1)) 60000 := by
  have hpow : 2 ^ (k + 1) = 2 * 2 ^ k := by rw [Nat.pow_succ, Nat.mul_comm]
  change min (2000 * 2 ^ (k + 1)) 60000 = min (2 * min (2000 * 2 ^ k) 60000) 60000
  omega

theorem drop_spec {g : FlintMqtt} {k : Nat} (h : g.backoffMs.toNat = MqttApp.backoff (k + 1))
    (now : Nat) :
    (MqttApp.drop (UInt32.ofNat now) g).nextAttemptMs =
        UInt32.ofNat (now + MqttApp.backoff (k + 1)) ∧
      (MqttApp.drop (UInt32.ofNat now) g).backoffMs.toNat = MqttApp.backoff (k + 2) := by
  have hle : MqttApp.backoff (k + 1) ≤ 60000 := Nat.min_le_right _ _
  have hdouble : (g.backoffMs * 2).toNat = 2 * MqttApp.backoff (k + 1) := by
    rw [UInt32.toNat_mul, h]
    change MqttApp.backoff (k + 1) * 2 % 2 ^ 32 = _
    omega
  constructor
  · change UInt32.ofNat now + g.backoffMs = _
    rw [UInt32.ofNat_add, ← h, UInt32.ofNat_toNat]
  · rw [backoff_succ]
    change (if g.backoffMs * 2 > backoffMaxMs then backoffMaxMs else g.backoffMs * 2).toNat = _
    have hmax : backoffMaxMs.toNat = 60000 := rfl
    split
    · rename_i hlarge
      rw [gt_iff_lt, UInt32.lt_iff_toNat_lt, hdouble, hmax] at hlarge
      omega
    · rename_i hsmall
      rw [gt_iff_lt, UInt32.lt_iff_toNat_lt, hdouble, hmax] at hsmall
      omega

theorem Inv.drop {env : ServiceReads Nat} {g₁ : FlintMqtt} {effects : List Effect} (h : d.Inv)
    (hinited : d.g.inited = true) (hsame : SameConnection d.g g₁) (hdrop : .drop ∈ effects)
    (hguard : d.guard (.service env)) :
    (d.after env (MqttApp.drop (UInt32.ofNat env.drop) g₁, effects)).Inv := by
  have hbackoff := h.backoff hinited
  rw [← hsame.backoffMs] at hbackoff
  obtain ⟨hnext, hdouble⟩ := drop_spec hbackoff env.drop
  have hle : MqttApp.backoff (d.drops + 1) ≤ 60000 := Nat.min_le_right _ _
  obtain ⟨_, horder, _⟩ := hguard
  constructor
  · intro _ _
    simp only [after, if_pos hdrop]
    exact ⟨hnext, by omega, by omega⟩
  · intro _
    simp only [after, if_pos hdrop]
    exact hdouble

theorem Inv.serviced {env : ServiceReads Nat} {out : FlintMqtt × List Effect} (h : d.Inv)
    (hguard : d.guard (.service env)) (hout : Serviced (env.map UInt32.ofNat) d.g out) :
    (d.after env out).Inv := by
  cases hout with
  | uninitialised hinited =>
    exact ⟨fun hyes => absurd (hyes.symm.trans hinited) (by decide),
      fun hyes => absurd (hyes.symm.trans hinited) (by decide)⟩
  | waiting hinited hoff hearly =>
    rw [h.reached_iff hinited hoff hguard] at hearly
    obtain ⟨hnext, _, hdue⟩ := h.due hinited hoff
    have hlast : d.last ≤ env.start := hguard.1
    refine ⟨fun _ _ => ⟨hnext, ?_, ?_⟩, fun _ => h.backoff hinited⟩
    · change env.start ≤ d.due
      omega
    · change d.due ≤ env.start + 60000
      omega
  | failed hinited _ _ hsame => exact h.drop hinited hsame (by decide) hguard
  | @connected g' effects _ _ _ _ hon hbackoff hquiet =>
    have hno : Effect.drop ∉ [Effect.tryConnect, Effect.connected] ++ effects := by
      rw [List.mem_append, not_or]
      exact ⟨by decide, notMem_of_quiet hquiet rfl⟩
    refine ⟨fun _ hoff => absurd (hoff.symm.trans hon) (by decide), fun _ => ?_⟩
    have hdrops : (d.after env (g', [.tryConnect, .connected] ++ effects)).drops = 0 := by
      simp only [after, if_neg hno]
      exact if_pos (List.mem_append_left _ (by decide))
    rw [hdrops]
    change g'.backoffMs.toNat = 2000
    rw [hbackoff]
    rfl
  | lost hinited _ hsame => exact h.drop hinited hsame (by simp) hguard
  | @kept out hinited hon hquiet =>
    have hstay : out.1.connected = true := hquiet.1.connected.trans hon
    refine ⟨fun _ hoff => absurd (hoff.symm.trans hstay) (by decide), fun _ => ?_⟩
    have hdrop : .drop ∉ out.2 := notMem_of_quiet hquiet.2 rfl
    have hconnected : .connected ∉ out.2 := notMem_of_quiet hquiet.2 rfl
    simp only [after, if_neg hdrop, if_neg hconnected]
    rw [hquiet.1.backoffMs]
    exact h.backoff hinited

theorem inv_of_reach (h : device.Reach d) : d.Inv := by
  refine h.invariant ⟨nofun, nofun⟩ ?_
  rintro d c d' _ hinv ⟨hguard, hexec⟩
  cases c with
  | init clientId boot now =>
    cases hexec
    obtain ⟨_, _, horder⟩ := hguard
    exact ⟨fun _ _ => ⟨rfl, horder, Nat.le_add_right _ _⟩, fun _ => rfl⟩
  | service env =>
    obtain ⟨out, hout, hserviced⟩ := serviced_flintMqttService (env.map UInt32.ofNat) d.g
    change (flintMqttService (env.map UInt32.ofNat) d.g).map (d.after env) = some d' at hexec
    rw [hout] at hexec
    cases hexec
    exact hinv.serviced hguard hserviced

end Device

/-- **Reconnecting backs off.**  In every run, a call of `flint_mqtt_service` returns.  If
    it drops the connection or an attempt, the `k`-th time in a row without a successful
    connect, the next attempt is scheduled `min (2000 * 2 ^ (k - 1)) 60000` ms after the
    time then read; and it makes an attempt if and only if there is no connection and the
    scheduled time has been reached. -/
theorem reconnect_backoff {d : Device} (h : device.Reach d) (env : ServiceReads Nat)
    (hguard : device.guard d (.service env)) :
    ∃ d' effects, flintMqttService (env.map UInt32.ofNat) d.g = some (d'.g, effects) ∧
      device.Step d (.service env) d' ∧
      (.drop ∈ effects →
        d'.drops = d.drops + 1 ∧ d'.due = env.drop + min (2000 * 2 ^ (d'.drops - 1)) 60000 ∧
          d'.g.nextAttemptMs = UInt32.ofNat d'.due) ∧
      (.tryConnect ∈ effects ↔
        d.g.inited = true ∧ d.g.connected = false ∧ d.due ≤ env.start) := by
  have hinv := Device.inv_of_reach h
  obtain ⟨out, hout, hserviced⟩ := serviced_flintMqttService (env.map UInt32.ofNat) d.g
  have hexec : device.exec d (.service env) = some (d.after env out) := by
    change (flintMqttService (env.map UInt32.ofNat) d.g).map (d.after env) = _
    rw [hout]
    rfl
  refine ⟨d.after env out, out.2, hout, ⟨hguard, hexec⟩, ?_, ?_⟩
  · intro hdrop
    have hdrops : (d.after env out).drops = d.drops + 1 := if_pos hdrop
    have hdue : (d.after env out).due = env.drop + backoff (d.drops + 1) := if_pos hdrop
    refine ⟨hdrops, by rw [hdrops, hdue]; rfl, ?_⟩
    obtain ⟨hinited, hoff⟩ := hserviced.off_of_drop hdrop
    exact ((hinv.serviced hguard hserviced).due hinited hoff).1
  · rw [hserviced.tryConnect_iff]
    refine and_congr_right fun hinited => and_congr_right fun hoff => ?_
    exact hinv.reached_iff hinited hoff hguard

/-- A call at `t` whose open fails. -/
def refused (t : Nat) : ServiceReads Nat :=
  ⟨t, t, t, t, t, -1, .success, .success, .success, [], false, 0, 0, fun _ => false⟩

/-- The clock wraps between the first drop and the attempt it schedules, whose drop is the
    second in a row. -/
theorem reconnect_backoff_wrapped :
    ∃ d, device.Reach d ∧ d.drops = 1 ∧ d.due = 2 ^ 32 + 1000 ∧
      ∃ g' effects,
        flintMqttService ((refused (2 ^ 32 + 1000)).map UInt32.ofNat) d.g = some (g', effects) ∧
          .tryConnect ∈ effects ∧ .drop ∈ effects ∧ g'.nextAttemptMs = 5000 := by
  obtain ⟨d, hreach, hd⟩ := device.exists_reach
    [.init [] (2 ^ 31) (2 ^ 31), .service (refused (2 ^ 32 - 1000))]
    (fun d => decide (d.drops = 1 ∧ d.due = 2 ^ 32 + 1000 ∧ d.g.inited = true ∧
      d.g.connected = false ∧ device.guard d (.service (refused (2 ^ 32 + 1000))) ∧
      (flintMqttService ((refused (2 ^ 32 + 1000)).map UInt32.ofNat) d.g).any
        (fun out => decide (Effect.drop ∈ out.2)) = true)) (by decide +kernel)
  obtain ⟨hdrops, hdue, hinited, hoff, hguard, hany⟩ := of_decide_eq_true hd
  obtain ⟨d', effects, hservice, _, hdrop, htry⟩ := reconnect_backoff hreach _ hguard
  rw [hservice] at hany
  have hmem : Effect.drop ∈ effects := of_decide_eq_true hany
  obtain ⟨hdrops', hdue', hnext⟩ := hdrop hmem
  refine ⟨d, hreach, hdrops, hdue, d'.g, effects, hservice, ?_, hmem, ?_⟩
  · exact htry.mpr ⟨hinited, hoff, hdue.le⟩
  · rw [hnext, hdue', hdrops', hdrops]
    decide

end FlintRTOS.MqttApp
