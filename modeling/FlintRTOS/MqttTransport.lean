import FlintRTOS.Machine
import Mathlib.Logic.Function.Basic

/-!
# The MQTT transport

`transport_raw.c`: one TCP connection of lwIP behind calls that seem to block.
lwIP calls back, and only while a task pumps it: between two calls of the
transport, and inside a call wherever that call pumps.  A call is therefore cut at
its pumps into stretches; each stretch runs in one go and ends at a pump or
returns, and any callbacks may come in between.

lwIP is kept as the pcbs it has handed out, with the callbacks registered on each
and how each was released.  What its functions answer is read from outside, and a
function that is given a pcb lwIP has freed has no result.
-/

namespace FlintRTOS.MqttTransport

/-- `err_t`. -/
inductive Err where
  | ok
  | mem
  | buf
  | timeout
  | rte
  | inprogress
  | val
  | wouldblock
  | use
  | already
  | isconn
  | conn
  | iface
  | abrt
  | rst
  | clsd
  | arg
deriving DecidableEq, Repr

inductive TransportState where
  | idle
  | resolving
  | connecting
  | up
  | closed
  | error
deriving DecidableEq, Repr

/-! ### The receive ring -/

def rxRingSize : UInt32 := 4096

/-- The indices run freely: `rxHead` is where the callback writes, `rxTail` where
    MQTT reads. -/
structure RxRing where
  rx : Nat → UInt8
  rxHead : UInt32
  rxTail : UInt32

namespace RxRing

def ringUsed (c : RxRing) : UInt32 := c.rxHead - c.rxTail

def ringFree (c : RxRing) : UInt32 := rxRingSize - c.ringUsed

def put (c : RxRing) (b : UInt8) : RxRing :=
  { c with
    rx := Function.update c.rx (c.rxHead % rxRingSize).toNat b
    rxHead := c.rxHead + 1 }

/-- The inner loop of `on_recv`, over one pbuf. -/
def copy (c : RxRing) (payload : List UInt8) : RxRing := payload.foldl put c

/-- The loop of `mqtt_transport_recv`, with room for `len` more bytes. -/
def drain : Nat → RxRing → List UInt8 × RxRing
  | 0, c => ([], c)
  | len + 1, c =>
      if c.ringUsed > 0 then
        let (bytes, c') := drain len { c with rxTail := c.rxTail + 1 }
        (c.rx (c.rxTail % rxRingSize).toNat :: bytes, c')
      else ([], c)

end RxRing

/-- A chain of pbufs; `tot_len` is the length of all payloads together. -/
structure Pbuf where
  payloads : List (List UInt8)
  totLen : UInt16
  totLen_eq : totLen.toNat = payloads.flatten.length

/-! ### lwIP -/

inductive Release where
  | close
  | abort
  | lwip
deriving DecidableEq, Repr

/-- A `tcp_pcb`: whether the callbacks and their argument are set, what was asked of
    it, and how it was released. -/
structure TcpPcb where
  arg : Bool
  recv : Bool
  errf : Bool
  connected : Bool
  nagleDisabled : Bool
  keepalive : Bool
  remote : Option (UInt32 × UInt16)
  recved : Nat
  written : List UInt8
  released : List Release
deriving DecidableEq, Repr

def TcpPcb.new : TcpPcb := ⟨false, false, false, false, false, false, none, 0, [], []⟩

/-- `struct NetworkContext`; a pcb is named by its number among those handed out. -/
structure NetworkContext extends RxRing where
  pcb : Option Nat
  state : TransportState
  dnsDone : Bool
  dnsOk : Bool
  addr : UInt32
  err : Option String

/-- The context with lwIP's side of the connection: every pcb handed out so far. -/
structure Net where
  ctx : NetworkContext
  pcbs : List TcpPcb

namespace Net

variable (p : Nat) (n : Net)

/-- Use the pcb `p`, unless lwIP has freed it. -/
def touch (f : TcpPcb → TcpPcb) : Option Net :=
  match n.pcbs[p]? with
  | some r => if r.released = [] then some { n with pcbs := n.pcbs.set p (f r) } else none
  | none => none

def mapCtx (f : NetworkContext → NetworkContext) : Net := { n with ctx := f n.ctx }

def tcpArg (set : Bool) : Option Net := n.touch p fun r => { r with arg := set }

def tcpRecv (set : Bool) : Option Net := n.touch p fun r => { r with recv := set }

def tcpErr (set : Bool) : Option Net := n.touch p fun r => { r with errf := set }

def tcpNagleDisable : Option Net := n.touch p fun r => { r with nagleDisabled := true }

def tcpConnect (e : Err) (addr : UInt32) (port : UInt16) : Option Net :=
  n.touch p fun r => if e = .ok then { r with connected := true, remote := some (addr, port) } else r

def tcpRecved (len : UInt16) : Option Net :=
  n.touch p fun r => { r with recved := r.recved + len.toNat }

def tcpWrite (e : Err) (bytes : List UInt8) : Option Net :=
  n.touch p fun r => if e = .ok then { r with written := r.written ++ bytes } else r

def release (how : Release) : Option Net :=
  n.touch p fun r => { r with released := r.released ++ [how] }

/-- A close that fails keeps the pcb. -/
def tcpClose (e : Err) : Option Net := if e = .ok then n.release p .close else n.touch p id

end Net

/-! ### Callbacks -/

/-- The answer `ERR_MEM` leaves the pbuf with lwIP. -/
def onRecv (p : Nat) (pbuf : Option Pbuf) (n : Net) : Option (Err × Net) :=
  match pbuf with
  | none =>
      some (.ok, n.mapCtx fun c => { c with state := .closed, err := some "closed by broker" })
  | some q =>
      if q.totLen.toUInt32 > n.ctx.ringFree then some (.mem, n)
      else do
        let n := n.mapCtx fun c => { c with toRxRing := q.payloads.foldl RxRing.copy c.toRxRing }
        let n ← n.tcpRecved p q.totLen
        some (.ok, n)

def onErr (e : Err) (c : NetworkContext) : NetworkContext :=
  { c with
    pcb := none
    state := .error
    err := some (if e = .rst then "reset by peer" else
      if e = .abrt then "aborted" else "TCP error / timeout") }

def onConnected (e : Err) (c : NetworkContext) : NetworkContext :=
  { c with state := if e = .ok then .up else .error }

def onDns (ip : Option UInt32) (c : NetworkContext) : NetworkContext :=
  match ip with
  | some ip => { c with addr := ip, dnsOk := true, dnsDone := true }
  | none => { c with dnsDone := true }

/-- `tcp_abort` frees the pcb and reports it to the error callback. -/
def tcpAbort (p : Nat) (n : Net) : Option Net := do
  let errf := (n.pcbs[p]?).any (·.errf)
  let n ← n.release p .abort
  some (if errf then n.mapCtx (onErr .abrt) else n)

/-! ### The calls -/

inductive Return where
  | opened (r : Int32)
  | closed
  | sent (r : Int32)
  | received (r : Int32) (bytes : List UInt8)
deriving DecidableEq, Repr

/-- Where the transport is: outside its calls, with what the last one has just
    returned, or at a pump inside one. -/
inductive Stage where
  | outside (last : Option Return)
  | resolving (port : UInt16) (timeoutMs t0 : UInt32)
  | connecting (timeoutMs t0 : UInt32)
  | sending
  | receiving (len : UInt64)
deriving DecidableEq, Repr

/-- What lwIP and the platform answer to one stretch of `mqtt_transport_open`. -/
structure OpenReads where
  closeErr : Err
  dns : Err
  addr : UInt32
  dnsStart : UInt32
  dnsNow : UInt32
  newPcb : Bool
  connect : Err
  tcpStart : UInt32
  tcpNow : UInt32
  failClose : Err
deriving DecidableEq, Repr

/-- One turn of `wait_for`: its answer, or `none` to pump once more. -/
def waitFor (cond : NetworkContext → Bool) (timeoutMs t0 now : UInt32) (c : NetworkContext) :
    Option Bool :=
  if cond c then some true
  else if now - t0 ≥ timeoutMs then some false
  else none

def dnsFinished (c : NetworkContext) : Bool := c.dnsDone

def tcpSettled (c : NetworkContext) : Bool := c.state ≠ .connecting

/-- `closeErr` is the answer of `tcp_close`. -/
def mqttTransportClose (closeErr : Err) (n : Net) : Option Net := do
  let n ← match n.ctx.pcb with
    | none => some n
    | some p => do
        let n ← n.tcpArg p false
        let n ← n.tcpRecv p false
        let n ← n.tcpErr p false
        let n ← n.tcpClose p closeErr
        let n ← if closeErr ≠ .ok then tcpAbort p n else some n
        some (n.mapCtx fun c => { c with pcb := none })
  some (n.mapCtx fun c => { c with state := if c.state ≠ .error then .idle else c.state })

section opening

variable (env : OpenReads) (port : UInt16) (timeoutMs : UInt32)

def openFailed (text : String) (n : Net) : Stage × Net :=
  (.outside (some (.opened (-1))), n.mapCtx fun c => { c with err := some text, state := .error })

/-- A failure that has a pcb to give back. -/
def openDropped (text : String) (n : Net) : Option (Stage × Net) := do
  let n ← mqttTransportClose env.failClose (n.mapCtx fun c => { c with err := some text })
  some (.outside (some (.opened (-1))), n.mapCtx fun c => { c with state := .error })

/-- From a turn of the wait for the connection. -/
def openSettle (t0 : UInt32) (n : Net) : Option (Stage × Net) :=
  match waitFor tcpSettled timeoutMs t0 env.tcpNow n.ctx with
  | none => some (.connecting timeoutMs t0, n)
  | some false => openDropped env "TCP connect timeout" n
  | some true =>
      if n.ctx.state ≠ .up then openDropped env (n.ctx.err.getD "connection refused") n
      else match n.ctx.pcb with
        | none => none
        | some p => do
            let n ← n.touch p fun r => { r with keepalive := true }
            some (.outside (some (.opened 0)), n)

/-- Step 2, the TCP connection. -/
def openConnect (n : Net) : Option (Stage × Net) :=
  if env.newPcb then do
    let p := n.pcbs.length
    let n : Net := ⟨{ n.ctx with pcb := some p }, n.pcbs ++ [TcpPcb.new]⟩
    let n ← n.tcpArg p true
    let n ← n.tcpRecv p true
    let n ← n.tcpErr p true
    let n ← n.tcpNagleDisable p
    let n := n.mapCtx fun c => { c with state := .connecting }
    let n ← n.tcpConnect p env.connect n.ctx.addr port
    if env.connect ≠ .ok then openDropped env "tcp_connect failed" n
    else openSettle env timeoutMs env.tcpStart n
  else some (openFailed "out of TCP PCBs" (n.mapCtx fun c => { c with pcb := none }))

def openResolved (n : Net) : Option (Stage × Net) :=
  if n.ctx.dnsOk then openConnect env port timeoutMs n
  else some (openFailed "DNS: host not found" n)

/-- From a turn of the wait for the address. -/
def openResolve (t0 : UInt32) (n : Net) : Option (Stage × Net) :=
  match waitFor dnsFinished timeoutMs t0 env.dnsNow n.ctx with
  | none => some (.resolving port timeoutMs t0, n)
  | some false => some (openFailed "DNS timeout" n)
  | some true => openResolved env port timeoutMs n

/-- The context at the start of an attempt. -/
def openReset (c : NetworkContext) : NetworkContext :=
  { c with
    rxHead := 0
    rxTail := 0
    err := none
    dnsDone := false
    dnsOk := false
    state := .resolving }

def mqttTransportOpen (n : Net) : Option (Stage × Net) := do
  let n ← mqttTransportClose env.closeErr n
  let n := n.mapCtx openReset
  match env.dns with
  | .ok =>
      openResolved env port timeoutMs
        (n.mapCtx fun c => { c with addr := env.addr, dnsOk := true, dnsDone := true })
  | .inprogress => openResolve env port timeoutMs env.dnsStart n
  | _ => some (openFailed "DNS request failed (no DNS server?)" n)

end opening

def mqttTransportIsUp (c : NetworkContext) : Bool := c.state = .up ∧ c.pcb ≠ none

/-- `TCP_SND_QUEUELEN` of `lwipopts.h`. -/
def tcpSndQueuelen : UInt16 := (4 * (4 * 1460) + (1460 - 1)) / 1460

structure SendReads where
  sndbuf : UInt16
  sndqueuelen : UInt16
  write : Err
deriving DecidableEq, Repr

/-- As many bytes as the send buffer has room for. -/
def sendLen (env : SendReads) (buf : List UInt8) : UInt16 :=
  if buf.length > env.sndbuf.toNat then env.sndbuf else buf.length.toUInt16

def mqttTransportSend (env : SendReads) (buf : List UInt8) (n : Net) : Option (Stage × Net) :=
  if ¬ mqttTransportIsUp n.ctx then some (.outside (some (.sent (-1))), n)
  else match n.ctx.pcb with
    | none => none
    | some p => do
        -- `tcp_sndbuf` and `tcp_sndqueuelen` read the pcb
        let n ← n.touch p id
        if env.sndbuf = 0 ∨ env.sndqueuelen ≥ tcpSndQueuelen - 1 then some (.sending, n)
        else
          let n ← n.tcpWrite p env.write (buf.take (sendLen env buf).toNat)
          if env.write ≠ .ok then some (.sending, n)
          else
            let n ← n.touch p id -- `tcp_output`
            some (.outside (some (.sent (sendLen env buf).toNat.toInt32)), n)

def recvLoop (len : UInt64) (n : Net) : Stage × Net :=
  let (bytes, ring) := n.ctx.toRxRing.drain len.toNat
  (.outside (some (.received bytes.length.toInt32 bytes)),
    n.mapCtx fun c => { c with toRxRing := ring })

def mqttTransportRecv (len : UInt64) (n : Net) : Stage × Net :=
  if n.ctx.ringUsed = 0 then (.receiving len, n) else recvLoop len n

/-- The rest of `mqtt_transport_recv` when it has pumped. -/
def recvPumped (len : UInt64) (n : Net) : Stage × Net :=
  if n.ctx.ringUsed = 0 then
    (.outside (some (.received (if mqttTransportIsUp n.ctx then 0 else -1) [])), n)
  else recvLoop len n

/-! ### Runs -/

/-- The transport with what went through it since `mqtt_transport_open` last reset the
    ring: the payloads of the pbufs it accepted and the bytes it returned. -/
structure Transport where
  net : Net
  stage : Stage
  accepted : List UInt8
  returned : List UInt8

inductive Action where
  | onRecv (p : Nat) (pbuf : Option Pbuf)
  | onErr (p : Nat) (e : Err)
  | onConnected (p : Nat) (e : Err)
  | onDns (ip : Option UInt32)
  | callOpen (env : OpenReads) (port : UInt16) (timeoutMs : UInt32)
  | callClose (closeErr : Err)
  | callSend (env : SendReads) (buf : List UInt8)
  | callRecv (len : UInt64)
  | pumped (env : OpenReads)

/-- A callback leaves the pump that it came in; a return is no longer the last event. -/
def Stage.interrupted : Stage → Stage
  | .outside _ => .outside none
  | stage => stage

def Stage.isOutside : Stage → Bool
  | .outside _ => true
  | _ => false

/-- The bytes a call returns. -/
def Stage.bytes : Stage → List UInt8
  | .outside (some (.received _ bytes)) => bytes
  | _ => []

def payload : Option Pbuf → List UInt8
  | some q => q.payloads.flatten
  | none => []

namespace Transport

/-- lwIP calls back only for a pcb it has not freed and on which the callback is set. -/
def registered (w : Transport) (p : Nat) (set : TcpPcb → Bool) : Bool :=
  (w.net.pcbs[p]?).any fun r => r.released = [] ∧ set r

/-- A callback whose argument is not the context writes through a null pointer. -/
def callback (w : Transport) (p : Nat) (k : Option Net) : Option Transport :=
  if (w.net.pcbs[p]?).any (·.arg) then
    k.map fun net => { w with net, stage := w.stage.interrupted }
  else none

/-- The end of a stretch of a call. -/
def reached (w : Transport) (out : Stage × Net) : Transport :=
  { w with net := out.2, stage := out.1, returned := w.returned ++ out.1.bytes }

/-- The stretch that follows a pump. -/
def afterPump (env : OpenReads) (w : Transport) : Option (Stage × Net) :=
  match w.stage with
  | .outside _ => none
  | .resolving port timeoutMs t0 => openResolve env port timeoutMs t0 w.net
  | .connecting timeoutMs t0 => openSettle env timeoutMs t0 w.net
  | .sending => some (.outside (some (.sent 0)), w.net)
  | .receiving len => some (recvPumped len w.net)

def exec (w : Transport) : Action → Option Transport
  | .onRecv p pbuf => do
      let (e, net) ← onRecv p pbuf w.net
      let w' ← w.callback p (some net)
      some { w' with accepted := w.accepted ++ if e = .ok then payload pbuf else [] }
  | .onErr p e => w.callback p ((w.net.release p .lwip).map (·.mapCtx (onErr e)))
  | .onConnected p e => w.callback p (some (w.net.mapCtx (onConnected e)))
  | .onDns ip => some { w with net := w.net.mapCtx (onDns ip), stage := w.stage.interrupted }
  | .callOpen env port timeoutMs =>
      (mqttTransportOpen env port timeoutMs w.net).map
        { w with accepted := [], returned := [] }.reached
  | .callClose closeErr =>
      (mqttTransportClose closeErr w.net).map fun net => w.reached (.outside (some .closed), net)
  | .callSend env buf => (mqttTransportSend env buf w.net).map w.reached
  | .callRecv len => some (w.reached (mqttTransportRecv len w.net))
  | .pumped env => (w.afterPump env).map w.reached

def guard (w : Transport) : Action → Prop
  | .onRecv p _ => w.registered p (·.recv)
  | .onErr p _ => w.registered p (·.errf)
  | .onConnected p _ => w.registered p (·.connected)
  | .onDns _ => True
  | .callOpen .. | .callClose _ | .callSend .. | .callRecv _ => w.stage.isOutside
  | .pumped _ => ¬ w.stage.isOutside

instance (w : Transport) (a : Action) : Decidable (w.guard a) :=
  match a with
  | .onRecv .. | .onErr .. | .onConnected .. => inferInstanceAs (Decidable (_ = true))
  | .onDns _ => inferInstanceAs (Decidable True)
  | .callOpen .. | .callClose _ | .callSend .. | .callRecv _ => inferInstanceAs (Decidable (_ = true))
  | .pumped _ => inferInstanceAs (Decidable (¬ _))

/-- The static context before the first call. -/
def initial : Transport where
  net := ⟨⟨⟨fun _ => 0, 0, 0⟩, none, .idle, false, false, 0, none⟩, []⟩
  stage := .outside none
  accepted := []
  returned := []

end Transport

def transport : Machine Transport Action where
  init := Transport.initial
  guard := Transport.guard
  exec := Transport.exec

instance (w : Transport) (a : Action) : Decidable (transport.guard w a) :=
  inferInstanceAs (Decidable (w.guard a))

end FlintRTOS.MqttTransport
