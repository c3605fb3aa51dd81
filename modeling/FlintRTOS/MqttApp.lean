import FlintRTOS.JsonWriter

/-!
# The MQTT device application

`flint_mqtt.c`: it connects to a broker with exponential back-off, takes commands and
publishes on schedule, all from `flint_mqtt_service`.  Transport, coreMQTT and platform
are read from outside: the clock, what a call to them answers, and the packets that
`MQTT_ProcessLoop` delivers.  What the application does to them is kept as effects.

Of what it publishes only the topic is kept, and log lines are left out.  Memory that
is indexed is read and written through `Option`: an access outside of it, or of a byte
that has not been written, has no result.
-/

namespace FlintRTOS.MqttApp

open JsonWriter (JsonW)

/-- The bytes of a string literal. -/
def ascii (s : String) : List UInt8 := s.toList.map Char.toUInt8

def topicMax : Nat := 64

def idMax : Nat := 32

def replyMax : Nat := 1024

def ptpPeriodMs : UInt32 := 1000

def statsPeriodMs : UInt32 := 10000

def backoffMinMs : UInt32 := 2000

def backoffMaxMs : UInt32 := 60000

structure FlintMqttStats where
  connects : UInt32
  connectFailures : UInt32
  published : UInt32
  commands : UInt32
deriving DecidableEq, Repr

/-- `reply` is the memory of the reply, of which `replyMax` bytes are the array. -/
structure FlintMqtt where
  id : List UInt8
  inited : Bool
  connected : Bool
  nextAttemptMs : UInt32
  backoffMs : UInt32
  lastPtpMs : UInt32
  lastStatsMs : UInt32
  bootMs : UInt32
  tCmd : List UInt8
  replyPending : Bool
  reply : Nat → UInt8
  st : FlintMqttStats

inductive Topic where
  | status
  | ptp
  | stats
  | reply
deriving DecidableEq, Repr

/-- What the application does: the calls of the LED hook and of `MQTT_Publish`, and how
    far it gets with a connection. -/
inductive Effect where
  | led (on : Int32)
  | publish (topic : Topic)
  | tryConnect
  | connected
  | drop
deriving DecidableEq, Repr

/-! ### Strings -/

/-- The string in `dst` afterwards; `cap` is not 0. -/
def fmStrlcpy (src : List UInt8) (cap : Nat) : List UInt8 := (JsonWriter.cBytes src).take (cap - 1)

def fmStrlcat (dst src : List UInt8) (cap : Nat) : List UInt8 :=
  if dst.length < cap then dst ++ fmStrlcpy src (cap - dst.length) else dst

def makeTopic (id leaf : List UInt8) : List UInt8 :=
  let dst := fmStrlcpy (ascii "flint/") topicMax
  let dst := fmStrlcat dst id topicMax
  let dst := fmStrlcat dst (ascii "/") topicMax
  fmStrlcat dst leaf topicMax

/-- The comparison loop of `word_eq`, from index `i` on. -/
def sameFrom (a : Nat → Option UInt8) : Nat → List UInt8 → Option Bool
  | _, [] => some true
  | i, c :: b => do
    let x ← a i
    if x ≠ c then some false else sameFrom a (i + 1) b

def wordEq (a : Nat → Option UInt8) (alen : Nat) (b : List UInt8) : Option Bool :=
  if alen ≠ b.length then some false else sameFrom a 0 b

/-! ### Publishing -/

def publish (topic : Topic) (sent : Bool) (g : FlintMqtt) : FlintMqtt × List Effect :=
  if g.connected then
    (if sent then { g with st.published := g.st.published + 1 } else g, [.publish topic])
  else (g, [])

/-! ### Commands -/

/-- What the platform answers while a command is handled. -/
structure Platform where
  nowMs : UInt32
  led : Int32 → Int32
  statsJson : (Nat → UInt8) → Nat × (Nat → UInt8)
  ptpJson : (Nat → UInt8) → Nat × (Nat → UInt8)

def isBlank (c : UInt8) : Bool := c = 32 ∨ c = 10 ∨ c = 13 ∨ c = 9

/-- The first loop; the fuel is what is left of the payload. -/
def skipFront (p : List UInt8) (e : Nat) : Nat → Nat → Option Nat
  | 0, s => some s
  | fuel + 1, s =>
    if s < e then do
      let c ← p[s]?
      if isBlank c then skipFront p e fuel (s + 1) else some s
    else some s

/-- The second loop, downwards. -/
def skipBack (p : List UInt8) (s : Nat) : Nat → Option Nat
  | 0 => some 0
  | e + 1 =>
    if e + 1 > s then do
      let c ← p[e]?
      if isBlank c then skipBack p s e else some (e + 1)
    else some (e + 1)

def cmdSize : Nat := 48

/-- The array `cmd`; `none` where nothing has been written, and outside. -/
abbrev CmdBuf : Type := Nat → Option UInt8

def CmdBuf.write (b : CmdBuf) (i : Nat) (c : UInt8) : Option CmdBuf :=
  if i < cmdSize then some (Function.update b i (some c)) else none

/-- The copy loop; the fuel is what is left to copy. -/
def copyCmd (p : List UInt8) (s : Nat) : Nat → Nat → CmdBuf → Option CmdBuf
  | 0, _, b => some b
  | fuel + 1, i, b => do
    let c ← p[s + i]?
    let b ← b.write i c
    copyCmd p s fuel (i + 1) b

/-- The loop that looks for a space. -/
def findSpace (b : CmdBuf) (len : Nat) : Nat → Nat → Option Nat
  | 0, sp => some sp
  | fuel + 1, sp =>
    if sp < len then do
      let c ← b sp
      if c ≠ 32 then findSpace b len fuel (sp + 1) else some sp
    else some sp

/-- `cmd` read as a C string, which has to end within the array. -/
def cmdText (b : CmdBuf) : Nat → Nat → Option (List UInt8)
  | 0, _ => none
  | fuel + 1, i => do
    let c ← b i
    if c = 0 then some [] else (cmdText b fuel (i + 1)).map (c :: ·)

inductive LedArg where
  | on
  | off
  | toggle
  | other
deriving DecidableEq, Repr

/-- The branches of `handle_command`. -/
inductive Command where
  | ping
  | uptime
  | stats
  | ptp
  | led (arg : LedArg)
  | help
  | unknown
deriving DecidableEq, Repr

def ledArg (arg : Nat → Option UInt8) (al : Nat) : Option LedArg := do
  if ← wordEq arg al (ascii "on") then return .on
  if ← wordEq arg al (ascii "off") then return .off
  if ← wordEq arg al (ascii "toggle") then return .toggle
  return .other

/-- Which branch is taken. -/
def branch (cmd : CmdBuf) (len sp : Nat) : Option Command := do
  if ← wordEq cmd len (ascii "ping") then return .ping
  if ← wordEq cmd len (ascii "uptime") then return .uptime
  if ← wordEq cmd len (ascii "stats") then return .stats
  if ← wordEq cmd len (ascii "ptp") then return .ptp
  if (← wordEq cmd sp (ascii "led")) ∧ sp < len then
    return .led (← ledArg (fun i => cmd (sp + 1 + i)) (len - sp - 1))
  if ← wordEq cmd len (ascii "help") then return .help
  return .unknown

/-- The first half of `handle_command`: the text of the command and its branch. -/
def parseCommand (p : List UInt8) : Option (List UInt8 × Command) := do
  let s ← skipFront p p.length p.length 0
  let e ← skipBack p s p.length
  let n := if e - s < cmdSize - 1 then e - s else cmdSize - 1
  let cmd ← copyCmd p s n 0 (fun _ => none)
  let cmd ← cmd.write n 0
  let sp ← findSpace cmd n n 0
  let text ← cmdText cmd cmdSize 0
  let c ← branch cmd n sp
  return (text, c)

/-- The memory of the reply after `set_reply_simple`. -/
def setReplySimple (reply : Nat → UInt8) (cmd k v : List UInt8) : Nat → UInt8 :=
  ((((JsonW.jwInit reply replyMax).jwObjOpen.jwStr (some (ascii "cmd")) cmd).jwStr
    (some k) v).jwObjClose).buf

def uptimeReply (reply : Nat → UInt8) (cmd : List UInt8) (uptimeS : UInt32) : Nat → UInt8 :=
  ((((JsonW.jwInit reply replyMax).jwObjOpen.jwStr (some (ascii "cmd")) cmd).jwU32
    (some (ascii "uptime_s")) uptimeS).jwObjClose).buf

/-- A reply that the platform writes, if it has anything to report. -/
def platformReply (cmd why : List UInt8) (answer : Nat × (Nat → UInt8)) : Nat → UInt8 :=
  if answer.1 = 0 then setReplySimple answer.2 cmd (ascii "error") why else answer.2

/-- The answer of the LED hook, or -2 without a call. -/
def ledAnswer (plat : Platform) : LedArg → Int32 × List Effect
  | .on => (plat.led 1, [.led 1])
  | .off => (plat.led 0, [.led 0])
  | .toggle => (plat.led (-1), [.led (-1)])
  | .other => (-2, [])

/-- What a branch does. -/
def runCommand (plat : Platform) (cmd : List UInt8) (g : FlintMqtt) :
    Command → (Nat → UInt8) × List Effect
  | .ping => (setReplySimple g.reply cmd (ascii "reply") (ascii "pong"), [])
  | .uptime => (uptimeReply g.reply cmd ((plat.nowMs - g.bootMs) / 1000), [])
  | .stats => (platformReply cmd (ascii "unavailable") (plat.statsJson g.reply), [])
  | .ptp => (platformReply cmd (ascii "PTP not running") (plat.ptpJson g.reply), [])
  | .led arg =>
    let (r, effects) := ledAnswer plat arg
    (if r = -2 then setReplySimple g.reply cmd (ascii "error") (ascii "use: led on|off|toggle")
      else setReplySimple g.reply cmd (ascii "led") (ascii (if r ≠ 0 then "on" else "off")),
      effects)
  | .help =>
    (setReplySimple g.reply cmd (ascii "commands")
      (ascii "ping, uptime, stats, ptp, led on|off|toggle, help"), [])
  | .unknown =>
    (setReplySimple g.reply cmd (ascii "error") (ascii "unknown command (try: help)"), [])

def handleCommand (plat : Platform) (p : List UInt8) (g : FlintMqtt) :
    Option (FlintMqtt × List Effect) := do
  let (cmd, c) ← parseCommand p
  let g := { g with st.commands := g.st.commands + 1 }
  let (reply, effects) := runCommand plat cmd g c
  return ({ g with reply := reply, replyPending := true }, effects)

/-- A packet that `MQTT_ProcessLoop` delivers, with topic and payload if it is a
    publication, and the platform at that time. -/
structure Packet where
  type : UInt8
  publishInfo : Option (List UInt8 × List UInt8)
  plat : Platform

def onEvent (g : FlintMqtt) (pkt : Packet) : Option (FlintMqtt × List Effect) :=
  match pkt.publishInfo with
  | some (topic, payload) =>
    if pkt.type &&& 0xF0 = 0x30 then do
      if ← wordEq (fun i => topic[i]?) topic.length g.tCmd then handleCommand pkt.plat payload g
      else return (g, [])
    else return (g, [])
  | none => return (g, [])

/-- The packets of one `MQTT_ProcessLoop`. -/
def onEvents : FlintMqtt → List Packet → Option (FlintMqtt × List Effect)
  | g, [] => return (g, [])
  | g, pkt :: pkts => do
    let (g, effects) ← onEvent g pkt
    let (g, effects') ← onEvents g pkts
    return (g, effects ++ effects')

/-! ### Connection management -/

/-- `MQTTStatus_t`, as far as it is told apart here. -/
inductive MqttStatus where
  | success
  | needMoreBytes
  | failed
deriving DecidableEq, Repr

/-- What one call of `flint_mqtt_service` reads: the clock, at the five places where the
    application keeps what it reads, and the answers of the transport, of coreMQTT and of
    the platform. -/
structure ServiceReads (T : Type) where
  start : T
  drop : T
  lastPtp : T
  lastStats : T
  again : T
  opened : Int32
  mqttInit : MqttStatus
  connect : MqttStatus
  process : MqttStatus
  packets : List Packet
  isUp : Bool
  ptpJson : Nat
  statsJson : Nat
  sent : Topic → Bool

def drop (now : UInt32) (g : FlintMqtt) : FlintMqtt :=
  { g with
    connected := false
    nextAttemptMs := now + g.backoffMs
    backoffMs := if g.backoffMs * 2 > backoffMaxMs then backoffMaxMs else g.backoffMs * 2 }

section service

variable (env : ServiceReads UInt32)

/-- `try_connect` once the broker has accepted. -/
def connected (g : FlintMqtt) : FlintMqtt × List Effect :=
  let g := { g with connected := true, backoffMs := backoffMinMs, st.connects := g.st.connects + 1 }
  let (g, effects) := publish .status (env.sent .status) g
  ({ g with
      lastPtpMs := env.lastPtp
      lastStatsMs := env.lastStats - statsPeriodMs + 2000 },
    [.tryConnect, .connected] ++ effects)

def tryConnect (g : FlintMqtt) : FlintMqtt × List Effect :=
  if env.opened ≠ 0 then
    (drop env.drop { g with st.connectFailures := g.st.connectFailures + 1 }, [.tryConnect, .drop])
  else if env.mqttInit ≠ .success then (drop env.drop g, [.tryConnect, .drop])
  else if env.connect ≠ .success then
    (drop env.drop { g with st.connectFailures := g.st.connectFailures + 1 }, [.tryConnect, .drop])
  else connected env g

def publishReply (g : FlintMqtt) : FlintMqtt × List Effect :=
  if g.replyPending then publish .reply (env.sent .reply) { g with replyPending := false }
  else (g, [])

def publishPtp (g : FlintMqtt) : FlintMqtt × List Effect :=
  if env.again - g.lastPtpMs ≥ ptpPeriodMs then
    let g := { g with lastPtpMs := g.lastPtpMs + ptpPeriodMs }
    let g := if env.again - g.lastPtpMs ≥ ptpPeriodMs then { g with lastPtpMs := env.again } else g
    if env.ptpJson > 0 then publish .ptp (env.sent .ptp) g else (g, [])
  else (g, [])

def publishStats (g : FlintMqtt) : FlintMqtt × List Effect :=
  if env.again - g.lastStatsMs ≥ statsPeriodMs then
    let g := { g with lastStatsMs := env.again }
    if env.statsJson > 0 then publish .stats (env.sent .stats) g else (g, [])
  else (g, [])

/-- `flint_mqtt_service` after `MQTT_ProcessLoop`. -/
def processed (g : FlintMqtt) : FlintMqtt × List Effect :=
  if env.process ≠ .success ∧ env.process ≠ .needMoreBytes then (drop env.drop g, [.drop])
  else if ¬ env.isUp then (drop env.drop g, [.drop])
  else
    let (g, replies) := publishReply env g
    let (g, ptp) := publishPtp env g
    let (g, stats) := publishStats env g
    (g, replies ++ ptp ++ stats)

def flintMqttService (g : FlintMqtt) : Option (FlintMqtt × List Effect) :=
  if ¬ g.inited then some (g, [])
  else if ¬ g.connected then
    if (env.start - g.nextAttemptMs).toInt32 ≥ 0 then some (tryConnect env g) else some (g, [])
  else do
    let (g, effects) ← onEvents g env.packets
    let (g, effects') := processed env g
    return (g, effects ++ effects')

end service

/-- `bootMs` and `nowMs` are the two readings of the clock. -/
def flintMqttInit (clientId : List UInt8) (bootMs nowMs : UInt32) (g : FlintMqtt) : FlintMqtt :=
  let id := fmStrlcpy clientId idMax
  { g with
    id := id
    tCmd := makeTopic id (ascii "cmd")
    bootMs := bootMs
    backoffMs := backoffMinMs
    nextAttemptMs := nowMs
    connected := false
    inited := true }

end FlintRTOS.MqttApp
