import FlintRTOS.PtpClock
import FlintRTOS.SignedArith

/-!
# PTP messages on the wire

The byte readers of `ptp_core.c`, the Delay_Req writer of `ptp_msg.c` and the time
conversion of `ptp_time.c` that fills its origin timestamp.

A read past the end of the received bytes is `none`.
-/

namespace FlintRTOS

/-- The bytes of a message, as long as they are. -/
abbrev Bytes := List UInt8

/-! ### Reading -/

def rd16 (b : Bytes) (i : Nat) : Option UInt16 := do
  let hi ← b[i]?
  let lo ← b[i + 1]?
  some (hi.toUInt16 <<< 8 ||| lo.toUInt16)

def rd32 (b : Bytes) (i : Nat) : Option UInt32 := do
  let b₀ ← b[i]?
  let b₁ ← b[i + 1]?
  let b₂ ← b[i + 2]?
  let b₃ ← b[i + 3]?
  some (b₀.toUInt32 <<< 24 ||| b₁.toUInt32 <<< 16 ||| b₂.toUInt32 <<< 8 ||| b₃.toUInt32)

/-- The loops of `rd_ts_ns` and `rd_corr_ns`: `n` bytes from `i` on are shifted
    into `v`. -/
def rdShift (b : Bytes) (i : Nat) : Nat → UInt64 → Option UInt64
  | 0, v => some v
  | n + 1, v => do
      let x ← b[i]?
      rdShift b (i + 1) n (v <<< 8 ||| x.toUInt64)

def rdTsNs (o : Overflow) (b : Bytes) (i : Nat) : Option Int64 := do
  let secs ← rdShift b i 6 0
  let ns ← rd32 b (i + 6)
  o.add (← o.mul secs.toInt64 nsPerS) ns.toUInt64.toInt64

def rdCorrNs (o : Overflow) (b : Bytes) : Option Int64 := do
  let v ← rdShift b 8 8 0
  o.div v.toInt64 65536

/-- `n` bytes from `i` on. -/
def copyBytes (b : Bytes) (i n : Nat) : Option (Vector UInt8 n) :=
  if h : i + n ≤ b.length then
    some ⟨((b.drop i).take n).toArray, by simp; omega⟩
  else none

def cmpBytes : Bytes → Bytes → Int
  | x :: xs, y :: ys => if x ≠ y then (if x < y then -1 else 1) else cmpBytes xs ys
  | _, _ => 0

/-- A sender: clockIdentity and portNumber, as on the wire. -/
abbrev PortId := Vector UInt8 10

/-- sourcePortIdentity. -/
def sourcePort (b : Bytes) : Option PortId := copyBytes b 20 10

def sequenceId (b : Bytes) : Option UInt16 := rd16 b 30

/-! ### Time stamps -/

structure TimeInternal where
  seconds : Int32
  nanoseconds : Int32
deriving DecidableEq, Repr

/-- `secondsField` and `nanosecondsField` of a Timestamp. -/
structure Timestamp where
  msb : UInt16
  lsb : UInt32
  nanoseconds : UInt32
deriving DecidableEq, Repr

def ptpTimeNormalize (o : Overflow) (r : TimeInternal) : Option TimeInternal := do
  let seconds ← o.to32 (r.seconds.toInt + r.nanoseconds.toInt.tdiv 1000000000)
  let nanoseconds ← o.to32 (r.nanoseconds.toInt.tmod 1000000000)
  if seconds > 0 ∧ nanoseconds < 0 then
    some ⟨← o.to32 (seconds.toInt - 1), ← o.to32 (nanoseconds.toInt + 1000000000)⟩
  else if seconds < 0 ∧ nanoseconds > 0 then
    some ⟨← o.to32 (seconds.toInt + 1), ← o.to32 (nanoseconds.toInt - 1000000000)⟩
  else some ⟨seconds, nanoseconds⟩

def ptpNsToTime (o : Overflow) (ns : Int64) : Option TimeInternal := do
  let seconds ← o.div ns nsPerS
  let nanoseconds ← o.mod ns nsPerS
  ptpTimeNormalize o ⟨seconds.toInt32, nanoseconds.toInt32⟩

def ptpInternalToTs (t : TimeInternal) : Timestamp :=
  ⟨0, t.seconds.toUInt32, t.nanoseconds.toUInt32⟩

/-! ### Writing -/

def put16 (v : UInt16) : Bytes := [(v >>> 8).toUInt8, v.toUInt8]

def put32 (v : UInt32) : Bytes :=
  [(v >>> 24).toUInt8, (v >>> 16).toUInt8, (v >>> 8).toUInt8, v.toUInt8]

def put48 (v : UInt64) : Bytes :=
  [(v >>> 40).toUInt8, (v >>> 32).toUInt8, (v >>> 24).toUInt8, (v >>> 16).toUInt8,
    (v >>> 8).toUInt8, v.toUInt8]

/-- The fields of a header that the slave fills in. -/
structure MsgHeader where
  domainNumber : UInt8
  clockIdentity : Vector UInt8 8
  portNumber : UInt16
deriving DecidableEq, Repr

def delayReqLength : Nat := 44

/-- The fields in the order of their offsets: type, version, length, domain,
    flags, correction, source port, sequence id, control, interval, origin. -/
def ptpPackDelayReq (self : MsgHeader) (seqId : UInt16) (origin : Timestamp) : Bytes :=
  let kind : Bytes := [0x01, 0x02]
  let flags : Bytes := [self.domainNumber, 0, 0, 0]
  let control : Bytes := [0x01, 0x7F]
  let secs := origin.msb.toUInt64 <<< 32 ||| origin.lsb.toUInt64
  kind ++ put16 44 ++ flags ++ List.replicate 12 0 ++ self.clockIdentity.toList ++
    put16 self.portNumber ++ put16 seqId ++ control ++ put48 secs ++ put32 origin.nanoseconds

theorem length_ptpPackDelayReq (self : MsgHeader) (seqId : UInt16) (origin : Timestamp) :
    (ptpPackDelayReq self seqId origin).length = delayReqLength := by
  simp [ptpPackDelayReq, put16, put32, put48, delayReqLength]

theorem put16_join (v : UInt16) :
    (v >>> 8).toUInt8.toUInt16 <<< 8 ||| v.toUInt8.toUInt16 = v := by
  have hlt : v.toNat < 65536 := v.toNat_lt
  have hhigh : ((v >>> 8).toUInt8.toUInt16 <<< 8).toNat = (v.toNat / 256) <<< 8 := by
    simp [Nat.shiftRight_eq_div_pow, Nat.shiftLeft_eq]
    omega
  have hlow : v.toUInt8.toUInt16.toNat = v.toNat % 256 := by simp
  apply UInt16.toNat_inj.mp
  rw [UInt16.toNat_or, hhigh, hlow, ← Nat.shiftLeft_add_eq_or_of_lt (Nat.mod_lt _ (by decide)),
    Nat.shiftLeft_eq]
  omega

/-- The sequence id follows the thirty octets of the fields before it. -/
theorem ptpPackDelayReq_eq (self : MsgHeader) (seqId : UInt16) (origin : Timestamp) :
    ∃ front back : Bytes, front.length = 30 ∧
      ptpPackDelayReq self seqId origin = front ++ (put16 seqId ++ back) := by
  refine ⟨([0x01, 0x02] : Bytes) ++ put16 44 ++ [self.domainNumber, 0, 0, 0] ++ List.replicate 12 0 ++
      self.clockIdentity.toList ++ put16 self.portNumber,
    ([0x01, 0x7F] : Bytes) ++ put48 (origin.msb.toUInt64 <<< 32 ||| origin.lsb.toUInt64) ++
      put32 origin.nanoseconds, ?_, ?_⟩
  · simp [put16]
  · simp only [ptpPackDelayReq, List.append_assoc]

theorem rd16_put16 {front back : Bytes} {i : Nat} (hfront : front.length = i) (v : UInt16) :
    rd16 (front ++ (put16 v ++ back)) i = some v := by
  subst hfront
  have hhigh : (front ++ (put16 v ++ back))[front.length]? = some (v >>> 8).toUInt8 := by
    rw [List.getElem?_append_right (Nat.le_refl _), Nat.sub_self]
    rfl
  have hlow : (front ++ (put16 v ++ back))[front.length + 1]? = some v.toUInt8 := by
    rw [List.getElem?_append_right (Nat.le_add_right _ 1), Nat.add_sub_cancel_left]
    rfl
  rw [rd16, hhigh, hlow]
  exact congrArg some (put16_join v)

/-- The sequence id is read back where it was written. -/
theorem sequenceId_ptpPackDelayReq (self : MsgHeader) (seqId : UInt16) (origin : Timestamp) :
    sequenceId (ptpPackDelayReq self seqId origin) = some seqId := by
  obtain ⟨front, back, hlength, hpack⟩ := ptpPackDelayReq_eq self seqId origin
  rw [sequenceId, hpack]
  exact rd16_put16 hlength seqId

/-! ### Comparing -/

@[simp] theorem cmpBytes_self (a : Bytes) : cmpBytes a a = 0 := by
  induction a with
  | nil => rfl
  | cons x xs ih => simp [cmpBytes, ih]

theorem cmpBytes_eq_zero {a b : Bytes} (hlen : a.length = b.length) (h : cmpBytes a b = 0) :
    a = b := by
  induction a generalizing b with
  | nil => exact (List.eq_nil_of_length_eq_zero hlen.symm).symm
  | cons x xs ih =>
    cases b with
    | nil => cases hlen
    | cons y ys =>
      by_cases hxy : x = y
      · rw [hxy, ih (by simpa using hlen) (by simpa [cmpBytes, hxy] using h)]
      · by_cases hlt : x < y <;> simp [cmpBytes, hxy, hlt] at h

/-- Two identities compare equal when they are the same. -/
theorem cmpBytes_toList {n : Nat} {a b : Vector UInt8 n} :
    cmpBytes a.toList b.toList = 0 ↔ a = b := by
  constructor
  · intro h
    exact Vector.toList_inj.mp (cmpBytes_eq_zero (by simp) h)
  · rintro rfl
    exact cmpBytes_self _

end FlintRTOS
