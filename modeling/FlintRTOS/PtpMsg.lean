import FlintRTOS.BigEndian
import FlintRTOS.PtpWire

/-!
# Packing and unpacking PTP messages

The readers of `ptp_msg.c`, against its writer and against the readers of
`ptp_core.c`.

Every reader is the value of a slice of the message, so what a reader makes of what a
writer wrote is a fact about numbers: `rdShift_eq` and `rd32_eq` for the readers,
`put32_eq` and `put48_eq` for the writers.  A header is read back as it was written,
and so is a time stamp.

The nanoseconds in a time stamp are another matter.  They are a 64-bit number only up
to the year 2262 while the format goes further, and the stamp of a request is taken
through a signed 32-bit number of seconds.
-/

namespace FlintRTOS

/-! ### Unpacking -/

def be16 (b : Bytes) (i : Nat) : Option UInt16 := rd16 b i

def be32 (b : Bytes) (i : Nat) : Option UInt32 := rd32 b i

def be48 (b : Bytes) (i : Nat) : Option UInt64 := rdShift b i 6 0

def be64 (b : Bytes) (i : Nat) : Option UInt64 := rdShift b i 8 0

def ptpUnpackTimestamp (b : Bytes) (i : Nat) : Option Timestamp := do
  let secs ← be48 b i
  let ns ← be32 b (i + 6)
  some ⟨(secs >>> 32).toUInt16, secs.toUInt32, ns⟩

/-- `Integer64`. -/
structure CorrectionField where
  msb : Int32
  lsb : UInt32
deriving DecidableEq, Repr

/-- The fields of a header that are read. -/
structure RxHeader extends MsgHeader where
  transportSpecific : UInt8
  messageType : UInt8
  versionPTP : UInt8
  messageLength : UInt16
  flagField0 : UInt8
  flagField1 : UInt8
  correctionField : CorrectionField
  sequenceId : UInt16
  controlField : UInt8
  logMessageInterval : Int8
deriving DecidableEq, Repr

/-- Returns the message type with the header. -/
def ptpUnpackHeader (b : Bytes) : Option (UInt8 × RxHeader) := do
  let kind : UInt8 ← b[0]?
  let version : UInt8 ← b[1]?
  let messageLength ← be16 b 2
  let domainNumber ← b[4]?
  let flagField0 ← b[6]?
  let flagField1 ← b[7]?
  let cf ← be64 b 8
  let clockIdentity ← copyBytes b 20 8
  let portNumber ← be16 b 28
  let sequenceId ← be16 b 30
  let controlField ← b[32]?
  let logMessageInterval ← b[33]?
  let hdr : RxHeader :=
    { transportSpecific := kind >>> 4
      messageType := kind &&& 0x0F
      versionPTP := version &&& 0x0F
      messageLength := messageLength
      domainNumber := domainNumber
      flagField0 := flagField0
      flagField1 := flagField1
      correctionField := ⟨(cf >>> 32).toUInt32.toInt32, cf.toUInt32⟩
      clockIdentity := clockIdentity
      portNumber := portNumber
      sequenceId := sequenceId
      controlField := controlField
      logMessageInterval := logMessageInterval.toInt8 }
  some (hdr.messageType, hdr)

/-! ### Readers and writers as numbers -/

/-- The `n` bytes from `i` on. -/
def slice (b : Bytes) (i n : Nat) : Bytes := (b.drop i).take n

variable {b back : Bytes} {i n : Nat}

theorem length_slice (h : i + n ≤ b.length) : (slice b i n).length = n := by
  simp only [slice, List.length_take, List.length_drop]
  omega

theorem slice_succ (h : i < b.length) : slice b i (n + 1) = b[i] :: slice b (i + 1) n := by
  rw [slice, List.drop_eq_getElem_cons h, List.take_succ_cons, slice]

/-- The loop shifts in the value of the bytes, if the word has room for them. -/
theorem rdShift_eq {v : UInt64} (hlen : i + n ≤ b.length)
    (hroom : (v.toNat + 1) * 256 ^ n ≤ 2 ^ 64) :
    ∃ r, rdShift b i n v = some r ∧ r.toNat = v.toNat * 256 ^ n + BigEndian.value (slice b i n) := by
  induction n generalizing i v with
  | zero => exact ⟨v, rfl, by simp [slice]⟩
  | succ n ih =>
    have hi : i < b.length := by omega
    have hx : b[i].toNat < 256 := b[i].toNat_lt
    have hsmall : v.toNat < 2 ^ 56 := by
      have hone : (v.toNat + 1) * 256 ≤ (v.toNat + 1) * 256 ^ (n + 1) :=
        Nat.mul_le_mul_left _ (Nat.le_self_pow (by omega) 256)
      omega
    have hshift := BigEndian.toNat_shiftIn hsmall b[i]
    have hroom' : ((v <<< 8 ||| b[i].toUInt64).toNat + 1) * 256 ^ n ≤ 2 ^ 64 := by
      rw [hshift]
      calc (v.toNat * 256 + b[i].toNat + 1) * 256 ^ n ≤ (v.toNat + 1) * 256 * 256 ^ n :=
            Nat.mul_le_mul_right _ (by omega)
        _ = (v.toNat + 1) * 256 ^ (n + 1) := by rw [Nat.pow_succ', Nat.mul_assoc]
        _ ≤ 2 ^ 64 := hroom
    obtain ⟨r, hr, hvalue⟩ := ih (i := i + 1) (by omega) hroom'
    refine ⟨r, ?_, ?_⟩
    · simp only [rdShift, List.getElem?_eq_getElem hi, Option.bind_eq_bind, Option.bind_some, hr]
    · rw [hvalue, hshift, slice_succ hi, BigEndian.value_cons, length_slice (by omega),
        Nat.pow_succ']
      ring

theorem rd32_eq (h : i + 4 ≤ b.length) :
    ∃ r, rd32 b i = some r ∧ r.toNat = BigEndian.value (slice b i 4) := by
  have h₀ : b[i]? = some b[i] := List.getElem?_eq_getElem (by omega)
  have h₁ : b[i + 1]? = some b[i + 1] := List.getElem?_eq_getElem (by omega)
  have h₂ : b[i + 2]? = some b[i + 2] := List.getElem?_eq_getElem (by omega)
  have h₃ : b[i + 3]? = some b[i + 3] := List.getElem?_eq_getElem (by omega)
  simp only [rd32, h₀, h₁, h₂, h₃, Option.bind_eq_bind, Option.bind_some]
  refine ⟨_, rfl, ?_⟩
  rw [BigEndian.toNat_join32, slice_succ (by omega), slice_succ (by omega), slice_succ (by omega),
    slice_succ (by omega)]
  rfl

theorem put32_eq (v : UInt32) : put32 v = BigEndian.bytes 4 v.toNat := by
  simp [put32, BigEndian.bytes, ← UInt8.toNat_inj, Nat.shiftRight_eq_div_pow, Nat.div_div_eq_div_mul]

theorem put48_eq (v : UInt64) : put48 v = BigEndian.bytes 6 v.toNat := by
  simp [put48, BigEndian.bytes, ← UInt8.toNat_inj, Nat.shiftRight_eq_div_pow, Nat.div_div_eq_div_mul]

theorem length_put32 (v : UInt32) : (put32 v).length = 4 := rfl

theorem length_put48 (v : UInt64) : (put48 v).length = 6 := rfl

/-- The seconds of a time stamp. -/
def Timestamp.secs (ts : Timestamp) : UInt64 := ts.msb.toUInt64 <<< 32 ||| ts.lsb.toUInt64

theorem Timestamp.toNat_secs (ts : Timestamp) :
    ts.secs.toNat = ts.msb.toNat * 2 ^ 32 + ts.lsb.toNat := by
  have hmsb : ts.msb.toNat < 2 ^ 16 := ts.msb.toNat_lt
  have hshift : (ts.msb.toUInt64 <<< 32).toNat = ts.msb.toNat * 2 ^ 32 := by
    simp only [UInt64.toNat_shiftLeft, UInt16.toNat_toUInt64, Nat.shiftLeft_eq,
      UInt64.reduceToNat, Nat.reduceMod, Nat.reducePow]
    omega
  rw [secs, UInt64.toNat_or, hshift, UInt32.toNat_toUInt64,
    BigEndian.mul_two_pow_or ts.lsb.toNat_lt]

theorem Timestamp.secs_lt (ts : Timestamp) : ts.secs.toNat < 2 ^ 48 := by
  have hmsb : ts.msb.toNat < 2 ^ 16 := ts.msb.toNat_lt
  have hlsb : ts.lsb.toNat < 2 ^ 32 := ts.lsb.toNat_lt
  rw [ts.toNat_secs]
  omega

/-- A 48-bit number is split into the two parts of `secondsField` without loss. -/
theorem toNat_secs_split {secs : UInt64} (h : secs.toNat < 2 ^ 48) (ns : UInt32) :
    Timestamp.secs ⟨(secs >>> 32).toUInt16, secs.toUInt32, ns⟩ = secs := by
  apply UInt64.toNat_inj.mp
  rw [Timestamp.toNat_secs]
  simp only [UInt64.toNat_toUInt16, UInt64.toNat_shiftRight, UInt64.toNat_toUInt32,
    Nat.shiftRight_eq_div_pow, UInt64.reduceToNat, Nat.reduceMod, Nat.reducePow]
  omega

/-! ### What was written is read back -/

theorem slice_append {front mid : Bytes} (hfront : front.length = i) (hmid : mid.length = n) :
    slice (front ++ (mid ++ back)) i n = mid := by
  rw [slice, List.drop_left' hfront, List.take_left' hmid]

theorem rd32_put32 {front : Bytes} (hfront : front.length = i) (v : UInt32) :
    rd32 (front ++ (put32 v ++ back)) i = some v := by
  obtain ⟨r, hr, hvalue⟩ := rd32_eq (b := front ++ (put32 v ++ back)) (i := i) (by simp [hfront, put32])
  rw [slice_append hfront (length_put32 v), put32_eq,
    BigEndian.value_bytes_of_lt v.toNat_lt, UInt32.toNat_inj] at hvalue
  rw [hr, hvalue]

theorem rdShift_put48 {front : Bytes} (hfront : front.length = i) {v : UInt64}
    (hv : v.toNat < 2 ^ 48) : rdShift (front ++ (put48 v ++ back)) i 6 0 = some v := by
  obtain ⟨r, hr, hvalue⟩ := rdShift_eq (b := front ++ (put48 v ++ back)) (i := i) (n := 6) (v := 0)
    (by simp [hfront, put48]) (by decide)
  rw [slice_append hfront (length_put48 v), put48_eq, BigEndian.value_bytes_of_lt hv] at hvalue
  have heq : r = v := UInt64.toNat_inj.mp (by simpa using hvalue)
  rw [hr, heq]

theorem copyBytes_append {front : Bytes} (hfront : front.length = i) (v : Vector UInt8 n) :
    copyBytes (front ++ (v.toList ++ back)) i n = some v := by
  have hmid : v.toList.length = n := by simp
  have hlen : i + n ≤ (front ++ (v.toList ++ back)).length := by
    simp only [List.length_append, hfront, hmid]
    omega
  rw [copyBytes, dif_pos hlen]
  apply congrArg some
  apply Vector.toList_inj.mp
  exact slice_append hfront hmid

/-- The first twenty bytes of a request are fixed but for the domain. -/
theorem ptpPackDelayReq_head (self : MsgHeader) (seqId : UInt16) (origin : Timestamp) :
    ptpPackDelayReq self seqId origin =
      ([0x01, 0x02, 0, 44, self.domainNumber, 0, 0, 0, 0, 0, 0, 0, 0, 0, 0, 0, 0, 0, 0, 0] : Bytes) ++
        (self.clockIdentity.toList ++ (put16 self.portNumber ++ (put16 seqId ++
          (([0x01, 0x7F] : Bytes) ++ (put48 origin.secs ++ put32 origin.nanoseconds))))) := by
  simp only [ptpPackDelayReq, List.append_assoc]
  rfl

theorem ptpPackDelayReq_tail (self : MsgHeader) (seqId : UInt16) (origin : Timestamp) :
    ∃ front : Bytes, front.length = 34 ∧ ptpPackDelayReq self seqId origin =
      front ++ (put48 origin.secs ++ put32 origin.nanoseconds) := by
  refine ⟨_, ?_, by rw [ptpPackDelayReq, List.append_assoc]; rfl⟩
  simp [put16]

/-- Both parts of the origin time stamp are where they are read. -/
theorem ptpPackDelayReq_origin (self : MsgHeader) (seqId : UInt16) (origin : Timestamp) :
    rdShift (ptpPackDelayReq self seqId origin) 34 6 0 = some origin.secs ∧
      rd32 (ptpPackDelayReq self seqId origin) 40 = some origin.nanoseconds := by
  obtain ⟨front, hfront, hpack⟩ := ptpPackDelayReq_tail self seqId origin
  rw [hpack]
  constructor
  · exact rdShift_put48 hfront origin.secs_lt
  · rw [← List.append_nil (put32 origin.nanoseconds), ← List.append_assoc]
    exact rd32_put32 (by simp [hfront, length_put48]) origin.nanoseconds

theorem ptpUnpackTimestamp_ptpPackDelayReq (self : MsgHeader) (seqId : UInt16) (ts : Timestamp) :
    ptpUnpackTimestamp (ptpPackDelayReq self seqId ts) 34 = some ts := by
  obtain ⟨hsecs, hns⟩ := ptpPackDelayReq_origin self seqId ts
  simp only [ptpUnpackTimestamp, be48, be32, hsecs, hns, Option.bind_eq_bind, Option.bind_some,
    Option.some.injEq]
  have hmsb : (ts.secs >>> 32).toUInt16 = ts.msb := by
    apply UInt16.toNat_inj.mp
    have hlsb : ts.lsb.toNat < 2 ^ 32 := ts.lsb.toNat_lt
    have hmsb : ts.msb.toNat < 2 ^ 16 := ts.msb.toNat_lt
    simp only [UInt64.toNat_toUInt16, UInt64.toNat_shiftRight, Nat.shiftRight_eq_div_pow,
      UInt64.reduceToNat, Nat.reduceMod, Nat.reducePow, ts.toNat_secs]
    omega
  have hlsb : ts.secs.toUInt32 = ts.lsb := by
    apply UInt32.toNat_inj.mp
    have hlsb : ts.lsb.toNat < 2 ^ 32 := ts.lsb.toNat_lt
    simp only [UInt64.toNat_toUInt32, ts.toNat_secs]
    omega
  rw [hmsb, hlsb]

/-- **A request is read back as it was written**, for every header, sequence id and
    time stamp: its 44 bytes have a header of type Delay_Req, version 2 and length 44
    with no flags and no correction, and the time stamp follows it. -/
theorem delay_req_round_trip (self : MsgHeader) (seqId : UInt16) (origin : Timestamp) :
    let buf := ptpPackDelayReq self seqId origin
    buf.length = 44 ∧
    ptpUnpackHeader buf = some (0x1,
      { self with
        transportSpecific := 0, messageType := 0x1, versionPTP := 2, messageLength := 44
        flagField0 := 0, flagField1 := 0, correctionField := ⟨0, 0⟩, sequenceId := seqId
        controlField := 1, logMessageInterval := 0x7F }) ∧
    ptpUnpackTimestamp buf 34 = some origin := by
  intro buf
  refine ⟨length_ptpPackDelayReq self seqId origin, ?_, ?_⟩
  · have hhead : buf = _ := ptpPackDelayReq_head self seqId origin
    have hlength : be16 buf 2 = some 44 := by rw [hhead]; rfl
    have hcorrection : be64 buf 8 = some 0 := by rw [hhead]; rfl
    have hidentity : copyBytes buf 20 8 = some self.clockIdentity := by
      rw [hhead]
      exact copyBytes_append rfl self.clockIdentity
    have hport : be16 buf 28 = some self.portNumber := by
      rw [hhead, ← List.append_assoc]
      exact rd16_put16 (by simp) self.portNumber
    have hseq : be16 buf 30 = some seqId := sequenceId_ptpPackDelayReq self seqId origin
    have hcontrol : buf[32]? = some 0x01 ∧ buf[33]? = some 0x7F := by
      rw [hhead, ← List.append_assoc, ← List.append_assoc, ← List.append_assoc]
      constructor
      · rw [List.getElem?_append_right (by simp [put16])]
        simp [put16]
      · rw [List.getElem?_append_right (by simp [put16])]
        simp [put16]
    have hfixed : buf[0]? = some 0x01 ∧ buf[1]? = some 0x02 ∧ buf[4]? = some self.domainNumber ∧
        buf[6]? = some 0 ∧ buf[7]? = some 0 := by
      rw [hhead]
      exact ⟨rfl, rfl, rfl, rfl, rfl⟩
    obtain ⟨h0, h1, h4, h6, h7⟩ := hfixed
    simp only [ptpUnpackHeader, h0, h1, h4, h6, h7, hlength, hcorrection, hidentity, hport, hseq,
      hcontrol, Option.bind_eq_bind, Option.bind_some]
    rfl
  · exact ptpUnpackTimestamp_ptpPackDelayReq self seqId origin

/-! ### Nanoseconds -/

/-- Both readers see the same seconds and nanoseconds. -/
theorem rdTsNs_eq {secs : UInt64} {ns : UInt32} (o : Overflow) (hsecs : rdShift b i 6 0 = some secs)
    (hns : rd32 b (i + 6) = some ns) :
    rdTsNs o b i = (o.mul secs.toInt64 nsPerS).bind fun s => o.add s ns.toUInt64.toInt64 := by
  simp only [rdTsNs, hsecs, hns, Option.bind_eq_bind, Option.bind_some]

/-- The conversion of 48-bit seconds is exact if and only if the result fits. -/
theorem nsOfSecs_iff {secs : UInt64} (hsecs : secs.toNat < 2 ^ 48) (ns : UInt32) :
    (∀ o : Overflow, ∃ v, ((o.mul secs.toInt64 nsPerS).bind fun s => o.add s ns.toUInt64.toInt64) =
        some v ∧ v.toInt = secs.toNat * 1000000000 + ns.toNat) ↔
      secs.toNat * 1000000000 + ns.toNat < 2 ^ 63 := by
  have hns : ns.toUInt64.toInt64.toInt = ns.toNat := by
    have hlt : ns.toNat < 2 ^ 32 := ns.toNat_lt
    rw [Overflow.toInt_toInt64 (by rw [UInt32.toNat_toUInt64]; omega), UInt32.toNat_toUInt64]
  have hs : secs.toInt64.toInt = secs.toNat := Overflow.toInt_toInt64 (by omega)
  have hnano : nsPerS.toInt = 1000000000 := rfl
  constructor
  · intro h
    obtain ⟨v, -, hv⟩ := h .trap
    have hlt := v.toInt_lt
    omega
  · intro h o
    refine Overflow.exists_bind (o.exists_mul hs hnano (by constructor <;> omega)) fun s hsval => ?_
    exact o.exists_add hsval hns (by constructor <;> omega)

/-- **Time stamps on the wire.**  The ten bytes from `i` on are a number of seconds and
    one of nanoseconds.  `ptp_unpack_timestamp` finds both, and `rd_ts_ns` returns the
    nanoseconds they stand for, whatever overflow does, if and only if these are less
    than `2 ^ 63`. -/
theorem wire_timestamp_iff (b : Bytes) (i : Nat) (hlen : i + 10 ≤ b.length) :
    ∃ ts, ptpUnpackTimestamp b i = some ts ∧
      ts.secs.toNat = BigEndian.value (slice b i 6) ∧
      ts.nanoseconds.toNat = BigEndian.value (slice b (i + 6) 4) ∧
      ((∀ o : Overflow, ∃ v, rdTsNs o b i = some v ∧
          v.toInt = ts.secs.toNat * 1000000000 + ts.nanoseconds.toNat) ↔
        ts.secs.toNat * 1000000000 + ts.nanoseconds.toNat < 2 ^ 63) := by
  obtain ⟨secs, hsecs, hvalue⟩ := rdShift_eq (b := b) (i := i) (n := 6) (v := 0) (by omega)
    (by decide)
  obtain ⟨ns, hns, hnsvalue⟩ := rd32_eq (b := b) (i := i + 6) (by omega)
  have hvalue' : secs.toNat = BigEndian.value (slice b i 6) := by simpa using hvalue
  have hlt : secs.toNat < 2 ^ 48 := by
    have h := BigEndian.value_lt (slice b i 6)
    rw [length_slice (by omega)] at h
    omega
  refine ⟨⟨(secs >>> 32).toUInt16, secs.toUInt32, ns⟩, ?_, ?_, hnsvalue, ?_⟩
  · simp only [ptpUnpackTimestamp, be48, be32, hsecs, hns, Option.bind_eq_bind, Option.bind_some]
  · rw [toNat_secs_split hlt, hvalue']
  · simp only [rdTsNs_eq _ hsecs hns, toNat_secs_split hlt]
    exact nsOfSecs_iff hlt ns

/-- A time stamp of the year 2024, half a second after a full one. -/
theorem wire_timestamp_iff_2024 :
    ∃ ts, ptpUnpackTimestamp [0, 0, 0x65, 0x9E, 0x3F, 0x10, 0x1D, 0xCD, 0x65, 0x00] 0 = some ts ∧
      ts.secs.toNat = 1704869648 ∧ ts.nanoseconds.toNat = 500000000 ∧
      ∀ o : Overflow, ∃ v,
        rdTsNs o [0, 0, 0x65, 0x9E, 0x3F, 0x10, 0x1D, 0xCD, 0x65, 0x00] 0 = some v ∧
          v.toInt = 1704869648 * 1000000000 + 500000000 := by
  obtain ⟨ts, hts, hsecs, hns, hiff⟩ := wire_timestamp_iff
    [0, 0, 0x65, 0x9E, 0x3F, 0x10, 0x1D, 0xCD, 0x65, 0x00] 0 (by decide)
  have hsecs' : ts.secs.toNat = 1704869648 := hsecs.trans (by decide)
  have hns' : ts.nanoseconds.toNat = 500000000 := hns.trans (by decide)
  rw [hsecs', hns'] at hiff
  exact ⟨ts, hts, hsecs', hns', hiff.mpr (by decide)⟩

/-- A time stamp of the year 2262: its seconds are read, but its nanoseconds overflow. -/
theorem wire_timestamp_overflow :
    ptpUnpackTimestamp [0, 2, 0x25, 0xC1, 0x7D, 0x05, 0, 0, 0, 0] 0 = some ⟨2, 0x25C17D05, 0⟩ ∧
    rdTsNs .trap [0, 2, 0x25, 0xC1, 0x7D, 0x05, 0, 0, 0, 0] 0 = none ∧
    rdTsNs .wrap [0, 2, 0x25, 0xC1, 0x7D, 0x05, 0, 0, 0, 0] 0 = some (-9223372036709551616) := by
  decide +kernel

/-! ### The origin of a request -/

/-- The quotient and the remainder of a time, with the seconds as a signed number of
    32 bits. -/
theorem ptpNsToTime_parts (o : Overflow) {ns : Int64} (hlow : 0 ≤ ns.toInt)
    (hhigh : ns.toInt < 2 ^ 32 * 1000000000) :
    ∃ seconds nanoseconds : Int32, ptpNsToTime o ns = ptpTimeNormalize o ⟨seconds, nanoseconds⟩ ∧
      nanoseconds.toInt = ns.toInt % 1000000000 ∧
      seconds.toInt = if ns.toInt < 2 ^ 31 * 1000000000 then ns.toInt / 1000000000
        else ns.toInt / 1000000000 - 2 ^ 32 := by
  have hne : nsPerS ≠ 0 := by decide
  have hnano : nsPerS.toInt = 1000000000 := rfl
  have hquot : ns.toInt.tdiv 1000000000 = ns.toInt / 1000000000 :=
    Int.tdiv_eq_ediv_of_nonneg hlow
  have hrem : ns.toInt.tmod 1000000000 = ns.toInt % 1000000000 :=
    Int.tmod_eq_emod_of_nonneg hlow
  obtain ⟨q, hq, hqval⟩ := o.exists_div (a := ns) hne (by
    rw [hnano, hquot]
    constructor <;> omega)
  obtain ⟨r, hr, hrval⟩ := o.exists_mod (a := ns) hne (by
    rw [hnano, hrem]
    constructor <;> omega)
  rw [hnano, hquot] at hqval
  rw [hnano, hrem] at hrval
  refine ⟨q.toInt32, r.toInt32, ?_, ?_, ?_⟩
  · simp only [ptpNsToTime, hq, hr, Option.bind_eq_bind, Option.bind_some]
  · rw [Int64.toInt_toInt32, hrval]
    exact Int.bmod_eq_of_le (by omega) (by omega)
  · rw [Int64.toInt_toInt32, hqval]
    split
    · exact Int.bmod_eq_of_le (by omega) (by omega)
    · rw [← Int.sub_bmod_right]
      exact Int.bmod_eq_of_le (by omega) (by omega)

/-- Normalisation of a remainder that is less than a second: with negative seconds a
    second is carried into the nanoseconds. -/
theorem ptpTimeNormalize_of_range (o : Overflow) {t : TimeInternal} (hlow : 0 ≤ t.nanoseconds.toInt)
    (hhigh : t.nanoseconds.toInt < 1000000000) :
    ∃ t', ptpTimeNormalize o t = some t' ∧
      if t.seconds.toInt < 0 ∧ 0 < t.nanoseconds.toInt then
        t'.seconds.toInt = t.seconds.toInt + 1 ∧
          t'.nanoseconds.toInt = t.nanoseconds.toInt - 1000000000
      else t' = t := by
  have hquot : t.nanoseconds.toInt.tdiv 1000000000 = 0 := Int.tdiv_eq_zero_of_lt hlow hhigh
  have hrem : t.nanoseconds.toInt.tmod 1000000000 = t.nanoseconds.toInt := Int.tmod_eq_of_lt hlow hhigh
  have hzero : (0 : Int32).toInt = 0 := rfl
  simp only [ptpTimeNormalize, hquot, hrem, Int.add_zero, Overflow.to32_toInt, Option.bind_eq_bind,
    Option.bind_some, gt_iff_lt, Int32.lt_iff_toInt_lt, hzero]
  rw [if_neg (by omega)]
  split
  · rename_i hcarry
    have hseconds := t.seconds.le_toInt
    obtain ⟨s, hs, hsval⟩ := o.exists_to32 (z := t.seconds.toInt + 1) (by constructor <;> omega)
    obtain ⟨n, hn, hnval⟩ := o.exists_to32 (z := t.nanoseconds.toInt - 1000000000)
      (by constructor <;> omega)
    rw [hs, hn]
    exact ⟨⟨s, n⟩, rfl, hsval, hnval⟩
  · exact ⟨t, rfl, rfl⟩

theorem ptpInternalToTs_ptpNsToTime (o : Overflow) {ns : Int64} (hlow : 0 ≤ ns.toInt)
    (hhigh : ns.toInt < 2 ^ 32 * 1000000000) :
    ∃ t, ptpNsToTime o ns = some t ∧
      if ns.toInt < 2 ^ 31 * 1000000000 ∨ ns.toInt % 1000000000 = 0 then
        ((ptpInternalToTs t).secs.toNat : Int) = ns.toInt / 1000000000 ∧
          ((ptpInternalToTs t).nanoseconds.toNat : Int) = ns.toInt % 1000000000
      else
        1000000000 ≤ ((ptpInternalToTs t).nanoseconds.toNat : Int) ∧
          ((ptpInternalToTs t).secs.toNat : Int) < 2 ^ 32 := by
  obtain ⟨seconds, nanoseconds, heq, hns, hsecs⟩ := ptpNsToTime_parts o hlow hhigh
  obtain ⟨t, ht, hparts⟩ := ptpTimeNormalize_of_range o (t := ⟨seconds, nanoseconds⟩)
    (by rw [hns]; omega) (by rw [hns]; omega)
  refine ⟨t, heq.trans ht, ?_⟩
  have hlsb := Overflow.toNat_toUInt32 t.seconds
  have hnano := Overflow.toNat_toUInt32 t.nanoseconds
  have htotal : ((ptpInternalToTs t).secs.toNat : Int) = t.seconds.toUInt32.toNat := by
    rw [Timestamp.toNat_secs]
    simp [ptpInternalToTs]
  have hfield : ((ptpInternalToTs t).nanoseconds.toNat : Int) = t.nanoseconds.toUInt32.toNat := rfl
  rw [htotal, hfield, hlsb, hnano]
  by_cases hsmall : ns.toInt < 2 ^ 31 * 1000000000
  · rw [if_pos hsmall] at hsecs
    rw [if_neg (by simp only [hsecs]; omega)] at hparts
    rw [if_pos (Or.inl hsmall), hparts, hsecs, hns]
    omega
  rw [if_neg hsmall] at hsecs
  by_cases hwhole : ns.toInt % 1000000000 = 0
  · rw [if_neg (by simp only [hns]; omega)] at hparts
    rw [if_pos (Or.inr hwhole), hparts, hsecs, hns]
    omega
  · -- from 2038 on the seconds are negative, and the carry makes the nanoseconds so
    rw [if_pos (by simp only [hns, hsecs]; omega)] at hparts
    simp only [hns, hsecs] at hparts
    rw [if_neg (by omega), hparts.1, hparts.2]
    omega

/-- **The origin time of a request.**  For every clock time of less than `2 ^ 32`
    seconds and whatever overflow does, the time stamp in a request is read back as that
    time, with less than a second of nanoseconds, if and only if the time is less than
    `2 ^ 31` seconds or a whole number of seconds. -/
theorem origin_timestamp_iff (o : Overflow) (self : MsgHeader) (seqId : UInt16) (ns : Int64)
    (hlow : 0 ≤ ns.toInt) (hhigh : ns.toInt < 2 ^ 32 * 1000000000) :
    ∃ t v field, ptpNsToTime o ns = some t ∧
      rdTsNs o (ptpPackDelayReq self seqId (ptpInternalToTs t)) 34 = some v ∧
      rd32 (ptpPackDelayReq self seqId (ptpInternalToTs t)) 40 = some field ∧
      ((v = ns ∧ field.toNat < 1000000000) ↔
        ns.toInt < 2 ^ 31 * 1000000000 ∨ ns.toInt % 1000000000 = 0) := by
  obtain ⟨t, ht, hparts⟩ := ptpInternalToTs_ptpNsToTime o hlow hhigh
  obtain ⟨hsecs, hfield⟩ := ptpPackDelayReq_origin self seqId (ptpInternalToTs t)
  have hnano := (ptpInternalToTs t).nanoseconds.toNat_lt
  have hbound : (ptpInternalToTs t).secs.toNat < 2 ^ 32 := by
    split at hparts <;> omega
  obtain ⟨v, hv, hvval⟩ := (nsOfSecs_iff (ptpInternalToTs t).secs_lt
    (ptpInternalToTs t).nanoseconds).mpr (by omega) o
  refine ⟨t, v, _, ht, (rdTsNs_eq o hsecs hfield).trans hv, hfield, ?_⟩
  split at hparts
  · rename_i hgood
    refine ⟨fun _ => hgood, fun _ => ⟨?_, by omega⟩⟩
    apply Int64.toInt_inj.mp
    rw [hvval]
    omega
  · rename_i hbad
    refine ⟨fun hexact => ?_, fun hgood => absurd hgood hbad⟩
    omega

theorem origin_timestamp_iff_one :
    (0 ≤ (1 : Int64).toInt ∧ (1 : Int64).toInt < 2 ^ 32 * 1000000000) ∧
    ∃ t v field, ptpNsToTime .trap 1 = some t ∧
      rdTsNs .trap (ptpPackDelayReq ⟨0, Vector.replicate 8 0, 1⟩ 1 (ptpInternalToTs t)) 34 = some v ∧
      rd32 (ptpPackDelayReq ⟨0, Vector.replicate 8 0, 1⟩ 1 (ptpInternalToTs t)) 40 = some field ∧
      ((v = 1 ∧ field.toNat < 1000000000) ↔
        (1 : Int64).toInt < 2 ^ 31 * 1000000000 ∨ (1 : Int64).toInt % 1000000000 = 0) :=
  ⟨by decide, origin_timestamp_iff .trap ⟨0, Vector.replicate 8 0, 1⟩ 1 1 (by decide) (by decide)⟩

/-- One nanosecond after `2 ^ 31` seconds: the stamp reads `2 ^ 32` nanoseconds late,
    and its nanoseconds are more than three seconds. -/
theorem origin_timestamp_2038 :
    ∃ t, ptpNsToTime .trap 2147483648000000001 = some t ∧
      rdTsNs .trap (ptpPackDelayReq ⟨0, Vector.replicate 8 0, 1⟩ 1 (ptpInternalToTs t)) 34 =
        some 2147483652294967297 ∧
      rd32 (ptpPackDelayReq ⟨0, Vector.replicate 8 0, 1⟩ 1 (ptpInternalToTs t)) 40 =
        some 3294967297 :=
  ⟨⟨-2147483647, -999999999⟩, by decide +kernel⟩

end FlintRTOS
