import FlintRTOS.Machine
import Mathlib.Logic.Function.Basic

/-!
# Receiving frames

`genet_recv`, `genet_isr` and `rx_stamp_new` of `genet.c`, against a DMA that stores
and completes frames at any time.  The ring has 256 descriptors, each with its own
buffer; the DMA fills them in order as long as it is less than 256 ahead of the
consumer index the driver has written.

The call is cut at every access to a register or to a buffer.  The interrupt comes
between any two of them unless the call has masked it, runs to its end before the
call goes on, and is cut at its own register accesses.

Beside the state of the driver and of the device stands what has happened: the
frames completed, the values read from the counter, and for every frame that has
been stamped which of these values it got.
-/

namespace FlintRTOS.GenetRx

def rxDescs : UInt32 := 256

def rxBufLength : Nat := 2048

def rxBufOffset : UInt16 := 2

def dmaBdLengthShift : UInt32 := 16

def dmaBdLengthMask : UInt32 := 0x0FFF

/-- `DMA_SOP | DMA_EOP`. -/
def dmaSopEop : UInt32 := (1 : UInt32) <<< 13 ||| (1 : UInt32) <<< 14

def dmaRxErrMask : UInt32 := 0x1F

def umacIrqRxdmaMbdone : UInt32 := (1 : UInt32) <<< 13

/-- The length in a descriptor's status word. -/
def statusLen (status : UInt32) : UInt16 :=
  ((status >>> dmaBdLengthShift) &&& dmaBdLengthMask).toUInt16

/-- Fragments and frames the MAC flagged as bad. -/
def dropped (status : UInt32) : Bool :=
  status &&& dmaSopEop ≠ dmaSopEop ∨ status &&& dmaRxErrMask ≠ 0 ∨ statusLen status ≤ rxBufOffset

/-- A completed frame: what was in its buffer and its descriptor then, how many values
    had been read from the counter, and whether the last of them belonged to a stamping
    that had still to read the producer index. -/
structure Frame where
  bytes : Nat → UInt8
  status : UInt32
  samples : Nat
  inWindow : Bool

/-- What `genet_recv` returns, with the room its caller had, the number of the frame and
    of the counter values read by then. -/
structure Received where
  room : UInt16
  number : Nat
  len : UInt16
  ts : UInt64
  bytes : List UInt8
  samples : Nat
deriving DecidableEq, Repr

/-- The next access of `genet_recv`, which was called with room for `len` bytes, or
    outside it with what it has returned. -/
inductive Recv where
  | outside (last : Option (Option Received))
  | readProd (len : UInt16)
  | readStatus (len : UInt16)
  | mask (len : UInt16) (status : UInt32)
  | sample (len : UInt16) (status : UInt32)
  | readIndex (len : UInt16) (status : UInt32) (now : UInt64)
  | release (len : UInt16) (status : UInt32) (ts : UInt64)
  | copy (len : UInt16) (number i : Nat) (rlen : UInt16) (ts : UInt64) (bytes : List UInt8)
deriving DecidableEq, Repr

/-- The next access of `genet_isr`. -/
inductive Isr where
  | idle
  | sample
  | readIndex (now : UInt64)
deriving DecidableEq, Repr

def Recv.isOutside : Recv → Bool
  | .outside _ => true
  | _ => false

/-- The interrupt is masked. -/
def Recv.masked : Recv → Bool
  | .sample .. => true
  | .readIndex .. => true
  | _ => false

/-- The counter has been read and the producer index comes next. -/
def Recv.reading : Recv → Bool
  | .readIndex .. => true
  | _ => false

def Isr.reading : Isr → Bool
  | .readIndex _ => true
  | _ => false

structure State where
  prodIndex : UInt16
  consIndex : UInt16
  desc : Nat → UInt32
  rxBuf : Nat → Nat → UInt8
  rxCons : UInt32
  rxTsSeen : UInt32
  rxTsLate : UInt32
  rxDrop : UInt32
  rxTs : Nat → UInt64
  recv : Recv
  isr : Isr
  frames : List Frame
  samples : List UInt64
  stamps : List Nat
  taken : Nat

namespace State

variable (s : State)

/-- The register as the driver reads it. -/
def prod : UInt32 := s.prodIndex.toUInt32 &&& 0xFFFF

/-- The descriptor `genet_recv` looks at. -/
def slot : Nat := (s.rxCons % rxDescs).toNat

/-- The descriptor the DMA fills. -/
def dmaSlot : Nat := s.prodIndex.toNat % 256

/-- One turn of the loop of `rx_stamp_new`. -/
def stamp (fromIsr : Bool) (now : UInt64) : State :=
  { s with
    rxTs := Function.update s.rxTs (s.rxTsSeen % rxDescs).toNat now
    rxTsSeen := s.rxTsSeen + 1
    rxTsLate := if fromIsr then s.rxTsLate else s.rxTsLate + 1
    stamps := s.stamps ++ [s.samples.length - 1] }

/-- The loop, with `n` turns left. -/
def stampLoop (fromIsr : Bool) (prod : UInt32) (now : UInt64) : Nat → State → State
  | 0, s => s
  | n + 1, s =>
      if s.rxTsSeen &&& 0xFFFF ≠ prod then stampLoop fromIsr prod now n (s.stamp fromIsr now)
      else s

/-- `rx_stamp_new` from its read of the producer index on. -/
def stampNew (fromIsr : Bool) (now : UInt64) : State :=
  stampLoop fromIsr s.prod now rxDescs.toNat s

/-- The next access of the call; `now` is the counter. -/
def next (now : UInt64) : Option State :=
  match s.recv with
  | .outside _ => none
  | .readProd len =>
      if s.rxCons &&& 0xFFFF = s.prod then some { s with recv := .outside (some none) }
      else some { s with recv := .readStatus len }
  | .readStatus len => some { s with recv := .mask len (s.desc s.slot) }
  | .mask len status =>
      if s.rxTsSeen - s.rxCons = 0 then some { s with recv := .sample len status }
      else some { s with recv := .release len status (s.rxTs s.slot) }
  | .sample len status =>
      some { s with recv := .readIndex len status now, samples := s.samples ++ [now] }
  | .readIndex len status now =>
      let s := s.stampNew false now
      some { s with recv := .release len status (s.rxTs s.slot) }
  | .release len status ts =>
      let released := { s with
        rxCons := s.rxCons + 1
        consIndex := ((s.rxCons + 1) &&& 0xFFFF).toUInt16
        taken := s.taken + 1 }
      if dropped status then
        some { released with rxDrop := s.rxDrop + 1, recv := .readProd len }
      else
        let rlen := statusLen status - rxBufOffset
        some { released with
          recv := .copy len s.taken s.slot (if rlen > len then len else rlen) ts [] }
  | .copy len number i rlen ts bytes =>
      if bytes.length < rlen.toNat then
        some { s with
          recv := .copy len number i rlen ts
            (bytes ++ [s.rxBuf i (rxBufOffset.toNat + bytes.length)]) }
      else
        some { s with
          recv := .outside (some (some ⟨len, number, rlen, ts, bytes, s.samples.length⟩)) }

/-- The next access of the interrupt. -/
def isrNext (now : UInt64) : Option State :=
  match s.isr with
  | .idle => none
  | .sample => some { s with isr := .readIndex now, samples := s.samples ++ [now] }
  | .readIndex now => some { s.stampNew true now with isr := .idle }

/-- A stamping has read the counter and not yet the producer index. -/
def stamping : Bool := s.isr.reading || s.recv.reading

end State

inductive Action where
  | call (len : UInt16)
  | next (now : UInt64)
  | irq (stat : UInt32)
  | isrNext (now : UInt64)
  | store (off : Nat) (b : UInt8)
  | complete (status : UInt32)
deriving DecidableEq, Repr

namespace State

def exec (s : State) : Action → Option State
  | .call len => some { s with recv := .readProd len }
  | .next now => s.next now
  | .irq stat => some (if stat &&& umacIrqRxdmaMbdone ≠ 0 then { s with isr := .sample } else s)
  | .isrNext now => s.isrNext now
  | .store off b =>
      some { s with
        rxBuf := Function.update s.rxBuf s.dmaSlot (Function.update (s.rxBuf s.dmaSlot) off b) }
  | .complete status =>
      some { s with
        prodIndex := s.prodIndex + 1
        desc := Function.update s.desc s.dmaSlot status
        frames := s.frames ++ [⟨s.rxBuf s.dmaSlot, status, s.samples.length, s.stamping⟩] }

/-- The DMA may use the next descriptor. -/
def hasRoom (s : State) : Prop := (s.prodIndex - s.consIndex).toNat < 256

instance (s : State) : Decidable s.hasRoom := inferInstanceAs (Decidable (_ < _))

/-- The DMA stays in the buffer, whose size the ring was set up with. -/
def guard (s : State) : Action → Prop
  | .call _ => s.recv.isOutside ∧ s.isr = .idle
  | .next _ => ¬ s.recv.isOutside ∧ s.isr = .idle
  | .irq _ => s.isr = .idle ∧ ¬ s.recv.masked
  | .isrNext _ => s.isr ≠ .idle
  | .store off _ => s.hasRoom ∧ off < rxBufLength
  | .complete status => s.hasRoom ∧ (statusLen status).toNat ≤ rxBufLength

instance (s : State) (a : Action) : Decidable (s.guard a) :=
  match a with
  | .call _ | .next _ | .irq _ | .store .. | .complete _ => inferInstanceAs (Decidable (_ ∧ _))
  | .isrNext _ => inferInstanceAs (Decidable (_ ≠ _))

end State

/-- After `genet_init`, when no frame has completed. -/
def initial : State where
  prodIndex := 0
  consIndex := 0
  desc := fun _ => 0
  rxBuf := fun _ _ => 0
  rxCons := 0
  rxTsSeen := 0
  rxTsLate := 0
  rxDrop := 0
  rxTs := fun _ => 0
  recv := .outside none
  isr := .idle
  frames := []
  samples := []
  stamps := []
  taken := 0

def genetRx : Machine State Action where
  init := initial
  guard := State.guard
  exec := State.exec

instance (s : State) (a : Action) : Decidable (genetRx.guard s a) :=
  inferInstanceAs (Decidable (s.guard a))

/-! ### What an access of the call does -/

namespace State

/-- The descriptor is handed back to the DMA. -/
def released (s : State) : State :=
  { s with
    rxCons := s.rxCons + 1
    consIndex := ((s.rxCons + 1) &&& 0xFFFF).toUInt16
    taken := s.taken + 1 }

/-- How much of a frame is copied into room for `len` bytes. -/
def copyLen (len : UInt16) (status : UInt32) : UInt16 :=
  if statusLen status - rxBufOffset > len then len else statusLen status - rxBufOffset

/-- The length of a frame that is not dropped, or the room if that is less. -/
theorem toNat_copyLen (len : UInt16) {status : UInt32} (h : ¬ dropped status) :
    (copyLen len status).toNat =
      min ((statusLen status).toNat - rxBufOffset.toNat) len.toNat := by
  have hlong : rxBufOffset ≤ statusLen status := by
    simp only [dropped, decide_eq_true_eq, not_or] at h
    exact UInt16.le_of_lt (UInt16.not_le.mp h.2.2)
  rw [← UInt16.toNat_sub_of_le _ _ hlong]
  unfold copyLen
  split
  · next hroom => exact (Nat.min_eq_right (UInt16.le_iff_toNat_le.mp (UInt16.le_of_lt hroom))).symm
  · next hroom => exact (Nat.min_eq_left (UInt16.le_iff_toNat_le.mp (UInt16.not_lt.mp hroom))).symm

/-- What an access of the call can do, and when. -/
inductive Next (s : State) (now : UInt64) : State → Prop where
  | empty {len : UInt16} (hat : s.recv = .readProd len) (hprod : s.rxCons &&& 0xFFFF = s.prod) :
      Next s now { s with recv := .outside (some none) }
  | found {len : UInt16} (hat : s.recv = .readProd len) (hprod : s.rxCons &&& 0xFFFF ≠ s.prod) :
      Next s now { s with recv := .readStatus len }
  | status {len : UInt16} (hat : s.recv = .readStatus len) :
      Next s now { s with recv := .mask len (s.desc s.slot) }
  | late {len : UInt16} {status : UInt32} (hat : s.recv = .mask len status)
      (hseen : s.rxTsSeen - s.rxCons = 0) : Next s now { s with recv := .sample len status }
  | seen {len : UInt16} {status : UInt32} (hat : s.recv = .mask len status)
      (hseen : s.rxTsSeen - s.rxCons ≠ 0) :
      Next s now { s with recv := .release len status (s.rxTs s.slot) }
  | sample {len : UInt16} {status : UInt32} (hat : s.recv = .sample len status) :
      Next s now { s with recv := .readIndex len status now, samples := s.samples ++ [now] }
  | stamp {len : UInt16} {status : UInt32} {read : UInt64}
      (hat : s.recv = .readIndex len status read) :
      Next s now { s.stampNew false read with
        recv := .release len status ((s.stampNew false read).rxTs (s.stampNew false read).slot) }
  | drop {len : UInt16} {status : UInt32} {ts : UInt64} (hat : s.recv = .release len status ts)
      (hdrop : dropped status) :
      Next s now { s.released with rxDrop := s.rxDrop + 1, recv := .readProd len }
  | take {len : UInt16} {status : UInt32} {ts : UInt64} (hat : s.recv = .release len status ts)
      (hdrop : ¬ dropped status) :
      Next s now { s.released with
        recv := .copy len s.taken s.slot (copyLen len status) ts [] }
  | byte {len : UInt16} {number i : Nat} {rlen : UInt16} {ts : UInt64} {bytes : List UInt8}
      (hat : s.recv = .copy len number i rlen ts bytes) (hmore : bytes.length < rlen.toNat) :
      Next s now { s with
        recv := .copy len number i rlen ts
          (bytes ++ [s.rxBuf i (rxBufOffset.toNat + bytes.length)]) }
  | done {len : UInt16} {number i : Nat} {rlen : UInt16} {ts : UInt64} {bytes : List UInt8}
      (hat : s.recv = .copy len number i rlen ts bytes) (hend : rlen.toNat ≤ bytes.length) :
      Next s now { s with
        recv := .outside (some (some ⟨len, number, rlen, ts, bytes, s.samples.length⟩)) }

theorem next_cases {s s' : State} {now : UInt64} (h : s.next now = some s') :
    s.Next now s' := by
  unfold next at h
  cases hat : s.recv with
  | outside last =>
    rw [hat] at h
    cases h
  | readProd len =>
    rw [hat] at h
    simp only at h
    split at h
    · next hprod => cases h; exact .empty hat hprod
    · next hprod => cases h; exact .found hat hprod
  | readStatus len =>
    rw [hat] at h
    cases h
    exact .status hat
  | mask len status =>
    rw [hat] at h
    simp only at h
    split at h
    · next hseen => cases h; exact .late hat hseen
    · next hseen => cases h; exact .seen hat hseen
  | sample len status =>
    rw [hat] at h
    cases h
    exact .sample hat
  | readIndex len status read =>
    rw [hat] at h
    cases h
    exact .stamp hat
  | release len status ts =>
    rw [hat] at h
    simp only at h
    split at h
    · next hdrop => cases h; exact .drop hat hdrop
    · next hdrop => cases h; exact .take hat hdrop
  | copy len number i rlen ts bytes =>
    rw [hat] at h
    simp only at h
    split at h
    · next hmore => cases h; exact .byte hat hmore
    · next hend => cases h; exact .done hat (Nat.le_of_not_lt hend)

end State

end FlintRTOS.GenetRx
