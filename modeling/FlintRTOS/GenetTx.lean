import FlintRTOS.Machine
import Mathlib.Logic.Function.Basic
import Mathlib.Data.List.Basic

/-!
# Sending frames

`genet_send` of `genet.c`.  The transmit ring has 256 descriptors and the frames are
copied into a pool of 32 buffers; both are taken round robin by the producer index,
which runs freely.  The DMA takes the queued frames in order, at any time, and may do
so between any two memory accesses of the call, so the call is cut at each of them.

A frame keeps its descriptor and its buffer until the DMA has taken it.  The index of
the DMA is not read by the call: `send_overwrites_iff` says exactly when it writes
over a frame that is still queued.
-/

namespace FlintRTOS.GenetTx

def txDescs : UInt32 := 256

def rxBufLength : UInt16 := 2048

/-- `DMA_TX_QTAG | DMA_SOP | DMA_EOP | DMA_TX_APPEND_CRC`. -/
def txFlags : UInt32 := (0x3F : UInt32) <<< 7 ||| (1 : UInt32) <<< 13 ||| (1 : UInt32) <<< 14 |||
  (1 : UInt32) <<< 6

/-- What a write of the call goes to. -/
inductive Target where
  | buffer (bi : Nat)
  | descriptor (di : Nat)
deriving DecidableEq, Repr

/-- A queued frame, by what it occupies. -/
structure Slot where
  di : Nat
  bi : Nat
deriving DecidableEq, Repr

def Slot.owns (f : Slot) : Target → Bool
  | .buffer bi => f.bi = bi
  | .descriptor di => f.di = di

/-- The next access of `genet_send`, or outside it with what it has returned. -/
inductive Stage where
  | outside (last : Option Bool)
  | copy (frame : List UInt8) (done : Nat)
  | addressHigh (len : UInt16)
  | lenStat (len : UInt16)
  | doorbell
deriving DecidableEq, Repr

/-- The driver and the ring, with the queued frames that the DMA has not taken, the
    number of frames queued so far and the target of the last write. -/
structure State where
  txProd : UInt32
  txBuf : Nat → Nat → UInt8
  desc : Nat → Nat → UInt32
  txTs : UInt64
  prodIndex : UInt16
  consIndex : UInt16
  stage : Stage
  inFlight : List Slot
  queued : Nat
  wrote : Option Target

namespace State

variable (s : State)

def di : Nat := (s.txProd % txDescs).toNat

def bi : Nat := (s.txProd % 32).toNat

def writeBuf (off : Nat) (b : UInt8) : State :=
  { s with
    txBuf := Function.update s.txBuf s.bi (Function.update (s.txBuf s.bi) off b)
    wrote := some (.buffer s.bi) }

def writeDesc (word : Nat) (v : UInt32) : State :=
  { s with
    desc := Function.update s.desc s.di (Function.update (s.desc s.di) word v)
    wrote := some (.descriptor s.di) }

/-- The address of the buffer; `base` is that of the pool. -/
def pa (base : UInt64) : UInt64 := base + UInt64.ofNat (s.bi * rxBufLength.toNat)

/-- The next access of the call; `now` is the counter. -/
def next (base : UInt64) (now : UInt64) : Option State :=
  match s.stage with
  | .outside _ => none
  | .copy frame done =>
      match frame[done]? with
      | some b => some { s.writeBuf done b with stage := .copy frame (done + 1) }
      | none =>
          some { s.writeDesc 1 (s.pa base &&& 0xFFFFFFFF).toUInt32 with
            stage := .addressHigh frame.length.toUInt16 }
  | .addressHigh len =>
      some { s.writeDesc 2 (s.pa base >>> 32).toUInt32 with stage := .lenStat len }
  | .lenStat len =>
      some { s.writeDesc 0 ((len.toUInt32 <<< 16) ||| txFlags) with stage := .doorbell }
  | .doorbell =>
      some { s with
        txProd := s.txProd + 1
        txTs := now
        prodIndex := ((s.txProd + 1) &&& 0xFFFF).toUInt16
        stage := .outside (some true)
        inFlight := s.inFlight ++ [⟨s.di, s.bi⟩]
        queued := s.queued + 1
        wrote := none }

end State

inductive Action where
  | send (frame : List UInt8)
  | next (now : UInt64)
  | consume
deriving DecidableEq, Repr

def State.exec (base : UInt64) (s : State) : Action → Option State
  | .send frame =>
      if frame.length.toUInt16 > rxBufLength then
        some { s with stage := .outside (some false), wrote := none }
      else some { s with stage := .copy frame 0, wrote := none }
  | .next now => s.next base now
  | .consume =>
      some { s with
        consIndex := s.consIndex + 1, inFlight := s.inFlight.tail, wrote := none }

def Stage.isOutside : Stage → Bool
  | .outside _ => true
  | _ => false

def State.guard (s : State) : Action → Prop
  | .send frame => s.stage.isOutside ∧ frame.length < 65536
  | .next _ => ¬ s.stage.isOutside
  | .consume => s.inFlight ≠ []

instance (s : State) (a : Action) : Decidable (s.guard a) :=
  match a with
  | .send _ => inferInstanceAs (Decidable (_ ∧ _))
  | .next _ => inferInstanceAs (Decidable (¬ _))
  | .consume => inferInstanceAs (Decidable (_ ≠ _))

/-- After `tx_ring_init`. -/
def initial : State where
  txProd := 0
  txBuf := fun _ _ => 0
  desc := fun _ _ => 0
  txTs := 0
  prodIndex := 0
  consIndex := 0
  stage := .outside none
  inFlight := []
  queued := 0
  wrote := none

def genetTx (base : UInt64) : Machine State Action where
  init := initial
  guard := State.guard
  exec := State.exec base

/-! ### What is queued -/

variable {base : UInt64} {s : State}

/-- What the `j`-th frame occupies. -/
def slotOf (j : Nat) : Slot := ⟨j % 256, j % 32⟩

/-- The queued frames are the last ones, each with its own descriptor and buffer. -/
structure Inv (s : State) : Prop where
  txProd : s.txProd = UInt32.ofNat s.queued
  length_le : s.inFlight.length ≤ s.queued
  inFlight : s.inFlight =
    (List.range' (s.queued - s.inFlight.length) s.inFlight.length).map slotOf
  buffer : ∀ bi, s.wrote = some (.buffer bi) → bi = s.queued % 32
  descriptor : ∀ di, s.wrote = some (.descriptor di) → di = s.queued % 256

theorem Inv.di_eq (h : Inv s) : s.di = s.queued % 256 := by
  rw [State.di, h.txProd, UInt32.toNat_mod, UInt32.toNat_ofNat']
  exact Nat.mod_mod_of_dvd _ (by decide)

theorem Inv.bi_eq (h : Inv s) : s.bi = s.queued % 32 := by
  rw [State.bi, h.txProd, UInt32.toNat_mod, UInt32.toNat_ofNat']
  exact Nat.mod_mod_of_dvd _ (by decide)

/-- A step that leaves the queue alone writes, if at all, where the next frame goes. -/
theorem Inv.keep (h : Inv s) {s' : State} (hprod : s'.txProd = s.txProd)
    (hflight : s'.inFlight = s.inFlight) (hqueued : s'.queued = s.queued)
    (hwrote : s'.wrote = none ∨ s'.wrote = some (.buffer s.bi) ∨
      s'.wrote = some (.descriptor s.di)) : Inv s' where
  txProd := by
    rw [hprod, hqueued, h.txProd]
  length_le := by
    rw [hflight, hqueued]
    exact h.length_le
  inFlight := by
    rw [hflight, hqueued]
    exact h.inFlight
  buffer := by
    intro bi hbi
    rw [hqueued, ← h.bi_eq]
    rcases hwrote with hw | hw | hw <;> cases hw.symm.trans hbi
    rfl
  descriptor := by
    intro di hdi
    rw [hqueued, ← h.di_eq]
    rcases hwrote with hw | hw | hw <;> cases hw.symm.trans hdi
    rfl

theorem Inv.next (h : Inv s) {now : UInt64} {s' : State} (hnext : s.next base now = some s') :
    Inv s' := by
  unfold State.next at hnext
  split at hnext
  · cases hnext
  · split at hnext
    · cases hnext
      exact h.keep rfl rfl rfl (.inr (.inl rfl))
    · cases hnext
      exact h.keep rfl rfl rfl (.inr (.inr rfl))
  · cases hnext
    exact h.keep rfl rfl rfl (.inr (.inr rfl))
  · cases hnext
    exact h.keep rfl rfl rfl (.inr (.inr rfl))
  · cases hnext
    have hle := h.length_le
    have hslot : (⟨s.di, s.bi⟩ : Slot) = slotOf s.queued := by
      rw [h.di_eq, h.bi_eq]
      rfl
    refine ⟨?_, ?_, ?_, by simp, by simp⟩
    · change s.txProd + 1 = UInt32.ofNat (s.queued + 1)
      rw [h.txProd, UInt32.ofNat_add]
      rfl
    · change (s.inFlight ++ [_]).length ≤ s.queued + 1
      rw [List.length_append, List.length_singleton]
      omega
    · change s.inFlight ++ [_] = (List.range' (s.queued + 1 - (s.inFlight ++ [_]).length)
        (s.inFlight ++ [_]).length).map slotOf
      rw [List.length_append, List.length_singleton, Nat.add_sub_add_right, List.range'_1_concat,
        List.map_append, ← h.inFlight, List.map_singleton, Nat.sub_add_cancel hle, hslot]

theorem Inv.consume (h : Inv s) (hsome : s.inFlight ≠ []) (consIndex : UInt16) :
    Inv { s with consIndex, inFlight := s.inFlight.tail, wrote := none } := by
  have hpos := List.length_pos_iff.mpr hsome
  have hle := h.length_le
  refine ⟨h.txProd, ?_, ?_, by simp, by simp⟩
  · change s.inFlight.tail.length ≤ s.queued
    rw [List.length_tail]
    omega
  · change s.inFlight.tail = (List.range' (s.queued - s.inFlight.tail.length)
      s.inFlight.tail.length).map slotOf
    have hfirst : s.queued - (s.inFlight.length - 1) = s.queued - s.inFlight.length + 1 := by
      omega
    rw [List.length_tail, hfirst]
    conv_lhs => rw [h.inFlight, ← List.map_tail, List.tail_range']

theorem inv_of_reach (h : (genetTx base).Reach s) : Inv s := by
  refine h.invariant ⟨rfl, Nat.le_refl 0, rfl, by simp [genetTx, initial],
    by simp [genetTx, initial]⟩ ?_
  rintro s a s' - hinv ⟨hguard, hexec⟩
  cases a with
  | send frame =>
    change (if _ then _ else _) = some s' at hexec
    split at hexec
    · cases hexec
      exact hinv.keep rfl rfl rfl (.inl rfl)
    · cases hexec
      exact hinv.keep rfl rfl rfl (.inl rfl)
  | next now => exact hinv.next hexec
  | consume =>
    cases hexec
    exact hinv.consume hguard _

theorem Inv.mem_inFlight (h : Inv s) {f : Slot} :
    f ∈ s.inFlight ↔ ∃ j, s.queued - s.inFlight.length ≤ j ∧ j < s.queued ∧ slotOf j = f := by
  have hle := h.length_le
  conv_lhs => rw [h.inFlight]
  rw [List.mem_map]
  refine exists_congr fun j => ?_
  rw [List.mem_range'_1, Nat.sub_add_cancel hle, and_assoc]

/-- How many frames in a row have different buffers, or descriptors. -/
def Target.lap : Target → Nat
  | .buffer _ => 32
  | .descriptor _ => 256

/-- **A write of `genet_send` hits a frame that is still queued** exactly when as many
    frames are queued as there are buffers, or descriptors. -/
theorem send_overwrites_iff (h : (genetTx base).Reach s) {t : Target}
    (hwrote : s.wrote = some t) :
    (∃ f ∈ s.inFlight, f.owns t = true) ↔ t.lap ≤ s.inFlight.length := by
  have hinv := inv_of_reach h
  have hle := hinv.length_le
  simp only [hinv.mem_inFlight]
  constructor
  · rintro ⟨_, ⟨j, hfrom, hto, rfl⟩, howns⟩
    cases t with
    | buffer bi =>
      have hbi := hinv.buffer bi hwrote
      have howns : j % 32 = bi := of_decide_eq_true howns
      change 32 ≤ _
      omega
    | descriptor di =>
      have hdi := hinv.descriptor di hwrote
      have howns : j % 256 = di := of_decide_eq_true howns
      change 256 ≤ _
      omega
  · intro hlap
    refine ⟨slotOf (s.queued - t.lap), ⟨_, by omega, ?_, rfl⟩, ?_⟩
    · cases t with
      | buffer bi =>
        change 32 ≤ _ at hlap
        change s.queued - 32 < s.queued
        omega
      | descriptor di =>
        change 256 ≤ _ at hlap
        change s.queued - 256 < s.queued
        omega
    · cases t with
      | buffer bi =>
        have hbi := hinv.buffer bi hwrote
        change 32 ≤ _ at hlap
        refine decide_eq_true (p := (s.queued - 32) % 32 = bi) ?_
        omega
      | descriptor di =>
        have hdi := hinv.descriptor di hwrote
        change 256 ≤ _ at hlap
        refine decide_eq_true (p := (s.queued - 256) % 256 = di) ?_
        omega

theorem reach_next (h : (genetTx base).Reach s) {s' : State} (hinside : s.stage.isOutside = false)
    (hnext : s.next base 0 = some s') : (genetTx base).Reach s' := by
  refine h.step (a := .next 0) ⟨?_, hnext⟩
  change ¬ s.stage.isOutside = true
  simp [hinside]

theorem reach_send (h : (genetTx base).Reach s) (houtside : s.stage.isOutside = true) :
    (genetTx base).Reach { s with stage := .copy [0] 0, wrote := none } :=
  h.step (a := .send [0]) ⟨⟨houtside, by decide⟩, rfl⟩

/-- Nothing keeps a caller from queueing any number of frames. -/
theorem exists_queued (base : UInt64) (n : Nat) :
    ∃ s, (genetTx base).Reach s ∧ s.stage.isOutside = true ∧ s.inFlight.length = n := by
  induction n with
  | zero => exact ⟨initial, .init, rfl, rfl⟩
  | succ n ih =>
    obtain ⟨s, hreach, houtside, hlength⟩ := ih
    have hcopied := reach_next (reach_send hreach houtside) rfl rfl
    have hdescribed := reach_next (reach_next (reach_next hcopied rfl rfl) rfl rfl) rfl rfl
    refine ⟨_, reach_next hdescribed rfl rfl, rfl, ?_⟩
    change (s.inFlight ++ [_]).length = n + 1
    rw [List.length_append, hlength]
    rfl

/-- The first byte of a frame is copied with `n` others queued. -/
theorem exists_copied (base : UInt64) (n : Nat) :
    ∃ s bi, (genetTx base).Reach s ∧ s.wrote = some (.buffer bi) ∧ s.inFlight.length = n := by
  obtain ⟨s, hreach, houtside, hlength⟩ := exists_queued base n
  exact ⟨_, _, reach_next (reach_send hreach houtside) rfl rfl, rfl, hlength⟩

theorem send_overwrites_iff_two :
    ∃ s bi, (genetTx 0).Reach s ∧ s.wrote = some (.buffer bi) ∧ s.inFlight.length = 2 ∧
      ¬ ∃ f ∈ s.inFlight, f.owns (.buffer bi) = true := by
  obtain ⟨s, bi, hreach, hwrote, hlength⟩ := exists_copied 0 2
  refine ⟨s, bi, hreach, hwrote, hlength, ?_⟩
  rw [send_overwrites_iff hreach hwrote, hlength]
  change ¬ 32 ≤ 2
  decide

/-- With 32 frames queued the next one is copied over the oldest. -/
theorem send_overwrites_queued :
    ∃ s f bi, (genetTx 0).Reach s ∧ s.wrote = some (.buffer bi) ∧ f ∈ s.inFlight ∧ f.bi = bi := by
  obtain ⟨s, bi, hreach, hwrote, hlength⟩ := exists_copied 0 32
  have hinv := inv_of_reach hreach
  have hle := hinv.length_le
  refine ⟨s, slotOf (s.queued - 32), bi, hreach, hwrote, ?_, ?_⟩
  · exact hinv.mem_inFlight.mpr ⟨_, by omega, by omega, rfl⟩
  · have hbi := hinv.buffer bi hwrote
    change (s.queued - 32) % 32 = bi
    omega

end FlintRTOS.GenetTx
