import FlintRTOS.GenetRx
import Mathlib.Data.List.Basic

/-!
# The time stamp of a frame

Three counters of different widths follow the ring: the producer index of the
hardware has 16 bits, `s_rx_cons` and `s_rx_ts_seen` have 32.  They are never more
than 256 apart, so each comparison the driver makes decides the comparison of the
unbounded counts.

A stamping reads the counter first and the producer index second, and stamps all
frames that are complete at the second read.  A frame that completes between the two
gets a value that was read before it completed; every other frame gets one that was
read afterwards.
-/

namespace FlintRTOS.GenetRx

variable {s : State}

/-! ### Counters -/

/-- The registers and indices are the unbounded counts, each to its width. -/
structure Counts (s : State) : Prop where
  rxCons : s.rxCons = UInt32.ofNat s.taken
  rxTsSeen : s.rxTsSeen = UInt32.ofNat s.stamps.length
  prodIndex : s.prodIndex = UInt16.ofNat s.frames.length
  consIndex : s.consIndex = UInt16.ofNat s.taken
  cons_le : s.taken ≤ s.stamps.length
  seen_le : s.stamps.length ≤ s.frames.length
  ahead : s.frames.length ≤ s.taken + 256

theorem toNat_mod_rxDescs (n : Nat) : (UInt32.ofNat n % rxDescs).toNat = n % 256 := by
  rw [UInt32.toNat_mod, UInt32.toNat_ofNat']
  exact Nat.mod_mod_of_dvd _ (by decide)

theorem nat_and_mask (n : Nat) : n &&& 65535 = n % 65536 :=
  Nat.and_two_pow_sub_one_eq_mod n 16

theorem toNat_and_mask (n : Nat) : (UInt32.ofNat n &&& 0xFFFF).toNat = n % 65536 := by
  rw [UInt32.toNat_and, UInt32.toNat_ofNat']
  change n % 4294967296 &&& 65535 = _
  rw [nat_and_mask]
  exact Nat.mod_mod_of_dvd _ (by decide)

namespace Counts

theorem slot_eq (h : Counts s) : s.slot = s.taken % 256 := by
  rw [State.slot, h.rxCons, toNat_mod_rxDescs]

theorem dmaSlot_eq (h : Counts s) : s.dmaSlot = s.frames.length % 256 := by
  rw [State.dmaSlot, h.prodIndex, UInt16.toNat_ofNat']
  exact Nat.mod_mod_of_dvd _ (by decide)

theorem toNat_prod (h : Counts s) : s.prod.toNat = s.frames.length % 65536 := by
  rw [State.prod, UInt32.toNat_and, UInt16.toNat_toUInt32, h.prodIndex, UInt16.toNat_ofNat']
  change s.frames.length % 65536 &&& 65535 = _
  rw [nat_and_mask, Nat.mod_mod]

/-- A count within a lap of the producer is compared by its low bits. -/
theorem eq_prod_iff (h : Counts s) {n : Nat} (hle : n ≤ s.frames.length)
    (hlap : s.frames.length ≤ n + 256) :
    UInt32.ofNat n &&& 0xFFFF = s.prod ↔ n = s.frames.length := by
  rw [← UInt32.toNat_inj, toNat_and_mask, h.toNat_prod]
  omega

theorem seen_sub_eq_zero (h : Counts s) : s.rxTsSeen - s.rxCons = 0 ↔ s.stamps.length = s.taken := by
  have hle := h.cons_le
  have hseen := h.seen_le
  have hahead := h.ahead
  rw [h.rxTsSeen, h.rxCons, ← UInt32.toNat_inj, UInt32.toNat_sub, UInt32.toNat_ofNat',
    UInt32.toNat_ofNat', UInt32.toNat_zero]
  omega

theorem hasRoom_iff (h : Counts s) : s.hasRoom ↔ s.frames.length < s.taken + 256 := by
  have hle := h.cons_le
  have hseen := h.seen_le
  have hahead := h.ahead
  rw [State.hasRoom, h.prodIndex, h.consIndex, UInt16.toNat_sub, UInt16.toNat_ofNat',
    UInt16.toNat_ofNat']
  omega

end Counts

/-! ### Stamping -/

theorem Counts.stamp (h : Counts s) (hlt : s.stamps.length < s.frames.length) (fromIsr : Bool)
    (now : UInt64) : Counts (s.stamp fromIsr now) where
  rxCons := h.rxCons
  rxTsSeen := by
    change s.rxTsSeen + 1 = UInt32.ofNat (s.stamps ++ [_]).length
    rw [h.rxTsSeen, List.length_append, UInt32.ofNat_add]
    rfl
  prodIndex := h.prodIndex
  consIndex := h.consIndex
  cons_le := by
    change s.taken ≤ (s.stamps ++ [_]).length
    have hle := h.cons_le
    rw [List.length_append]
    omega
  seen_le := by
    change (s.stamps ++ [_]).length ≤ s.frames.length
    rw [List.length_append]
    exact hlt
  ahead := h.ahead

/-- The state when all complete frames have been stamped with the value read last. -/
def State.stamped (s : State) (rxTs : Nat → UInt64) (late : UInt32) : State :=
  { s with
    rxTs
    rxTsSeen := UInt32.ofNat s.frames.length
    rxTsLate := late
    stamps := s.stamps ++
      List.replicate (s.frames.length - s.stamps.length) (s.samples.length - 1) }

/-- The stamps of the frames that had none are `now`, and the others are kept. -/
structure StampedWith (now : UInt64) (s : State) (rxTs : Nat → UInt64) : Prop where
  old : ∀ k, s.taken ≤ k → k < s.stamps.length → rxTs (k % 256) = s.rxTs (k % 256)
  new : ∀ k, s.stamps.length ≤ k → k < s.frames.length → rxTs (k % 256) = now

theorem stamped_self (h : Counts s) (now : UInt64) (hall : s.stamps.length = s.frames.length) :
    ∃ rxTs late, s = s.stamped rxTs late ∧ StampedWith now s rxTs := by
  refine ⟨s.rxTs, s.rxTsLate, ?_, fun _ _ _ => rfl, ?_⟩
  · rw [State.stamped, ← hall, ← h.rxTsSeen, Nat.sub_self, List.replicate_zero, List.append_nil]
  · intro k hlow hhigh
    omega

theorem stampLoop_eq_stamped (fromIsr : Bool) (now : UInt64) (n : Nat) :
    ∀ {s : State}, Counts s → s.frames.length - s.stamps.length ≤ n →
      ∃ rxTs late, State.stampLoop fromIsr s.prod now n s = s.stamped rxTs late ∧
        StampedWith now s rxTs := by
  induction n with
  | zero =>
    intro s h hn
    have hle := h.seen_le
    exact stamped_self h now (by omega)
  | succ n ih =>
    intro s h hn
    have hcons := h.cons_le
    have hle := h.seen_le
    have hahead := h.ahead
    have hiff := h.eq_prod_iff hle (by omega)
    rw [State.stampLoop]
    split
    · rename_i hne
      rw [h.rxTsSeen, ne_eq, hiff] at hne
      have hlt : s.stamps.length < s.frames.length := by
        omega
      have hlen : (s.stamp fromIsr now).stamps.length = s.stamps.length + 1 := List.length_append
      obtain ⟨rxTs, late, heq, hold, hnew⟩ := ih (h.stamp hlt fromIsr now) (by
        change s.frames.length - (s.stamp fromIsr now).stamps.length ≤ n
        omega)
      have hslot : ∀ k, s.taken ≤ k → k < s.stamps.length →
          k % 256 ≠ (s.rxTsSeen % rxDescs).toNat := by
        intro k hlow hhigh
        rw [h.rxTsSeen, toNat_mod_rxDescs]
        omega
      have hstamps : (s.stamp fromIsr now).stamps ++
          List.replicate (s.frames.length - (s.stamp fromIsr now).stamps.length)
            (s.samples.length - 1) =
          s.stamps ++ List.replicate (s.frames.length - s.stamps.length)
            (s.samples.length - 1) := by
        have hone : s.frames.length - s.stamps.length =
            s.frames.length - (s.stamps.length + 1) + 1 := by
          omega
        rw [hlen, hone, List.replicate_succ]
        exact List.append_assoc _ _ _
      refine ⟨rxTs, late, heq.trans ?_, ?_, ?_⟩
      · rw [State.stamped, State.stamped, ← hstamps]
        rfl
      · intro k hlow hhigh
        exact (hold k hlow (by omega)).trans (Function.update_of_ne (hslot k hlow hhigh) _ _)
      · intro k hlow hhigh
        rcases Nat.eq_or_lt_of_le hlow with rfl | hlt
        · refine (hold _ hcons (by omega)).trans ?_
          change Function.update s.rxTs (s.rxTsSeen % rxDescs).toNat now _ = now
          rw [h.rxTsSeen, toNat_mod_rxDescs, Function.update_self]
        · exact hnew k (by omega) hhigh
    · rename_i heq
      rw [h.rxTsSeen, ne_eq, hiff, not_not] at heq
      exact stamped_self h now heq

theorem stampNew_eq_stamped (h : Counts s) (fromIsr : Bool) (now : UInt64) :
    ∃ rxTs late, s.stampNew fromIsr now = s.stamped rxTs late ∧ StampedWith now s rxTs := by
  refine stampLoop_eq_stamped fromIsr now _ h ?_
  have hcons := h.cons_le
  have hahead := h.ahead
  change _ ≤ 256
  omega

theorem length_stamps_stamped (h : Counts s) (rxTs : Nat → UInt64) (late : UInt32) :
    (s.stamped rxTs late).stamps.length = s.frames.length := by
  have hseen := h.seen_le
  change (s.stamps ++ List.replicate _ _).length = _
  rw [List.length_append, List.length_replicate]
  omega

theorem Counts.stamped (h : Counts s) (rxTs : Nat → UInt64) (late : UInt32) :
    Counts (s.stamped rxTs late) where
  rxCons := h.rxCons
  rxTsSeen := by
    rw [length_stamps_stamped h]
    rfl
  prodIndex := h.prodIndex
  consIndex := h.consIndex
  cons_le := by
    rw [length_stamps_stamped h]
    exact Nat.le_trans h.cons_le h.seen_le
  seen_le := Nat.le_of_eq (length_stamps_stamped h rxTs late)
  ahead := h.ahead

/-! ### What the stamps say -/

/-- Every stamp in use is the counter value its frame was stamped with, and which
    frames are stamped too early is known from when they completed. -/
structure Stamps (s : State) : Prop where
  slots : ∀ (k idx : Nat), s.taken ≤ k → s.stamps[k]? = some idx →
    s.samples[idx]? = some (s.rxTs (k % 256))
  after : ∀ (k : Nat) (f : Frame) (idx : Nat), s.frames[k]? = some f → s.stamps[k]? = some idx →
    (f.samples ≤ idx ↔ f.inWindow = false)
  pending : ∀ (k : Nat) (f : Frame), s.stamps.length ≤ k → s.frames[k]? = some f →
    f.samples ≤ s.samples.length ∧
      (f.inWindow = true ↔ s.stamping = true ∧ f.samples = s.samples.length)

variable {s' : State}

/-- What does not touch the ring or the stamps keeps what is known of them. -/
theorem Counts.keep (h : Counts s)
    (hregs : s'.rxCons = s.rxCons ∧ s'.rxTsSeen = s.rxTsSeen ∧ s'.prodIndex = s.prodIndex ∧
      s'.consIndex = s.consIndex)
    (hpast : s'.frames = s.frames ∧ s'.stamps = s.stamps ∧ s'.taken = s.taken) : Counts s' := by
  obtain ⟨hcons, hseen, hprod, hindex⟩ := hregs
  obtain ⟨hframes, hstamps, htaken⟩ := hpast
  constructor
  · rw [hcons, htaken, h.rxCons]
  · rw [hseen, hstamps, h.rxTsSeen]
  · rw [hprod, hframes, h.prodIndex]
  · rw [hindex, htaken, h.consIndex]
  · rw [htaken, hstamps]
    exact h.cons_le
  · rw [hstamps, hframes]
    exact h.seen_le
  · rw [hframes, htaken]
    exact h.ahead

theorem Stamps.keep (h : Stamps s) (htaken : s.taken ≤ s'.taken) (hts : s'.rxTs = s.rxTs)
    (hpast : s'.frames = s.frames ∧ s'.stamps = s.stamps ∧ s'.samples = s.samples)
    (hstamping : s'.stamping = s.stamping) : Stamps s' := by
  obtain ⟨hframes, hstamps, hsamples⟩ := hpast
  constructor
  · rw [hstamps, hsamples, hts]
    intro k idx hk
    exact h.slots k idx (Nat.le_trans htaken hk)
  · rw [hframes, hstamps]
    exact h.after
  · rw [hframes, hstamps, hsamples, hstamping]
    exact h.pending

theorem getElem?_append_of_some {α : Type} {l : List α} {i : Nat} {x : α} (h : l[i]? = some x)
    (l' : List α) : (l ++ l')[i]? = some x := by
  obtain ⟨hlt, -⟩ := List.getElem?_eq_some_iff.mp h
  rw [List.getElem?_append_left hlt, h]

theorem getElem?_last {α : Type} (l : List α) (x : α) :
    (l ++ [x])[(l ++ [x]).length - 1]? = some x := by
  simp

theorem Stamps.sample (h : Stamps s) (hbefore : s.stamping = false) (htaken : s'.taken = s.taken)
    (hframes : s'.frames = s.frames) (hstamps : s'.stamps = s.stamps) (hts : s'.rxTs = s.rxTs)
    {now : UInt64} (hsamples : s'.samples = s.samples ++ [now]) :
    Stamps s' where
  slots := by
    intro k idx hk hidx
    rw [htaken] at hk
    rw [hstamps] at hidx
    rw [hsamples, hts]
    exact getElem?_append_of_some (h.slots k idx hk hidx) [now]
  after := by
    rw [hframes, hstamps]
    exact h.after
  pending := by
    rw [hframes, hstamps, hsamples, List.length_append, List.length_singleton]
    intro k f hk hf
    obtain ⟨hle, hwindow⟩ := h.pending k f hk hf
    refine ⟨by omega, ?_⟩
    rw [hwindow, hbefore]
    constructor
    · rintro ⟨hopen, -⟩
      cases hopen
    · rintro ⟨-, heq⟩
      omega

/-- A stamp is an old one, or the value read last for a frame that was pending. -/
theorem stamps_stamped_cases (h : Counts s) {k idx : Nat}
    (hidx : (s.stamps ++ List.replicate (s.frames.length - s.stamps.length)
      (s.samples.length - 1))[k]? = some idx) :
    k < s.stamps.length ∧ s.stamps[k]? = some idx ∨
      s.stamps.length ≤ k ∧ k < s.frames.length ∧ idx = s.samples.length - 1 := by
  have hseen := h.seen_le
  rcases Nat.lt_or_ge k s.stamps.length with hk | hk
  · rw [List.getElem?_append_left hk] at hidx
    exact .inl ⟨hk, hidx⟩
  · rw [List.getElem?_append_right hk, List.getElem?_replicate] at hidx
    split at hidx
    · cases hidx
      exact .inr ⟨hk, by omega, rfl⟩
    · cases hidx

/-- The complete frames are stamped with the counter value read last. -/
theorem Stamps.stamped (h : Stamps s) (hcounts : Counts s) {now : UInt64} {rxTs : Nat → UInt64}
    (hopen : s.stamping = true) (hnow : s.samples[s.samples.length - 1]? = some now)
    (hstamped : StampedWith now s rxTs) (late : UInt32) (recv : Recv) (isr : Isr) :
    Stamps { s.stamped rxTs late with recv, isr } where
  slots := by
    intro k idx hk hidx
    rcases stamps_stamped_cases hcounts hidx with ⟨hlt, hold⟩ | ⟨hge, hlt, rfl⟩
    · change s.samples[idx]? = some (rxTs (k % 256))
      rw [hstamped.old k hk hlt]
      exact h.slots k idx hk hold
    · change s.samples[_]? = some (rxTs (k % 256))
      rw [hstamped.new k hge hlt]
      exact hnow
  after := by
    intro k f idx hf hidx
    rcases stamps_stamped_cases hcounts hidx with ⟨hlt, hold⟩ | ⟨hge, hlt, rfl⟩
    · exact h.after k f idx hf hold
    · obtain ⟨hlast, -⟩ := List.getElem?_eq_some_iff.mp hnow
      obtain ⟨hle, hwindow⟩ := h.pending k f hge hf
      rw [← Bool.not_eq_true, hwindow]
      simp only [hopen, true_and]
      omega
  pending := by
    intro k f hk hf
    obtain ⟨hlt, -⟩ := List.getElem?_eq_some_iff.mp hf
    have hk : (s.stamped rxTs late).stamps.length ≤ k := hk
    rw [length_stamps_stamped hcounts] at hk
    exact absurd hlt (Nat.not_lt.mpr hk)

theorem Counts.complete (h : Counts s) (hroom : s.hasRoom) (desc : Nat → UInt32) (f : Frame) :
    Counts { s with prodIndex := s.prodIndex + 1, desc, frames := s.frames ++ [f] } := by
  have hlt := h.hasRoom_iff.mp hroom
  have hlen : (s.frames ++ [f]).length = s.frames.length + 1 := List.length_append
  refine ⟨h.rxCons, h.rxTsSeen, ?_, h.consIndex, h.cons_le, ?_, ?_⟩
  · change s.prodIndex + 1 = UInt16.ofNat (s.frames ++ [f]).length
    rw [hlen, h.prodIndex, UInt16.ofNat_add]
    rfl
  · change s.stamps.length ≤ (s.frames ++ [f]).length
    have hle := h.seen_le
    omega
  · change (s.frames ++ [f]).length ≤ s.taken + 256
    omega

theorem Stamps.complete (h : Stamps s) (hcounts : Counts s) (prodIndex : UInt16)
    (desc : Nat → UInt32) {f : Frame} (hsamples : f.samples = s.samples.length)
    (hwindow : f.inWindow = s.stamping) :
    Stamps { s with prodIndex, desc, frames := s.frames ++ [f] } := by
  have hseen := hcounts.seen_le
  have hcases : ∀ (k : Nat) (f' : Frame), (s.frames ++ [f])[k]? = some f' →
      s.frames[k]? = some f' ∨ s.frames.length ≤ k ∧ f' = f := by
    intro k f' hf'
    rcases Nat.lt_or_ge k s.frames.length with hk | hk
    · rw [List.getElem?_append_left hk] at hf'
      exact .inl hf'
    · rw [List.getElem?_append_right hk, List.getElem?_singleton] at hf'
      split at hf'
      · cases hf'
        exact .inr ⟨hk, rfl⟩
      · cases hf'
  refine ⟨h.slots, ?_, ?_⟩
  · intro k f' idx hf' hidx
    rcases hcases k f' hf' with hold | ⟨hk, -⟩
    · exact h.after k f' idx hold hidx
    · obtain ⟨hlt, -⟩ := List.getElem?_eq_some_iff.mp hidx
      exact absurd hlt (by change ¬ k < s.stamps.length; omega)
  · intro k f' hk hf'
    rcases hcases k f' hf' with hold | ⟨-, rfl⟩
    · exact h.pending k f' hk hold
    · rw [hsamples, hwindow]
      exact ⟨Nat.le_refl _, ⟨fun hopen => ⟨hopen, rfl⟩, fun hopen => hopen.1⟩⟩

/-! ### The call and the interrupt -/

theorem reading_of_unmasked {r : Recv} (h : r.masked = false) : r.reading = false := by
  cases r with
  | readIndex => cases h
  | _ => rfl

theorem reading_of_outside {r : Recv} (h : r.isOutside = true) : r.reading = false := by
  cases r with
  | outside => rfl
  | _ => cases h

/-- Frame `k` was stamped with `ts`. -/
def Own (s : State) (k : Nat) (ts : UInt64) : Prop :=
  ∃ idx : Nat, s.stamps[k]? = some idx ∧ s.samples[idx]? = some ts

/-- A frame that has been stamped finds its stamp in its slot. -/
theorem Stamps.own_slot (h : Stamps s) (hcounts : Counts s) (hlt : s.taken < s.stamps.length) :
    Own s s.taken (s.rxTs s.slot) := by
  obtain ⟨idx, hidx⟩ : ∃ idx, s.stamps[s.taken]? = some idx := ⟨_, List.getElem?_eq_getElem hlt⟩
  refine ⟨idx, hidx, ?_⟩
  rw [hcounts.slot_eq]
  exact h.slots _ _ (Nat.le_refl _) hidx

/-- What a call knows when it gets to its next access. -/
def RecvOk (s : State) : Prop :=
  match s.recv with
  | .outside (some (some r)) =>
      r.number < s.taken ∧ ∃ idx : Nat, s.stamps[r.number]? = some idx ∧
        s.samples[idx]? = some r.ts ∧ idx < r.samples
  | .outside _ => True
  | .readProd _ => True
  | .readStatus _ => s.taken < s.frames.length
  | .mask .. => s.taken < s.frames.length
  | .sample .. => s.taken < s.frames.length
  | .readIndex _ _ now =>
      s.taken < s.frames.length ∧ s.samples[s.samples.length - 1]? = some now
  | .release _ _ ts => Own s s.taken ts
  | .copy _ number _ _ ts _ => number < s.taken ∧ Own s number ts

theorem Own.mono {k : Nat} {ts : UInt64} (h : Own s k ts) (hstamps : s.stamps <+: s'.stamps)
    (hsamples : s.samples <+: s'.samples) : Own s' k ts := by
  obtain ⟨idx, hidx, hts⟩ := h
  obtain ⟨l, hl⟩ := hstamps
  obtain ⟨l', hl'⟩ := hsamples
  refine ⟨idx, ?_, ?_⟩
  · rw [← hl]
    exact getElem?_append_of_some hidx l
  · rw [← hl']
    exact getElem?_append_of_some hts l'

/-- What a call knows is not lost to the interrupt or to the DMA. -/
theorem RecvOk.mono (h : RecvOk s) (hrecv : s'.recv = s.recv) (htaken : s'.taken = s.taken)
    (hframes : s.frames <+: s'.frames) (hstamps : s.stamps <+: s'.stamps)
    (hsamples : s.samples <+: s'.samples)
    (hmasked : s.recv.masked = true → s'.samples = s.samples) : RecvOk s' := by
  have hframes := hframes.length_le
  unfold RecvOk at h ⊢
  rw [hrecv, htaken]
  cases hstage : s.recv with
  | outside last =>
    rw [hstage] at h
    rcases last with _ | _ | r
    · trivial
    · trivial
    · obtain ⟨hnumber, idx, hidx, hts, hlt⟩ := h
      obtain ⟨l, hl⟩ := hstamps
      obtain ⟨l', hl'⟩ := hsamples
      refine ⟨hnumber, idx, ?_, ?_, hlt⟩
      · rw [← hl]
        exact getElem?_append_of_some hidx l
      · rw [← hl']
        exact getElem?_append_of_some hts l'
  | readProd len => trivial
  | readStatus len =>
    rw [hstage] at h
    exact Nat.lt_of_lt_of_le h hframes
  | mask len status =>
    rw [hstage] at h
    exact Nat.lt_of_lt_of_le h hframes
  | sample len status =>
    rw [hstage] at h
    exact Nat.lt_of_lt_of_le h hframes
  | readIndex len status now =>
    rw [hstage] at h hmasked
    rw [hmasked rfl]
    exact ⟨Nat.lt_of_lt_of_le h.1 hframes, h.2⟩
  | release len status ts =>
    rw [hstage] at h
    have hown := Own.mono h hstamps hsamples
    exact hown
  | copy number i rlen ts bytes =>
    rw [hstage] at h
    exact ⟨h.1, h.2.mono hstamps hsamples⟩

structure Inv (s : State) : Prop where
  counts : Counts s
  stamps : Stamps s
  recv : RecvOk s
  masked : s.recv.masked = true → s.isr = .idle
  isrNow : ∀ now, s.isr = .readIndex now → s.samples[s.samples.length - 1]? = some now

theorem Counts.release (h : Counts s) (hlt : s.taken < s.stamps.length) : Counts s.released := by
  have hcons : s.rxCons + 1 = UInt32.ofNat (s.taken + 1) := by
    rw [h.rxCons, UInt32.ofNat_add]
    rfl
  have hahead := h.ahead
  refine ⟨hcons, h.rxTsSeen, h.prodIndex, ?_, hlt, h.seen_le, ?_⟩
  · change ((s.rxCons + 1) &&& 0xFFFF).toUInt16 = UInt16.ofNat (s.taken + 1)
    rw [← UInt16.toNat_inj, UInt32.toNat_toUInt16, hcons, toNat_and_mask, Nat.mod_mod,
      UInt16.toNat_ofNat']
  · change s.frames.length ≤ s.taken + 1 + 256
    omega

namespace Inv

/-- A step that changes nothing but where the call is. -/
theorem moveTo (h : Inv s) (hidle : s.isr = .idle) (hbefore : s.recv.reading = false) {recv : Recv}
    (hafter : recv.reading = false) (hok : RecvOk { s with recv }) : Inv { s with recv } where
  counts := h.counts.keep ⟨rfl, rfl, rfl, rfl⟩ ⟨rfl, rfl, rfl⟩
  stamps := by
    refine h.stamps.keep (Nat.le_refl _) rfl ⟨rfl, rfl, rfl⟩ ?_
    rw [State.stamping, State.stamping, hbefore, hafter]
  recv := hok
  masked := fun _ => hidle
  isrNow := h.isrNow

variable {len : UInt16} {now : UInt64}

theorem sample (h : Inv s) (hidle : s.isr = .idle) {status : UInt32}
    (hat : s.recv = .sample len status) (now : UInt64) :
    Inv { s with recv := .readIndex len status now, samples := s.samples ++ [now] } where
  counts := h.counts.keep ⟨rfl, rfl, rfl, rfl⟩ ⟨rfl, rfl, rfl⟩
  stamps := by
    have hclosed : s.stamping = false := by
      rw [State.stamping, hidle, hat]
      rfl
    exact h.stamps.sample hclosed rfl rfl rfl rfl rfl
  recv := by
    have hrecv := h.recv
    simp only [RecvOk, hat] at hrecv
    exact ⟨hrecv, getElem?_last s.samples now⟩
  masked := fun _ => hidle
  isrNow := by
    intro now hnow
    cases hidle.symm.trans hnow

/-- `rx_stamp_new`, called because the frame has no stamp yet. -/
theorem stamp (h : Inv s) (hidle : s.isr = .idle) {status : UInt32}
    (hat : s.recv = .readIndex len status now) :
    Inv { s.stampNew false now with
      recv := .release len status ((s.stampNew false now).rxTs (s.stampNew false now).slot) } := by
  have hcounts := h.counts
  have hrecv := h.recv
  simp only [RecvOk, hat] at hrecv
  have hopen : s.stamping = true := by
    rw [State.stamping, hidle, hat]
    rfl
  obtain ⟨rxTs, late, heq, hstamped⟩ := stampNew_eq_stamped hcounts false now
  rw [heq]
  have hstamps := h.stamps.stamped hcounts hopen hrecv.2 hstamped late
  have hlt : s.taken < (s.stamped rxTs late).stamps.length := by
    rw [length_stamps_stamped hcounts]
    exact hrecv.1
  exact
    { counts := (hcounts.stamped rxTs late).keep ⟨rfl, rfl, rfl, rfl⟩ ⟨rfl, rfl, rfl⟩
      stamps := hstamps _ s.isr
      recv := (hstamps s.recv s.isr).own_slot (hcounts.stamped rxTs late) hlt
      masked := fun _ => hidle
      isrNow := h.isrNow }

theorem release (h : Inv s) (hidle : s.isr = .idle) {status : UInt32} {ts : UInt64}
    (hat : s.recv = .release len status ts) (drop : UInt32) {recv : Recv}
    (hafter : recv.reading = false) (hok : RecvOk { s with taken := s.taken + 1, recv }) :
    Inv { s.released with rxDrop := drop, recv } where
  counts := by
    have hrecv := h.recv
    simp only [RecvOk, hat] at hrecv
    obtain ⟨idx, hidx, -⟩ := hrecv
    obtain ⟨hlt, -⟩ := List.getElem?_eq_some_iff.mp hidx
    exact (h.counts.release hlt).keep ⟨rfl, rfl, rfl, rfl⟩ ⟨rfl, rfl, rfl⟩
  stamps := by
    refine h.stamps.keep (Nat.le_succ _) rfl ⟨rfl, rfl, rfl⟩ ?_
    rw [State.stamping, State.stamping, hat, hafter]
    rfl
  recv := hok
  masked := fun _ => hidle
  isrNow := h.isrNow

theorem next (h : Inv s) (hidle : s.isr = .idle) (hnext : s.next now = some s') : Inv s' := by
  have hcounts := h.counts
  have hcons := hcounts.cons_le
  have hseen := hcounts.seen_le
  have hahead := hcounts.ahead
  have hrecv := h.recv
  unfold RecvOk at hrecv
  cases State.next_cases hnext with
  | empty hat _ => exact h.moveTo hidle (by rw [hat]; rfl) rfl trivial
  | found hat hne =>
    rw [hcounts.rxCons, Ne, hcounts.eq_prod_iff (by omega) (by omega)] at hne
    refine h.moveTo hidle (by rw [hat]; rfl) rfl ?_
    change s.taken < s.frames.length
    omega
  | status hat =>
    rw [hat] at hrecv
    exact h.moveTo hidle (by rw [hat]; rfl) rfl hrecv
  | late hat _ =>
    rw [hat] at hrecv
    exact h.moveTo hidle (by rw [hat]; rfl) rfl hrecv
  | seen hat hne =>
    rw [Ne, hcounts.seen_sub_eq_zero] at hne
    exact h.moveTo hidle (by rw [hat]; rfl) rfl (h.stamps.own_slot hcounts (by omega))
  | sample hat => exact h.sample hidle hat now
  | stamp hat => exact h.stamp hidle hat
  | drop hat _ => exact h.release hidle hat _ rfl trivial
  | take hat _ =>
    rw [hat] at hrecv
    exact h.release hidle hat _ rfl ⟨Nat.lt_succ_self _, hrecv⟩
  | byte hat _ =>
    rw [hat] at hrecv
    exact h.moveTo hidle (by rw [hat]; rfl) rfl hrecv
  | done hat _ =>
    rw [hat] at hrecv
    obtain ⟨hnumber, idx, hidx, hts⟩ := hrecv
    obtain ⟨hlt, -⟩ := List.getElem?_eq_some_iff.mp hts
    exact h.moveTo hidle (by rw [hat]; rfl) rfl ⟨hnumber, idx, hidx, hts, hlt⟩

theorem isrNext (h : Inv s) (hnext : s.isrNext now = some s') : Inv s' := by
  have hcounts := h.counts
  have hunmasked : s.isr ≠ .idle → s.recv.masked = true → False :=
    fun hisr hmasked => hisr (h.masked hmasked)
  unfold State.isrNext at hnext
  cases hstage : s.isr with
  | idle =>
    rw [hstage] at hnext
    cases hnext
  | sample =>
    rw [hstage] at hnext hunmasked
    cases hnext
    have hmasked := hunmasked (by decide)
    have hclosed : s.stamping = false := by
      rw [State.stamping, hstage, reading_of_unmasked (eq_false_of_ne_true hmasked)]
      rfl
    exact
      { counts := hcounts.keep ⟨rfl, rfl, rfl, rfl⟩ ⟨rfl, rfl, rfl⟩
        stamps := h.stamps.sample hclosed rfl rfl rfl rfl rfl
        recv := h.recv.mono rfl rfl (List.prefix_refl _) (List.prefix_refl _) (List.prefix_append _ _)
          fun hm => (hmasked hm).elim
        masked := fun hm => (hmasked hm).elim
        isrNow := by
          intro now' hnow
          cases hnow
          exact getElem?_last s.samples now }
  | readIndex now =>
    rw [hstage] at hnext hunmasked
    have hmasked := hunmasked (by simp)
    have hopen : s.stamping = true := by
      rw [State.stamping, hstage]
      rfl
    obtain ⟨rxTs, late, heq, hstamped⟩ := stampNew_eq_stamped hcounts true now
    simp only [heq, Option.some.injEq] at hnext
    subst hnext
    exact
      { counts := (hcounts.stamped rxTs late).keep ⟨rfl, rfl, rfl, rfl⟩ ⟨rfl, rfl, rfl⟩
        stamps := h.stamps.stamped hcounts hopen (h.isrNow now hstage) hstamped late s.recv .idle
        recv := h.recv.mono rfl rfl (List.prefix_refl _) (List.prefix_append _ _) (List.prefix_refl _)
          fun _ => rfl
        masked := fun _ => rfl
        isrNow := by
          intro now' hnow
          cases hnow }

theorem complete (h : Inv s) (hroom : s.hasRoom) (status : UInt32)
    (hexec : s.exec (.complete status) = some s') : Inv s' := by
  cases hexec
  exact
    { counts := h.counts.complete hroom _ _
      stamps := h.stamps.complete h.counts _ _ rfl rfl
      recv := h.recv.mono rfl rfl (List.prefix_append _ _) (List.prefix_refl _) (List.prefix_refl _)
        fun _ => rfl
      masked := h.masked
      isrNow := h.isrNow }

theorem step (h : Inv s) {a : Action} (hst : genetRx.Step s a s') : Inv s' := by
  obtain ⟨hguard, hexec⟩ := hst
  cases a with
  | call len =>
    obtain ⟨houtside, hidle⟩ := hguard
    cases hexec
    exact h.moveTo hidle (reading_of_outside houtside) rfl trivial
  | next now => exact h.next hguard.2 hexec
  | irq stat =>
    obtain ⟨hidle, hunmasked⟩ := hguard
    cases hexec
    split
    · exact
        { counts := h.counts.keep ⟨rfl, rfl, rfl, rfl⟩ ⟨rfl, rfl, rfl⟩
          stamps := by
            refine h.stamps.keep (Nat.le_refl _) rfl ⟨rfl, rfl, rfl⟩ ?_
            rw [State.stamping, State.stamping, hidle]
            rfl
          recv := h.recv.mono rfl rfl (List.prefix_refl _) (List.prefix_refl _)
            (List.prefix_refl _) fun _ => rfl
          masked := fun hmasked => absurd hmasked hunmasked
          isrNow := by
            intro now hnow
            cases hnow }
    · exact h
  | isrNext now => exact h.isrNext hexec
  | store off b =>
    cases hexec
    exact
      { counts := h.counts.keep ⟨rfl, rfl, rfl, rfl⟩ ⟨rfl, rfl, rfl⟩
        stamps := h.stamps.keep (Nat.le_refl _) rfl ⟨rfl, rfl, rfl⟩ rfl
        recv := h.recv.mono rfl rfl (List.prefix_refl _) (List.prefix_refl _) (List.prefix_refl _)
          fun _ => rfl
        masked := h.masked
        isrNow := h.isrNow }
  | complete status => exact h.complete hguard.1 status hexec

end Inv

theorem inv_initial : Inv initial where
  counts := ⟨rfl, rfl, rfl, rfl, Nat.le_refl 0, Nat.le_refl 0, Nat.zero_le _⟩
  stamps := by
    constructor
    · rintro k idx - hidx
      cases hidx
    · intro k f idx hf
      cases hf
    · rintro k f - hf
      cases hf
  recv := trivial
  masked := fun _ => rfl
  isrNow := by
    intro now hnow
    cases hnow

theorem inv_of_reach (h : genetRx.Reach s) : Inv s :=
  h.invariant inv_initial fun _ _ _ _ hinv hst => hinv.step hst

/-- **A returned frame carries its own stamp**: a counter value that was read before
    `genet_recv` returned, and after the frame completed unless the frame completed
    between the two reads of a stamping.  The indices keep the order of the unbounded
    counts they stand for. -/
theorem recv_stamp_own (h : genetRx.Reach s) :
    s.rxCons = UInt32.ofNat s.taken ∧ s.rxTsSeen = UInt32.ofNat s.stamps.length ∧
    s.prodIndex = UInt16.ofNat s.frames.length ∧ s.taken ≤ s.stamps.length ∧
    s.stamps.length ≤ s.frames.length ∧
    ∀ r, s.recv = .outside (some (some r)) →
      ∃ (f : Frame) (idx : Nat), s.frames[r.number]? = some f ∧ s.stamps[r.number]? = some idx ∧
        s.samples[idx]? = some r.ts ∧ idx < r.samples ∧
        (f.samples ≤ idx ↔ f.inWindow = false) := by
  have hinv := inv_of_reach h
  have hcounts := hinv.counts
  refine ⟨hcounts.rxCons, hcounts.rxTsSeen, hcounts.prodIndex, hcounts.cons_le, hcounts.seen_le, ?_⟩
  intro r hr
  have hrecv := hinv.recv
  unfold RecvOk at hrecv
  rw [hr] at hrecv
  obtain ⟨-, idx, hidx, hts, hlt⟩ := hrecv
  obtain ⟨hstamped, -⟩ := List.getElem?_eq_some_iff.mp hidx
  have hcomplete := Nat.lt_of_lt_of_le hstamped hcounts.seen_le
  have hf := List.getElem?_eq_getElem hcomplete
  exact ⟨_, idx, hf, hidx, hts, hlt, hinv.stamps.after _ _ _ hf hidx⟩

/-- A whole frame of one byte behind the two of padding. -/
def oneByte : UInt32 := (3 : UInt32) <<< 16 ||| dmaSopEop

/-- A call that finds a stamped frame of one byte. -/
def recvOne : List Action := .call 1514 :: List.replicate 6 (.next 0)

theorem recv_stamp_own_isr :
    ∃ s r, genetRx.Reach s ∧ s.recv = .outside (some (some r)) ∧
      ∃ (f : Frame) (idx : Nat), s.frames[r.number]? = some f ∧ s.stamps[r.number]? = some idx ∧
        s.samples[idx]? = some r.ts ∧ f.samples ≤ idx := by
  obtain ⟨s, hreach, hs⟩ := genetRx.exists_reach
    (.complete oneByte :: .irq umacIrqRxdmaMbdone :: .isrNext 7 :: .isrNext 0 :: recvOne)
    (fun s => s.recv = .outside (some (some ⟨1514, 0, 1, 7, [0], 1⟩)) ∧
      (s.frames[0]?).any (fun f => !f.inWindow)) (by decide +kernel)
  obtain ⟨hrecv, hclosed⟩ := of_decide_eq_true hs
  obtain ⟨f, idx, hf, hidx, hts, -, hafter⟩ := (recv_stamp_own hreach).2.2.2.2.2 _ hrecv
  have hf' : s.frames[0]? = some f := hf
  rw [hf', Option.any_some, Bool.not_eq_true'] at hclosed
  exact ⟨s, _, hreach, hrecv, f, idx, hf, hidx, hts, hafter.mpr hclosed⟩

/-- The interrupt for one frame reads the counter, a second frame completes, and the
    interrupt reads the producer index: the second frame is returned with a stamp that
    is older than the frame. -/
theorem recv_stamp_early :
    ∃ s r, genetRx.Reach s ∧ s.recv = .outside (some (some r)) ∧
      ∃ (f : Frame) (idx : Nat), s.frames[r.number]? = some f ∧ s.stamps[r.number]? = some idx ∧
        s.samples[idx]? = some r.ts ∧ idx < f.samples := by
  obtain ⟨s, hreach, hs⟩ := genetRx.exists_reach
    (.complete oneByte :: .irq umacIrqRxdmaMbdone :: .isrNext 7 :: .complete oneByte ::
      .isrNext 0 :: (recvOne ++ recvOne))
    (fun s => s.recv = .outside (some (some ⟨1514, 1, 1, 7, [0], 1⟩)) ∧
      (s.frames[1]?).any (fun f => f.samples = 1) ∧ s.stamps[1]? = some 0 ∧
      s.samples[0]? = some 7) (by decide +kernel)
  obtain ⟨hrecv, hframe, hstamp, hsample⟩ := of_decide_eq_true hs
  obtain ⟨f, hf, hsamples⟩ := (Option.any_eq_true _ _).mp hframe
  have hsamples : f.samples = 1 := of_decide_eq_true hsamples
  exact ⟨s, _, hreach, hrecv, f, 0, hf, hstamp, hsample, by omega⟩

end FlintRTOS.GenetRx
