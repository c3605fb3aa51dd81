import FlintRTOS.GenetStamp

/-!
# The bytes of a frame

`genet_recv` hands the buffer back to the ring before it copies the frame out.  With
255 frames waiting behind it the next descriptor the DMA fills is the one just handed
back, so the copy may read bytes of the next lap.  As long as the DMA does not store
into a byte that the copy has still to read, the frame is the one that completed.
-/

namespace FlintRTOS.GenetRx

variable {s : State}

/-- The DMA leaves alone what a copy has still to read. -/
def Spared (s : State) : Action → Prop
  | .store off _ =>
      match s.recv with
      | .copy _ _ i rlen _ bytes =>
          s.dmaSlot = i →
            ¬ (rxBufOffset.toNat + bytes.length ≤ off ∧ off < rxBufOffset.toNat + rlen.toNat)
      | _ => True
  | _ => True

instance (s : State) (a : Action) : Decidable (Spared s a) :=
  match a with
  | .store off _ =>
      match h : s.recv with
      | .copy _ _ i rlen _ bytes =>
          decidable_of_iff (s.dmaSlot = i →
              ¬ (rxBufOffset.toNat + bytes.length ≤ off ∧ off < rxBufOffset.toNat + rlen.toNat))
            (by rw [Spared, h])
      | .outside _ | .readProd _ | .readStatus _ | .mask .. | .sample .. | .readIndex ..
      | .release .. => .isTrue (by rw [Spared, h]; trivial)
  | .call _ | .next _ | .irq _ | .isrNext _ | .complete _ => .isTrue trivial

/-- The frame behind the padding, as it completed. -/
def Frame.payload (f : Frame) (n : Nat) : List UInt8 :=
  (List.range n).map fun j => f.bytes (rxBufOffset.toNat + j)

theorem Frame.payload_succ (f : Frame) (n : Nat) :
    f.payload (n + 1) = f.payload n ++ [f.bytes (rxBufOffset.toNat + n)] := by
  rw [payload, List.range_succ, List.map_append]
  rfl

/-- The frames not yet handed back are in their buffers and descriptors. -/
def Waiting (s : State) : Prop :=
  ∀ (k : Nat) (f : Frame), s.taken ≤ k → s.frames[k]? = some f →
    s.rxBuf (k % 256) = f.bytes ∧ s.desc (k % 256) = f.status

/-- What a call has of the frame it is at. -/
def RecvReads (s : State) : Prop :=
  match s.recv with
  | .mask _ status => ∃ f, s.frames[s.taken]? = some f ∧ f.status = status
  | .sample _ status => ∃ f, s.frames[s.taken]? = some f ∧ f.status = status
  | .readIndex _ status _ => ∃ f, s.frames[s.taken]? = some f ∧ f.status = status
  | .release _ status _ => ∃ f, s.frames[s.taken]? = some f ∧ f.status = status
  | .copy len number i rlen _ bytes =>
      i = number % 256 ∧ ∃ f, s.frames[number]? = some f ∧ ¬ dropped f.status ∧
        rlen = State.copyLen len f.status ∧ bytes.length ≤ rlen.toNat ∧
        bytes = f.payload bytes.length ∧
        ∀ j, bytes.length ≤ j → j < rlen.toNat →
          s.rxBuf i (rxBufOffset.toNat + j) = f.bytes (rxBufOffset.toNat + j)
  | .outside (some (some r)) =>
      ∃ f, s.frames[r.number]? = some f ∧ ¬ dropped f.status ∧
        r.len = State.copyLen r.room f.status ∧ r.bytes = f.payload r.len.toNat
  | _ => True

structure Intact (s : State) : Prop where
  waiting : Waiting s
  recv : RecvReads s

theorem Waiting.keep (h : Waiting s) {s' : State} (htaken : s.taken ≤ s'.taken)
    (hsame : s'.frames = s.frames ∧ s'.rxBuf = s.rxBuf ∧ s'.desc = s.desc) : Waiting s' := by
  obtain ⟨hframes, hbuf, hdesc⟩ := hsame
  intro k f hk hf
  rw [hframes] at hf
  rw [hbuf, hdesc]
  exact h k f (Nat.le_trans htaken hk) hf

/-- What a call has is not lost to the interrupt or to a completion. -/
theorem RecvReads.mono (h : RecvReads s) {s' : State} (hrecv : s'.recv = s.recv)
    (htaken : s'.taken = s.taken) (hframes : s.frames <+: s'.frames)
    (hbuf : ∀ len number i rlen ts bytes, s.recv = .copy len number i rlen ts bytes →
      ∀ j, bytes.length ≤ j → j < rlen.toNat →
        s'.rxBuf i (rxBufOffset.toNat + j) = s.rxBuf i (rxBufOffset.toNat + j)) : RecvReads s' := by
  obtain ⟨l, hl⟩ := hframes
  unfold RecvReads at h ⊢
  rw [hrecv, htaken, ← hl]
  cases hstage : s.recv with
  | outside last =>
    rw [hstage] at h
    rcases last with _ | _ | r
    · trivial
    · trivial
    · obtain ⟨f, hf, hrest⟩ := h
      exact ⟨f, getElem?_append_of_some hf l, hrest⟩
  | readProd => trivial
  | readStatus => trivial
  | mask | sample | readIndex | release =>
    rw [hstage] at h
    obtain ⟨f, hf, hstatus⟩ := h
    exact ⟨f, getElem?_append_of_some hf l, hstatus⟩
  | copy len number i rlen ts bytes =>
    rw [hstage] at h
    obtain ⟨hi, f, hf, hgood, hlen, hdone, hbytes, hrest⟩ := h
    refine ⟨hi, f, getElem?_append_of_some hf l, hgood, hlen, hdone, hbytes,
      fun j hlow hhigh => ?_⟩
    rw [hbuf _ _ _ _ _ _ hstage j hlow hhigh]
    exact hrest j hlow hhigh

namespace Intact

variable {s' : State}

/-- A step that changes neither the frames nor what the DMA has written. -/
theorem moveTo (h : Intact s) (htaken : s.taken ≤ s'.taken)
    (hsame : s'.frames = s.frames ∧ s'.rxBuf = s.rxBuf ∧ s'.desc = s.desc) (hreads : RecvReads s') :
    Intact s' :=
  ⟨h.waiting.keep htaken hsame, hreads⟩

theorem unmoved (h : Intact s) (hrecv : s'.recv = s.recv) (htaken : s'.taken = s.taken)
    (hsame : s'.frames = s.frames ∧ s'.rxBuf = s.rxBuf ∧ s'.desc = s.desc) : Intact s' := by
  refine h.moveTo (Nat.le_of_eq htaken.symm) hsame (h.recv.mono hrecv htaken ?_ ?_)
  · exact ⟨[], by rw [List.append_nil, hsame.1]⟩
  · intro len number i rlen ts bytes _ j _ _
    rw [hsame.2.1]

/-- The status that was read is the one the frame completed with. -/
theorem status (h : Intact s) (hcounts : Counts s) (hlt : s.taken < s.frames.length) :
    ∃ f, s.frames[s.taken]? = some f ∧ f.status = s.desc s.slot := by
  have hf := List.getElem?_eq_getElem hlt
  refine ⟨_, hf, ?_⟩
  rw [hcounts.slot_eq]
  exact (h.waiting _ _ (Nat.le_refl _) hf).2.symm

theorem next (h : Intact s) (hinv : Inv s) {now : UInt64} (hnext : s.next now = some s') :
    Intact s' := by
  have hcounts := hinv.counts
  have hrecv := h.recv
  unfold RecvReads at hrecv
  cases State.next_cases hnext with
  | empty => exact h.moveTo (Nat.le_refl _) ⟨rfl, rfl, rfl⟩ trivial
  | found => exact h.moveTo (Nat.le_refl _) ⟨rfl, rfl, rfl⟩ trivial
  | status hat =>
    have hok := hinv.recv
    simp only [RecvOk, hat] at hok
    exact h.moveTo (Nat.le_refl _) ⟨rfl, rfl, rfl⟩ (h.status hcounts hok)
  | late hat | seen hat | sample hat =>
    rw [hat] at hrecv
    exact h.moveTo (Nat.le_refl _) ⟨rfl, rfl, rfl⟩ hrecv
  | @stamp _ _ read hat =>
    rw [hat] at hrecv
    obtain ⟨rxTs, late, heq, -⟩ := stampNew_eq_stamped hcounts false read
    rw [heq]
    exact h.moveTo (Nat.le_refl _) ⟨rfl, rfl, rfl⟩ hrecv
  | drop => exact h.moveTo (Nat.le_succ _) ⟨rfl, rfl, rfl⟩ trivial
  | @take len status ts hat hgood =>
    rw [hat] at hrecv
    obtain ⟨f, hf, rfl⟩ := hrecv
    refine h.moveTo (Nat.le_succ _) ⟨rfl, rfl, rfl⟩
      ⟨hcounts.slot_eq, f, hf, hgood, rfl, Nat.zero_le _, rfl, ?_⟩
    intro j _ _
    rw [hcounts.slot_eq]
    exact congrFun (h.waiting _ _ (Nat.le_refl _) hf).1 _
  | byte hat hmore =>
    rw [hat] at hrecv
    obtain ⟨hi, f, hf, hgood, hlen, hdone, hbytes, hrest⟩ := hrecv
    refine h.moveTo (Nat.le_refl _) ⟨rfl, rfl, rfl⟩ ⟨hi, f, hf, hgood, hlen, ?_, ?_, ?_⟩
    · rw [List.length_append]
      exact hmore
    · rw [List.length_append, List.length_singleton, f.payload_succ, ← hbytes,
        hrest _ (Nat.le_refl _) hmore]
    · intro j hlow hhigh
      rw [List.length_append] at hlow
      exact hrest j (Nat.le_of_succ_le hlow) hhigh
  | done hat hend =>
    rw [hat] at hrecv
    obtain ⟨hi, f, hf, hgood, hlen, hdone, hbytes, -⟩ := hrecv
    refine h.moveTo (Nat.le_refl _) ⟨rfl, rfl, rfl⟩ ⟨f, hf, hgood, hlen, ?_⟩
    rw [Nat.le_antisymm hdone hend] at hbytes
    exact hbytes

theorem isrNext (h : Intact s) (hinv : Inv s) {now : UInt64} (hnext : s.isrNext now = some s') :
    Intact s' := by
  unfold State.isrNext at hnext
  split at hnext
  · cases hnext
  · cases hnext
    exact h.unmoved rfl rfl ⟨rfl, rfl, rfl⟩
  · rename_i now _
    obtain ⟨rxTs, late, heq, -⟩ := stampNew_eq_stamped hinv.counts true now
    rw [heq] at hnext
    cases hnext
    exact h.unmoved rfl rfl ⟨rfl, rfl, rfl⟩

/-- The DMA fills a descriptor that holds no waiting frame. -/
theorem slot_ne_dmaSlot (hcounts : Counts s) (hroom : s.hasRoom) {k : Nat} {f : Frame}
    (hk : s.taken ≤ k) (hf : s.frames[k]? = some f) : k % 256 ≠ s.dmaSlot := by
  obtain ⟨hlt, -⟩ := List.getElem?_eq_some_iff.mp hf
  have hahead := hcounts.hasRoom_iff.mp hroom
  rw [hcounts.dmaSlot_eq]
  omega

theorem store (h : Intact s) (hcounts : Counts s) {off : Nat} {b : UInt8} (hroom : s.hasRoom)
    (hspared : Spared s (.store off b)) (hexec : s.exec (.store off b) = some s') : Intact s' := by
  cases hexec
  constructor
  · intro k f hk hf
    obtain ⟨hbytes, hstatus⟩ := h.waiting k f hk hf
    refine ⟨?_, hstatus⟩
    change Function.update s.rxBuf s.dmaSlot _ (k % 256) = f.bytes
    rw [Function.update_of_ne (slot_ne_dmaSlot hcounts hroom hk hf), hbytes]
  · refine h.recv.mono rfl rfl (List.prefix_refl _) ?_
    intro len number i rlen ts bytes hstage j hlow hhigh
    simp only [Spared, hstage] at hspared
    change Function.update s.rxBuf s.dmaSlot _ i _ = _
    by_cases hi : i = s.dmaSlot
    · have hoff := hspared hi.symm
      rw [hi, Function.update_self]
      exact Function.update_of_ne (by omega) _ _
    · rw [Function.update_of_ne hi]

theorem complete (h : Intact s) (hcounts : Counts s) {status : UInt32} (hroom : s.hasRoom)
    (hexec : s.exec (.complete status) = some s') : Intact s' := by
  cases hexec
  constructor
  · intro k f hk hf
    change (s.frames ++ [_])[k]? = some f at hf
    change s.rxBuf (k % 256) = f.bytes ∧
      Function.update s.desc s.dmaSlot status (k % 256) = f.status
    rcases Nat.lt_or_ge k s.frames.length with hlt | hge
    · rw [List.getElem?_append_left hlt] at hf
      obtain ⟨hbytes, hstatus⟩ := h.waiting k f hk hf
      rw [Function.update_of_ne (slot_ne_dmaSlot hcounts hroom hk hf)]
      exact ⟨hbytes, hstatus⟩
    · rw [List.getElem?_append_right hge, List.getElem?_singleton] at hf
      split at hf
      · rename_i hzero
        have hk : k % 256 = s.dmaSlot := by
          rw [hcounts.dmaSlot_eq]
          omega
        cases hf
        rw [hk, Function.update_self]
        exact ⟨rfl, rfl⟩
      · cases hf
  · exact h.recv.mono rfl rfl (List.prefix_append _ _) fun _ _ _ _ _ _ _ _ _ _ => rfl

theorem step (h : Intact s) (hinv : Inv s) {a : Action}
    (hst : (genetRx.restrict Spared).Step s a s') : Intact s' := by
  obtain ⟨⟨hguard, hexec⟩, hspared⟩ := Machine.restrict_step.mp hst
  cases a with
  | call len =>
    cases hexec
    exact h.moveTo (Nat.le_refl _) ⟨rfl, rfl, rfl⟩ trivial
  | next now => exact h.next hinv hexec
  | irq stat =>
    cases hexec
    split
    · exact h.unmoved rfl rfl ⟨rfl, rfl, rfl⟩
    · exact h
  | isrNext now => exact h.isrNext hinv hexec
  | store off b => exact h.store hinv.counts hguard.1 hspared hexec
  | complete status => exact h.complete hinv.counts hguard.1 hexec

end Intact

theorem intact_of_reach (h : (genetRx.restrict Spared).Reach s) : Intact s := by
  refine h.invariant ?_ fun s a s' hreach hintact hst =>
    hintact.step (inv_of_reach hreach.of_restrict) hst
  constructor
  · rintro k f - hf
    cases hf
  · trivial

/-- **A returned frame is the one that completed**, as long as the DMA does not store
    into what a copy has still to read: all that is behind the padding, or as much of it
    as the caller has room for. -/
theorem recv_bytes_intact (h : (genetRx.restrict Spared).Reach s) {r : Received}
    (hr : s.recv = .outside (some (some r))) :
    ∃ f : Frame, s.frames[r.number]? = some f ∧ ¬ dropped f.status ∧
      r.len.toNat = min ((statusLen f.status).toNat - rxBufOffset.toNat) r.room.toNat ∧
      r.bytes = f.payload r.len.toNat := by
  have hrecv := (intact_of_reach h).recv
  unfold RecvReads at hrecv
  rw [hr] at hrecv
  obtain ⟨f, hf, hgood, hlen, hbytes⟩ := hrecv
  exact ⟨f, hf, hgood, by rw [hlen, State.toNat_copyLen _ hgood], hbytes⟩

/-- Two bytes, of which the caller has room for the first. -/
theorem recv_bytes_intact_one :
    ∃ s r, (genetRx.restrict Spared).Reach s ∧ s.recv = .outside (some (some r)) ∧
      r.room = 1 ∧ r.bytes = [65] ∧ ∃ f : Frame, s.frames[r.number]? = some f ∧
        statusLen f.status = 4 ∧
        r.len.toNat = min ((statusLen f.status).toNat - rxBufOffset.toNat) r.room.toNat ∧
        r.bytes = f.payload r.len.toNat := by
  obtain ⟨s, hreach, hs⟩ := (genetRx.restrict Spared).exists_reach
    [.store 2 65, .store 3 66, .complete ((4 : UInt32) <<< 16 ||| dmaSopEop), .call 1, .next 7,
      .next 7, .next 7, .next 7, .next 7, .next 7, .next 7, .next 7, .store 2 67]
    (fun s => s.recv = .outside (some (some ⟨1, 0, 1, 7, [65], 1⟩)) ∧
      (s.frames[0]?).any (fun f => statusLen f.status = 4)) (by decide +kernel)
  obtain ⟨hrecv, hframe⟩ := of_decide_eq_true hs
  obtain ⟨f, hf, -, hlen, hbytes⟩ := recv_bytes_intact hreach hrecv
  have hf' : s.frames[0]? = some f := hf
  rw [hf', Option.any_some, decide_eq_true_eq] at hframe
  exact ⟨s, _, hreach, hrecv, rfl, rfl, f, hf, hframe, hlen, hbytes⟩

/-! ### A full ring -/

def filledDesc : Nat → Nat → UInt32
  | 0 => Function.update (fun _ => 0) 0 oneByte
  | m + 1 => Function.update (filledDesc m) (m + 1) oneByte

/-- One stamped frame and `m` more, all of zeros. -/
def filled (m : Nat) : State :=
  { initial with
    prodIndex := UInt16.ofNat (m + 1)
    desc := filledDesc m
    rxTsSeen := 1
    rxTs := Function.update (fun _ => 0) 0 7
    frames := ⟨fun _ => 0, oneByte, 0, false⟩ :: List.replicate m ⟨fun _ => 0, oneByte, 1, false⟩
    samples := [7]
    stamps := [0] }

theorem reach_filled {m : Nat} (hm : m < 256) : genetRx.Reach (filled m) := by
  induction m with
  | zero =>
    have hrun : genetRx.runList initial
        [.complete oneByte, .irq umacIrqRxdmaMbdone, .isrNext 7, .isrNext 0] = some (filled 0) := rfl
    exact Machine.Reach.init.run (Machine.run_of_runList hrun)
  | succ m ih =>
    have hindex : (UInt16.ofNat (m + 1)).toNat = m + 1 := by
      rw [UInt16.toNat_ofNat']
      omega
    have hroom : (filled m).hasRoom := by
      change (UInt16.ofNat (m + 1) - 0).toNat < 256
      rw [UInt16.sub_zero, hindex]
      omega
    have hslot : (filled m).dmaSlot = m + 1 := by
      change (UInt16.ofNat (m + 1)).toNat % 256 = m + 1
      rw [hindex]
      omega
    have hframes : (filled m).frames ++ [⟨fun _ => 0, oneByte, 1, false⟩] =
        (filled (m + 1)).frames := by
      simp only [filled, List.cons_append, List.replicate_succ']
    have hexec : genetRx.exec (filled m) (.complete oneByte) = some (filled (m + 1)) := by
      change some { filled m with
        prodIndex := UInt16.ofNat (m + 1) + UInt16.ofNat 1
        desc := Function.update (filledDesc m) (filled m).dmaSlot oneByte
        frames := (filled m).frames ++ [(⟨fun _ => 0, oneByte, 1, false⟩ : Frame)] } = _
      rw [hslot, hframes, ← UInt16.ofNat_add (m + 1) 1]
      rfl
    exact (ih (by omega)).step (a := .complete oneByte) ⟨⟨hroom, by decide⟩, hexec⟩

/-- With the ring full the DMA fills the buffer that has just been handed back, before
    it is copied: a frame of a zero is returned as a 66. -/
theorem recv_bytes_overwritten :
    ∃ s r, genetRx.Reach s ∧ s.recv = .outside (some (some r)) ∧
      ∃ f : Frame, s.frames[r.number]? = some f ∧ r.bytes ≠ f.payload r.len.toNat := by
  have hrun : (genetRx.runList (filled 255)
      [.call 1514, .next 0, .next 0, .next 0, .next 0, .store 2 66, .next 0, .next 0]).any
      (fun s => s.recv = .outside (some (some ⟨1514, 0, 1, 7, [66], 1⟩)) ∧
        (s.frames[0]?).any (fun f => f.payload 1 = [0])) = true := by
    decide +kernel
  obtain ⟨s, hs, hcheck⟩ := (Option.any_eq_true _ _).mp hrun
  obtain ⟨hrecv, hframe⟩ := of_decide_eq_true hcheck
  obtain ⟨f, hf, hzero⟩ := (Option.any_eq_true _ _).mp hframe
  have hzero : f.payload 1 = [0] := of_decide_eq_true hzero
  have hreach : genetRx.Reach s :=
    (reach_filled (by decide : 255 < 256)).run (Machine.run_of_runList hs)
  refine ⟨s, _, hreach, hrecv, f, hf, ?_⟩
  change [66] ≠ f.payload 1
  rw [hzero]
  decide

end FlintRTOS.GenetRx
