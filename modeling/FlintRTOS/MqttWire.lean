import FlintRTOS.FrameStream
import Mathlib.Tactic.Ring

/-!
# MQTT packets on the wire

The part of coreMQTT's serializer that both directions of a connection rest on, the fixed header.
A packet begins with a byte for its type and flags and the number of bytes that follow, in groups
of seven bits of which all but the last are marked.  `size_t` does not overflow here: every
length is below `2 ^ 28`.

Of the buffer that a header is read from only the bytes that have been received are looked at;
they are the list `stored`, whose length is the index of the source.
-/

namespace FlintRTOS.CoreMqtt

open FrameStream

/-- `MQTTStatus_t`. -/
inductive MqttStatus where
  | success
  | badParameter
  | noMemory
  | sendFailed
  | recvFailed
  | badResponse
  | serverRefused
  | noDataAvailable
  | illegalState
  | stateCollision
  | keepAliveTimeout
  | needMoreBytes
deriving DecidableEq, Repr

/-! ### The remaining length -/

def mqttMaxRemainingLength : Nat := 268435455

def mqttRemainingLengthInvalid : Nat := 268435456

def remainingLengthEncodedSize (length : Nat) : Nat :=
  if length < 128 then 1
  else if length < 16384 then 2
  else if length < 2097152 then 3
  else 4

def encodeRemainingLength (length : Nat) : List UInt8 :=
  let lengthByte := UInt8.ofNat (length % 128)
  let remainingLength := length / 128
  if remainingLength > 0 then (lengthByte ||| 0x80) :: encodeRemainingLength remainingLength
  else [lengthByte]

/-- The loop of `processRemainingLength`, over the bytes that are still to be decoded. -/
def remainingLengthLoop : List UInt8 → Nat → Nat → Nat → Except MqttStatus (Nat × Nat)
  | [], _, multiplier, _ =>
    if multiplier > 2097152 then .error .badResponse else .error .needMoreBytes
  | encodedByte :: encoded, remainingLength, multiplier, bytesDecoded =>
    if multiplier > 2097152 then .error .badResponse
    else
      let remainingLength := remainingLength + (encodedByte &&& 0x7F).toNat * multiplier
      if remainingLength = mqttRemainingLengthInvalid ∨ encodedByte &&& 0x80 = 0 then
        .ok (remainingLength, bytesDecoded + 1)
      else remainingLengthLoop encoded remainingLength (multiplier * 128) (bytesDecoded + 1)

/-- The remaining length and the length of the header. -/
def processRemainingLength (stored : List UInt8) : Except MqttStatus (Nat × Nat) := do
  let (remainingLength, bytesDecoded) ← remainingLengthLoop (stored.drop 1) 0 1 0
  if bytesDecoded ≠ remainingLengthEncodedSize remainingLength then .error .badResponse
  else return (remainingLength, bytesDecoded + 1)

section remainingLength

variable {stored l : List UInt8} {b r n : Nat} {e : MqttStatus}

theorem toNat_low (c : UInt8) : (c &&& 0x7F).toNat = c.toNat % 128 := by
  rw [UInt8.toNat_and]
  exact Nat.and_two_pow_sub_one_eq_mod c.toNat 7

theorem marked_iff (c : UInt8) : c &&& 0x80 = 0 ↔ c.toNat < 128 := by
  have hall : ∀ n < 256, UInt8.ofNat n &&& 0x80 = 0 ↔ n < 128 := by decide +kernel
  have hc := hall c.toNat c.toNat_lt
  rwa [UInt8.ofNat_toNat] at hc

theorem toNat_mark (h : n < 128) : (UInt8.ofNat n ||| 0x80).toNat = n + 128 := by
  have hall : ∀ n < 128, (UInt8.ofNat n ||| 0x80).toNat = n + 128 := by decide
  exact hall n h

theorem encodeRemainingLength_of_lt (h : n < 128) :
    encodeRemainingLength n = [UInt8.ofNat n] := by
  rw [encodeRemainingLength, if_neg (by omega), Nat.mod_eq_of_lt h]

theorem encodeRemainingLength_of_ge (h : 128 ≤ n) :
    encodeRemainingLength n =
      (UInt8.ofNat (n % 128) ||| 0x80) :: encodeRemainingLength (n / 128) := by
  rw [encodeRemainingLength, if_pos (by omega)]

/-- A length of `k + 1` groups, of which the last is not empty. -/
theorem length_encodeRemainingLength {k : Nat} (hlt : n < 128 ^ (k + 1))
    (hge : k = 0 ∨ 128 ^ k ≤ n) : (encodeRemainingLength n).length = k + 1 := by
  induction k generalizing n with
  | zero => rw [encodeRemainingLength_of_lt (by omega)]; rfl
  | succ k ih =>
    have hpow : 128 ^ (k + 1) ≤ n := hge.resolve_left (Nat.succ_ne_zero k)
    have hone : 1 ≤ 128 ^ k := Nat.one_le_pow _ _ (by decide)
    rw [Nat.pow_succ] at hpow
    rw [Nat.pow_succ] at hlt
    rw [encodeRemainingLength_of_ge (by omega), List.length_cons, ih (by omega) (.inr (by omega))]

theorem encodedSize_eq_iff {k : Nat} (hk : k < 4) (hlt : n < 128 ^ (k + 1)) :
    remainingLengthEncodedSize n = k + 1 ↔ k = 0 ∨ 128 ^ k ≤ n := by
  have hcases : k = 0 ∨ k = 1 ∨ k = 2 ∨ k = 3 := by omega
  unfold remainingLengthEncodedSize
  rcases hcases with rfl | rfl | rfl | rfl <;> norm_num at hlt ⊢ <;> split_ifs <;> omega

/-! ### Decoding -/

/-- A loop that has decided is not changed by more bytes. -/
theorem remainingLengthLoop_append {m : Nat}
    (h : remainingLengthLoop l r m b ≠ .error .needMoreBytes) (t : List UInt8) :
    remainingLengthLoop (l ++ t) r m b = remainingLengthLoop l r m b := by
  induction l generalizing r m b with
  | nil =>
    rw [remainingLengthLoop] at h
    have hlarge : m > 2097152 := by
      by_contra hsmall
      rw [if_neg hsmall] at h
      exact h rfl
    cases t with
    | nil => rfl
    | cons c t =>
      rw [List.nil_append, remainingLengthLoop, remainingLengthLoop, if_pos hlarge, if_pos hlarge]
  | cons c l ih =>
    rw [remainingLengthLoop] at h
    rw [List.cons_append, remainingLengthLoop, remainingLengthLoop]
    split
    · rfl
    · rename_i hsmall
      rw [if_neg hsmall] at h
      dsimp only at h ⊢
      split
      · rfl
      · rename_i hgo
        rw [if_neg hgo] at h
        exact ih h

/-- One round, as long as at most four groups are read. -/
theorem remainingLengthLoop_cons (hb : b < 4) (hr : r < 128 ^ b) (c : UInt8)
    (l : List UInt8) :
    remainingLengthLoop (c :: l) r (128 ^ b) b =
      if c.toNat < 128 then .ok (r + c.toNat * 128 ^ b, b + 1)
      else remainingLengthLoop l (r + c.toNat % 128 * 128 ^ b) (128 ^ (b + 1)) (b + 1) := by
  have hpow : 128 ^ b ≤ 2097152 := Nat.pow_le_pow_right (by decide) (Nat.le_of_lt_succ hb)
  have hvalid : r + c.toNat % 128 * 128 ^ b ≠ mqttRemainingLengthInvalid := by
    have hgroup : c.toNat % 128 * 128 ^ b ≤ 127 * 128 ^ b :=
      Nat.mul_le_mul_right _ (by omega)
    unfold mqttRemainingLengthInvalid
    omega
  rw [remainingLengthLoop, if_neg (Nat.not_lt.mpr hpow), toNat_low, Nat.pow_succ]
  dsimp only
  by_cases hlast : c.toNat < 128
  · rw [if_pos (.inr ((marked_iff c).mpr hlast)), if_pos hlast, Nat.mod_eq_of_lt hlast]
  · rw [if_neg, if_neg hlast]
    rintro (hinvalid | hmark)
    · exact hvalid hinvalid
    · exact hlast ((marked_iff c).mp hmark)

theorem group_lt {x : Nat} (hr : r < 128 ^ b) : r + x % 128 * 128 ^ b < 128 ^ (b + 1) := by
  have hgroup : x % 128 * 128 ^ b ≤ 127 * 128 ^ b := Nat.mul_le_mul_right _ (by omega)
  rw [Nat.pow_succ]
  omega

theorem lt_four_of_loop (hb : b < 4)
    (h : remainingLengthLoop l r (128 ^ (b + 1)) (b + 1) ≠ .error .badResponse) : b + 1 < 4 := by
  by_contra hge
  have hthree : b = 3 := by omega
  subst hthree
  exact h (by cases l <;> rfl)

theorem remainingLengthLoop_encode (hr : r < 128 ^ b) (hn : n * 128 ^ b < 128 ^ 4)
    (hb : b < 4) (t : List UInt8) :
    remainingLengthLoop (encodeRemainingLength n ++ t) r (128 ^ b) b =
      .ok (r + n * 128 ^ b, b + (encodeRemainingLength n).length) := by
  induction n using Nat.strongRecOn generalizing b r with
  | ind n ih =>
    by_cases hlast : n < 128
    · have hbyte : (UInt8.ofNat n).toNat = n := by
        rw [UInt8.toNat_ofNat']
        omega
      rw [encodeRemainingLength_of_lt hlast, List.cons_append, remainingLengthLoop_cons hb hr,
        hbyte, if_pos hlast]
      rfl
    · have hbyte : (UInt8.ofNat (n % 128) ||| 0x80).toNat = n % 128 + 128 := toNat_mark (by omega)
      have hdiv : n = n % 128 + n / 128 * 128 := by omega
      have hpow : 0 < 128 ^ b := Nat.pow_pos (by decide)
      -- the next group would be beyond the fourth otherwise
      have hnext : n / 128 * 128 ^ (b + 1) < 128 ^ 4 := by
        calc n / 128 * 128 ^ (b + 1) = n / 128 * 128 * 128 ^ b := by rw [Nat.pow_succ']; ring
          _ ≤ n * 128 ^ b := Nat.mul_le_mul_right _ (Nat.div_mul_le_self n 128)
          _ < 128 ^ 4 := hn
      have hb' : b + 1 < 4 := by
        by_contra hge
        have hthree : b = 3 := by omega
        subst hthree
        omega
      rw [encodeRemainingLength_of_ge (by omega), List.cons_append, remainingLengthLoop_cons hb hr,
        hbyte, if_neg (by omega), ih (n / 128) (by omega) (group_lt hr) hnext hb']
      congr 1
      refine Prod.ext ?_ ?_
      · change r + (n % 128 + 128) % 128 * 128 ^ b + n / 128 * 128 ^ (b + 1) = r + n * 128 ^ b
        have hmod : (n % 128 + 128) % 128 = n % 128 := by omega
        rw [hmod]
        calc r + n % 128 * 128 ^ b + n / 128 * 128 ^ (b + 1)
            = r + (n % 128 + n / 128 * 128) * 128 ^ b := by rw [Nat.pow_succ']; ring
          _ = r + n * 128 ^ b := by rw [← hdiv]
      · change b + 1 + (encodeRemainingLength (n / 128)).length =
          b + ((encodeRemainingLength (n / 128)).length + 1)
        omega

/-- What the loop has read: so many groups, which are the encoding of their value unless the
    last of several is empty. -/
theorem exists_of_remainingLengthLoop {v k : Nat} (hr : r < 128 ^ b) (hb : b < 4)
    (h : remainingLengthLoop l r (128 ^ b) b = .ok (v, k)) :
    ∃ n i, v = r + n * 128 ^ b ∧ k = b + i + 1 ∧ k ≤ 4 ∧ n < 128 ^ (i + 1) ∧
      (i = 0 ∨ 128 ^ i ≤ n → ∃ t, l = encodeRemainingLength n ++ t) := by
  induction l generalizing b r with
  | nil =>
    rw [remainingLengthLoop] at h
    split at h <;> cases h
  | cons c l ih =>
    rw [remainingLengthLoop_cons hb hr] at h
    by_cases hlast : c.toNat < 128
    · rw [if_pos hlast] at h
      obtain ⟨rfl, rfl⟩ := Prod.mk.inj (Except.ok.inj h)
      refine ⟨c.toNat, 0, rfl, rfl, hb, hlast, fun _ => ⟨l, ?_⟩⟩
      rw [encodeRemainingLength_of_lt hlast, UInt8.ofNat_toNat]
      rfl
    · rw [if_neg hlast] at h
      have hb' := lt_four_of_loop hb (by rw [h]; simp)
      obtain ⟨n, i, hv, hk, hle, hlt, henc⟩ := ih (group_lt hr) hb' h
      refine ⟨c.toNat % 128 + n * 128, i + 1, ?_, by omega, hle, ?_, ?_⟩
      · rw [hv, Nat.pow_succ']
        ring
      · rw [Nat.pow_succ]
        omega
      · intro hfull
        have hpow : 128 ^ i * 128 ≤ c.toNat % 128 + n * 128 :=
          hfull.resolve_left (Nat.succ_ne_zero i)
        have hone : 1 ≤ 128 ^ i := Nat.one_le_pow _ _ (by decide)
        obtain ⟨t, rfl⟩ := henc (.inr (by omega))
        refine ⟨t, ?_⟩
        have hmod : (c.toNat % 128 + n * 128) % 128 = c.toNat % 128 := by omega
        have hdiv : (c.toNat % 128 + n * 128) / 128 = n := by omega
        have hbyte : UInt8.ofNat (c.toNat % 128) ||| 0x80 = c := by
          apply UInt8.toNat.inj
          have hc := c.toNat_lt
          rw [toNat_mark (by omega)]
          omega
        have hge : 128 ≤ c.toNat % 128 + n * 128 := by omega
        rw [encodeRemainingLength_of_ge hge, hmod, hdiv, hbyte]
        rfl

theorem length_encode_eq (h : n ≤ mqttMaxRemainingLength) :
    (encodeRemainingLength n).length = remainingLengthEncodedSize n := by
  unfold mqttMaxRemainingLength at h
  obtain ⟨k, hk, hlt, hge⟩ : ∃ k < 4, n < 128 ^ (k + 1) ∧ (k = 0 ∨ 128 ^ k ≤ n) := by
    by_cases h₁ : n < 128 ^ 1
    · exact ⟨0, by decide, h₁, .inl rfl⟩
    by_cases h₂ : n < 128 ^ 2
    · exact ⟨1, by decide, h₂, .inr (Nat.not_lt.mp h₁)⟩
    by_cases h₃ : n < 128 ^ 3
    · exact ⟨2, by decide, h₃, .inr (Nat.not_lt.mp h₂)⟩
    · exact ⟨3, by decide, Nat.lt_succ_of_le h, .inr (Nat.not_lt.mp h₃)⟩
  rw [length_encodeRemainingLength hlt hge, (encodedSize_eq_iff hk hlt).mpr hge]

theorem processRemainingLength_of_error
    (h : remainingLengthLoop (stored.drop 1) 0 1 0 = .error e) :
    processRemainingLength stored = .error e := by
  rw [processRemainingLength, h]
  rfl

theorem processRemainingLength_of_ok {v k : Nat}
    (h : remainingLengthLoop (stored.drop 1) 0 1 0 = .ok (v, k)) :
    processRemainingLength stored =
      if k ≠ remainingLengthEncodedSize v then .error .badResponse else .ok (v, k + 1) := by
  rw [processRemainingLength, h]
  rfl

/-- A header is accepted exactly if the remaining length is encoded as `encodeRemainingLength`
    does it. -/
theorem processRemainingLength_eq_ok_iff {h : Nat} :
    processRemainingLength stored = .ok (n, h) ↔
      n ≤ mqttMaxRemainingLength ∧ h = (encodeRemainingLength n).length + 1 ∧
        ∃ t, stored.drop 1 = encodeRemainingLength n ++ t := by
  constructor
  · intro hok
    cases hloop : remainingLengthLoop (stored.drop 1) 0 1 0 with
    | error e =>
      rw [processRemainingLength_of_error hloop] at hok
      cases hok
    | ok out =>
      obtain ⟨v, k⟩ := out
      rw [processRemainingLength_of_ok hloop] at hok
      split at hok
      · cases hok
      · rename_i hsize
        obtain ⟨rfl, rfl⟩ := Prod.mk.inj (Except.ok.inj hok)
        obtain ⟨m, i, hv, hk, hle, hlt, henc⟩ :=
          exists_of_remainingLengthLoop (b := 0) (by decide) (by decide) hloop
        obtain rfl : v = m := by omega
        have hk' : k = i + 1 := by omega
        have hfull : i = 0 ∨ 128 ^ i ≤ v :=
          (encodedSize_eq_iff (by omega) hlt).mp (hk' ▸ (not_not.mp hsize).symm)
        have hmax : v < 128 ^ 4 :=
          Nat.lt_of_lt_of_le hlt (Nat.pow_le_pow_right (by decide) (by omega))
        refine ⟨Nat.le_of_lt_succ hmax, ?_, henc hfull⟩
        rw [length_encodeRemainingLength hlt hfull, hk']
  · rintro ⟨hmax, rfl, t, ht⟩
    have hloop : remainingLengthLoop (encodeRemainingLength n ++ t) 0 (128 ^ 0) 0 =
        .ok (0 + n * 128 ^ 0, 0 + (encodeRemainingLength n).length) :=
      remainingLengthLoop_encode (by decide) (by unfold mqttMaxRemainingLength at hmax; omega)
        (by decide) t
    rw [Nat.pow_zero, Nat.mul_one, Nat.zero_add, Nat.zero_add, ← ht] at hloop
    rw [processRemainingLength_of_ok hloop, if_neg (not_not.mpr (length_encode_eq hmax))]

theorem processRemainingLength_append (hne : stored ≠ [])
    (h : processRemainingLength stored ≠ .error .needMoreBytes) (t : List UInt8) :
    processRemainingLength (stored ++ t) = processRemainingLength stored := by
  have hdrop : (stored ++ t).drop 1 = stored.drop 1 ++ t := by
    cases stored with
    | nil => exact absurd rfl hne
    | cons c l => rfl
  have hloop : remainingLengthLoop (stored.drop 1) 0 1 0 ≠ .error .needMoreBytes := by
    intro hmore
    exact h (processRemainingLength_of_error hmore)
  rw [processRemainingLength, hdrop, remainingLengthLoop_append hloop]
  rfl

end remainingLength

/-! ### The fixed header -/

/-- Flags are ignored, except that a PUBREL has its second bit set. -/
def incomingPacketValid (packetType : UInt8) : Bool :=
  match packetType &&& 0xF0 with
  | 0x20 | 0x30 | 0x40 | 0x50 | 0x70 | 0x90 | 0xB0 | 0xD0 => true
  | 0x60 => packetType &&& 0x02 > 0
  | _ => false

/-- `MQTTPacketInfo_t` without the pointer to the data. -/
structure PacketInfo where
  type : UInt8
  remainingLength : Nat
  headerLength : Nat
deriving DecidableEq, Repr

def PacketInfo.total (p : PacketInfo) : Nat := p.remainingLength + p.headerLength

/-- `MQTT_ProcessIncomingPacketTypeAndLength`. -/
def processIncomingPacketTypeAndLength (stored : List UInt8) : Except MqttStatus PacketInfo :=
  match stored with
  | [] => .error .noDataAvailable
  | type :: _ =>
    if incomingPacketValid type then do
      let (remainingLength, headerLength) ← processRemainingLength stored
      return ⟨type, remainingLength, headerLength⟩
    else .error .badResponse

/-- The bytes of a packet. -/
def packetBytes (type : UInt8) (data : List UInt8) : List UInt8 :=
  type :: (encodeRemainingLength data.length ++ data)

/-- The bytes begin with this header, with the remaining length encoded as
    `encodeRemainingLength` does it. -/
def PacketInfo.Begins (p : PacketInfo) (stored : List UInt8) : Prop :=
  incomingPacketValid p.type = true ∧ p.remainingLength ≤ mqttMaxRemainingLength ∧
    p.headerLength = (encodeRemainingLength p.remainingLength).length + 1 ∧
    ∃ t, stored = p.type :: (encodeRemainingLength p.remainingLength ++ t)

section header

variable {stored l : List UInt8} {p : PacketInfo} {e : MqttStatus}

theorem processIncoming_eq_ok_iff :
    processIncomingPacketTypeAndLength stored = .ok p ↔ p.Begins stored := by
  unfold PacketInfo.Begins
  obtain ⟨type, n, h⟩ := p
  cases stored with
  | nil => simp [processIncomingPacketTypeAndLength]
  | cons c l =>
    have hlength : processRemainingLength (c :: l) = .ok (n, h) ↔ _ :=
      processRemainingLength_eq_ok_iff
    rw [List.drop_one, List.tail_cons] at hlength
    have hhead : processIncomingPacketTypeAndLength (c :: l) = .ok ⟨type, n, h⟩ ↔
        incomingPacketValid c = true ∧ c = type ∧ processRemainingLength (c :: l) = .ok (n, h) := by
      rw [processIncomingPacketTypeAndLength]
      by_cases hvalid : incomingPacketValid c = true
      · rw [if_pos hvalid]
        cases processRemainingLength (c :: l) with
        | error e =>
          constructor
          · intro heq
            cases heq
          · rintro ⟨-, -, heq⟩
            cases heq
        | ok out =>
          change Except.ok (⟨c, out.1, out.2⟩ : PacketInfo) = .ok ⟨type, n, h⟩ ↔ _
          simp [hvalid, Prod.ext_iff]
      · rw [if_neg hvalid]
        simp [hvalid]
    rw [hhead, hlength]
    constructor
    · rintro ⟨hvalid, rfl, hmax, hh, t, rfl⟩
      exact ⟨hvalid, hmax, hh, t, rfl⟩
    · rintro ⟨hvalid, hmax, hh, t, heq⟩
      obtain ⟨rfl, rfl⟩ := List.cons.inj heq
      exact ⟨hvalid, rfl, hmax, hh, t, rfl⟩

/-- What the front of the received bytes says about the next packet. -/
def front (stored : List UInt8) : Front :=
  match processIncomingPacketTypeAndLength stored with
  | .ok p => .size p.total
  | .error .noDataAvailable | .error .needMoreBytes => .more
  | .error _ => .bad

theorem processIncoming_append (h : front stored ≠ .more) (t : List UInt8) :
    processIncomingPacketTypeAndLength (stored ++ t) =
      processIncomingPacketTypeAndLength stored := by
  cases stored with
  | nil => exact absurd rfl h
  | cons c l =>
    rw [List.cons_append, processIncomingPacketTypeAndLength, processIncomingPacketTypeAndLength]
    by_cases hvalid : incomingPacketValid c = true
    · rw [if_pos hvalid, if_pos hvalid, ← List.cons_append,
        processRemainingLength_append (List.cons_ne_nil c l)]
      intro hmore
      rw [front, processIncomingPacketTypeAndLength, if_pos hvalid, hmore] at h
      exact h rfl
    · rw [if_neg hvalid, if_neg hvalid]

theorem front_eq_size_iff {n : Nat} :
    front stored = .size n ↔
      ∃ p, processIncomingPacketTypeAndLength stored = .ok p ∧ p.total = n := by
  unfold front
  cases processIncomingPacketTypeAndLength stored with
  | ok p => simp
  | error e => cases e <;> simp

def mqttFraming : Framing UInt8 where
  front := front
  size_pos h := by
    obtain ⟨p, hp, rfl⟩ := front_eq_size_iff.mp h
    obtain ⟨-, -, hheader, -⟩ := processIncoming_eq_ok_iff.mp hp
    unfold PacketInfo.total
    omega
  stable h t := by
    rw [front, processIncoming_append h]
    rfl
  own h := by
    obtain ⟨p, hp, rfl⟩ := front_eq_size_iff.mp h
    refine front_eq_size_iff.mpr ⟨p, ?_, rfl⟩
    obtain ⟨hvalid, hmax, hheader, t, rfl⟩ := processIncoming_eq_ok_iff.mp hp
    refine processIncoming_eq_ok_iff.mpr ⟨hvalid, hmax, hheader, t.take p.remainingLength, ?_⟩
    have htotal : p.total =
        (encodeRemainingLength p.remainingLength).length + p.remainingLength + 1 := by
      rw [PacketInfo.total, hheader]
      omega
    rw [htotal, List.take_succ_cons, List.take_length_add_append]

/-- The frames are the packets: a valid type, the remaining length as it is encoded, and as
    many bytes. -/
theorem isFrame_iff {f : List UInt8} :
    mqttFraming.IsFrame f ↔ ∃ type data, incomingPacketValid type = true ∧
      data.length ≤ mqttMaxRemainingLength ∧ f = packetBytes type data := by
  constructor
  · intro h
    obtain ⟨p, hp, htotal⟩ := front_eq_size_iff.mp h
    obtain ⟨hvalid, hmax, hheader, t, rfl⟩ := processIncoming_eq_ok_iff.mp hp
    have hlen : t.length = p.remainingLength := by
      rw [PacketInfo.total, hheader, List.length_cons, List.length_append] at htotal
      omega
    refine ⟨p.type, t, hvalid, by rwa [hlen], ?_⟩
    rw [packetBytes, hlen]
  · rintro ⟨type, data, hvalid, hmax, rfl⟩
    have hbegins : PacketInfo.Begins
        ⟨type, data.length, (encodeRemainingLength data.length).length + 1⟩
        (packetBytes type data) := ⟨hvalid, hmax, rfl, data, rfl⟩
    refine front_eq_size_iff.mpr ⟨_, processIncoming_eq_ok_iff.mpr hbegins, ?_⟩
    change data.length + ((encodeRemainingLength data.length).length + 1) = _
    rw [packetBytes, List.length_cons, List.length_append]
    omega

/-! ### When a header is decided -/

/-- A loop that waits for more would accept a last group of 1. -/
theorem remainingLengthLoop_one {b r : Nat} (hr : r < 128 ^ b) (hb : b < 4)
    (h : remainingLengthLoop l r (128 ^ b) b = .error .needMoreBytes) :
    ∃ v, remainingLengthLoop (l ++ [1]) r (128 ^ b) b = .ok (v, b + l.length + 1) ∧
      128 ^ (b + l.length) ≤ v := by
  induction l generalizing b r with
  | nil =>
    refine ⟨r + 1 * 128 ^ b, ?_, ?_⟩
    · rw [List.nil_append, remainingLengthLoop_cons hb hr]
      rfl
    · rw [List.length_nil, Nat.add_zero]
      omega
  | cons c l ih =>
    rw [remainingLengthLoop_cons hb hr] at h
    rw [List.cons_append, remainingLengthLoop_cons hb hr]
    split at h
    · cases h
    · rename_i hmarked
      have hb' := lt_four_of_loop hb (by rw [h]; simp)
      obtain ⟨v, hv, hle⟩ := ih (group_lt hr) hb' h
      refine ⟨v, ?_, ?_⟩
      · rw [if_neg hmarked, hv, List.length_cons]
        congr 2
        omega
      · rwa [List.length_cons, Nat.add_comm l.length 1, ← Nat.add_assoc]

theorem loop_of_needMoreBytes (h : processRemainingLength stored = .error .needMoreBytes) :
    remainingLengthLoop (stored.drop 1) 0 (128 ^ 0) 0 = .error .needMoreBytes := by
  rw [Nat.pow_zero]
  cases hout : remainingLengthLoop (stored.drop 1) 0 1 0 with
  | error e => rw [← h, processRemainingLength_of_error hout]
  | ok out =>
    rw [processRemainingLength_of_ok hout] at h
    split at h <;> cases h

theorem exists_processRemainingLength (hne : stored ≠ [])
    (h : processRemainingLength stored = .error .needMoreBytes) :
    stored.length < 5 ∧ ∃ out, processRemainingLength (stored ++ [1]) = .ok out := by
  have hdrop : (stored ++ [1]).drop 1 = stored.drop 1 ++ [1] := by
    cases stored with
    | nil => exact absurd rfl hne
    | cons c l => rfl
  obtain ⟨v, hv, hle⟩ :=
    remainingLengthLoop_one (by decide) (by decide) (loop_of_needMoreBytes h)
  obtain ⟨n, i, hn, hk, hfour, hlt, -⟩ := exists_of_remainingLengthLoop (by decide) (by decide) hv
  obtain rfl : v = n := by omega
  obtain rfl : i = (stored.drop 1).length := by omega
  have hsize := (encodedSize_eq_iff (by omega) hlt).mpr (.inr (by rwa [Nat.zero_add] at hle))
  refine ⟨?_, (v, 0 + (stored.drop 1).length + 1 + 1), ?_⟩
  · rw [List.length_drop] at hfour
    omega
  · rw [← hdrop] at hv
    rw [processRemainingLength_of_ok hv, if_neg (by rw [hsize]; omega)]

theorem remainingLengthLoop_error {r m b : Nat}
    (h : remainingLengthLoop l r m b = .error e) : e = .badResponse ∨ e = .needMoreBytes := by
  induction l generalizing r m b with
  | nil =>
    rw [remainingLengthLoop] at h
    split at h
    · exact .inl (Except.error.inj h).symm
    · exact .inr (Except.error.inj h).symm
  | cons c l ih =>
    rw [remainingLengthLoop] at h
    split at h
    · exact .inl (Except.error.inj h).symm
    · dsimp only at h
      split at h
      · cases h
      · exact ih h

theorem processRemainingLength_error
    (h : processRemainingLength stored = .error e) : e = .badResponse ∨ e = .needMoreBytes := by
  cases hloop : remainingLengthLoop (stored.drop 1) 0 1 0 with
  | error e' =>
    rw [processRemainingLength_of_error hloop] at h
    obtain rfl : e' = e := Except.error.inj h
    exact remainingLengthLoop_error hloop
  | ok out =>
    rw [processRemainingLength_of_ok hloop] at h
    split at h
    · exact .inl (Except.error.inj h).symm
    · cases h

theorem processIncoming_error {c : UInt8}
    (h : processIncomingPacketTypeAndLength (c :: l) = .error e) :
    e = .badResponse ∨ e = .needMoreBytes ∧ incomingPacketValid c = true ∧
      processRemainingLength (c :: l) = .error .needMoreBytes := by
  rw [processIncomingPacketTypeAndLength] at h
  split at h
  · rename_i hvalid
    cases hlength : processRemainingLength (c :: l) with
    | ok out =>
      rw [hlength] at h
      cases h
    | error e' =>
      rw [hlength] at h
      obtain rfl : e' = e := Except.error.inj h
      rcases processRemainingLength_error hlength with rfl | rfl
      · exact .inl rfl
      · exact .inr ⟨rfl, hvalid, rfl⟩
  · exact .inl (Except.error.inj h).symm

theorem length_lt_of_more (h : front stored = .more) : stored.length < 5 := by
  cases stored with
  | nil => exact Nat.succ_pos 4
  | cons c l =>
    rw [front] at h
    cases hout : processIncomingPacketTypeAndLength (c :: l) with
    | ok p =>
      rw [hout] at h
      cases h
    | error e =>
      rcases processIncoming_error hout with rfl | ⟨-, -, hmore⟩
      · rw [hout] at h
        cases h
      · exact (exists_processRemainingLength (List.cons_ne_nil c l) hmore).1

/-- Some header begins with what is stored, unless that has been refused. -/
theorem exists_begins (h : processIncomingPacketTypeAndLength stored ≠ .error .badResponse) :
    ∃ t p, PacketInfo.Begins p (stored ++ t) := by
  cases hout : processIncomingPacketTypeAndLength stored with
  | ok p =>
    refine ⟨[], p, ?_⟩
    rw [List.append_nil]
    exact processIncoming_eq_ok_iff.mp hout
  | error e =>
    cases stored with
    | nil => exact ⟨[0x20, 0x00], ⟨0x20, 0, 2⟩, processIncoming_eq_ok_iff.mp rfl⟩
    | cons c l =>
      rcases processIncoming_error hout with rfl | ⟨-, hvalid, hmore⟩
      · exact absurd hout h
      · obtain ⟨-, out, hok⟩ := exists_processRemainingLength (List.cons_ne_nil c l) hmore
        refine ⟨[1], ⟨c, out.1, out.2⟩, processIncoming_eq_ok_iff.mp ?_⟩
        rw [List.cons_append, processIncomingPacketTypeAndLength, if_pos hvalid,
          ← List.cons_append, hok]
        rfl

theorem not_begins_of_bad
    (h : processIncomingPacketTypeAndLength stored = .error .badResponse) (t : List UInt8)
    (p : PacketInfo) : ¬ p.Begins (stored ++ t) := by
  intro hbegins
  have hdecided : front stored ≠ .more := by
    rw [front, h]
    simp
  have happend := processIncoming_append hdecided t
  rw [processIncoming_eq_ok_iff.mpr hbegins, h] at happend
  cases happend

end header

/-- A header is accepted as soon as it is complete and if it is the one of some packet, and it
    is refused as soon as no packet can begin like this any more. -/
theorem header_decided_exactly (stored : List UInt8) :
    (∀ p, processIncomingPacketTypeAndLength stored = .ok p ↔ p.Begins stored) ∧
      (processIncomingPacketTypeAndLength stored = .error .badResponse ↔
        ∀ t p, ¬ PacketInfo.Begins p (stored ++ t)) ∧
      (processIncomingPacketTypeAndLength stored = .error .needMoreBytes ↔
        stored ≠ [] ∧ (∀ p, ¬ PacketInfo.Begins p stored) ∧
          ∃ t p, PacketInfo.Begins p (stored ++ t)) := by
  refine ⟨fun p => processIncoming_eq_ok_iff, ⟨not_begins_of_bad, ?_⟩, ⟨?_, ?_⟩⟩
  · intro hnone
    by_contra hgood
    obtain ⟨t, p, hbegins⟩ := exists_begins hgood
    exact hnone t p hbegins
  · intro hmore
    refine ⟨?_, ?_, exists_begins (by rw [hmore]; simp)⟩
    · rintro rfl
      cases hmore
    · intro p hbegins
      rw [processIncoming_eq_ok_iff.mpr hbegins] at hmore
      cases hmore
  · rintro ⟨hne, hundecided, t, p, hbegins⟩
    cases hout : processIncomingPacketTypeAndLength stored with
    | ok q => exact absurd (processIncoming_eq_ok_iff.mp hout) (hundecided q)
    | error e =>
      cases stored with
      | nil => exact absurd rfl hne
      | cons c l =>
        rcases processIncoming_error hout with rfl | ⟨rfl, -⟩
        · exact absurd hbegins (not_begins_of_bad hout t p)
        · rfl

end FlintRTOS.CoreMqtt
