import FlintRTOS.BigEndian

/-!
# Message tags

`msgtag.c` packs label, length, number of capabilities and flags of a message into one
word, from the most significant bits to the least.  As a number the word is the mixed
radix sum of the four fields (`toNat_joined`), and each accessor is a quotient and a
remainder of it.
-/

namespace FlintRTOS

/-- `flint_status_t`, as far as `msgtag.c` returns it. -/
inductive TagStatus where
  | ok
  | msgTooLong
  | range
deriving DecidableEq, Repr

def flintCfgMrMax : UInt32 := 64

def flintCfgMsgMaxCaps : UInt32 := 4

namespace MsgTag

def labelMax : UInt32 := 0xFFFF

def lengthMax : UInt32 := 0x7F

def ncapsMax : UInt32 := 0x07

def flagsMax : UInt32 := 0x3F

/-- The word put together from its fields. -/
def joined (label : UInt16) (length nCaps flags : UInt8) : UInt32 :=
  let tag : UInt32 := 0
  let tag := tag ||| (flags.toUInt32 &&& flagsMax) <<< 0
  let tag := tag ||| (nCaps.toUInt32 &&& ncapsMax) <<< 6
  let tag := tag ||| (length.toUInt32 &&& lengthMax) <<< 9
  tag ||| (label.toUInt32 &&& labelMax) <<< 16

end MsgTag

open MsgTag

/-- The status, and what `out_tag` points to afterwards; `none` is the null pointer. -/
def flintMsgtagPack (label : UInt16) (length nCaps flags : UInt8) (outTag : Option UInt32) :
    TagStatus × Option UInt32 :=
  if outTag = none then (.range, outTag)
  else if length > lengthMax.toUInt8 ∨ length.toUInt32 > flintCfgMrMax then (.msgTooLong, outTag)
  else if nCaps > ncapsMax.toUInt8 ∨ nCaps.toUInt32 > flintCfgMsgMaxCaps then
    (.msgTooLong, outTag)
  else if flags > flagsMax.toUInt8 then (.range, outTag)
  else (.ok, some (joined label length nCaps flags))

def flintMsgtagLabel (tag : UInt32) : UInt16 := (tag >>> 16 &&& labelMax).toUInt16

def flintMsgtagLength (tag : UInt32) : UInt8 := (tag >>> 9 &&& lengthMax).toUInt8

def flintMsgtagNcaps (tag : UInt32) : UInt8 := (tag >>> 6 &&& ncapsMax).toUInt8

def flintMsgtagFlags (tag : UInt32) : UInt8 := (tag >>> 0 &&& flagsMax).toUInt8

/-! ### The word as a number -/

/-- The limits of the configuration, which are within the widths of the fields. -/
structure Admissible (length nCaps flags : UInt8) : Prop where
  length : length.toNat ≤ flintCfgMrMax.toNat
  nCaps : nCaps.toNat ≤ flintCfgMsgMaxCaps.toNat
  flags : flags.toNat ≤ flagsMax.toNat

namespace MsgTag

/-- A field of `w` bits is put above the `k` bits that are there already. -/
theorem toNat_or_field {lo hi mask : UInt32} (k w : Nat) (hmask : mask.toNat = 2 ^ w - 1)
    (hwidth : k + w ≤ 32) (hk : k < 32) (hlo : lo.toNat < 2 ^ k) (hhi : hi.toNat < 2 ^ w) :
    (lo ||| (hi &&& mask) <<< UInt32.ofNat k).toNat = hi.toNat * 2 ^ k + lo.toNat := by
  have hsmall : (UInt32.ofNat k).toNat % 32 = k := by
    rw [UInt32.toNat_ofNat']
    omega
  have hand : (hi &&& mask).toNat = hi.toNat := by
    rw [UInt32.toNat_and, hmask, Nat.and_two_pow_sub_one_eq_mod, Nat.mod_eq_of_lt hhi]
  have hfit : hi.toNat * 2 ^ k < 2 ^ 32 := by
    calc hi.toNat * 2 ^ k < 2 ^ w * 2 ^ k := Nat.mul_lt_mul_of_pos_right hhi (Nat.two_pow_pos k)
      _ = 2 ^ (k + w) := by rw [Nat.pow_add, Nat.mul_comm]
      _ ≤ 2 ^ 32 := Nat.pow_le_pow_right (by decide) hwidth
  rw [UInt32.toNat_or, UInt32.toNat_shiftLeft, hand, hsmall, Nat.shiftLeft_eq,
    Nat.mod_eq_of_lt hfit, Nat.or_comm]
  exact BigEndian.mul_two_pow_or hlo _

theorem toNat_field (tag mask : UInt32) (k w : Nat) (hmask : mask.toNat = 2 ^ w - 1)
    (hk : k < 32) : (tag >>> UInt32.ofNat k &&& mask).toNat = tag.toNat / 2 ^ k % 2 ^ w := by
  have hsmall : (UInt32.ofNat k).toNat % 32 = k := by
    rw [UInt32.toNat_ofNat']
    omega
  rw [UInt32.toNat_and, hmask, Nat.and_two_pow_sub_one_eq_mod, UInt32.toNat_shiftRight, hsmall,
    Nat.shiftRight_eq_div_pow]

/-- From the flags up, each field is put above the ones before it. -/
theorem toNat_joined (label : UInt16) {length nCaps flags : UInt8}
    (h : Admissible length nCaps flags) :
    (joined label length nCaps flags).toNat =
      label.toNat * 65536 + (length.toNat * 512 + (nCaps.toNat * 64 + flags.toNat)) := by
  have hlength : length.toUInt32.toNat ≤ 64 := (UInt8.toNat_toUInt32 _).trans_le h.length
  have hcaps : nCaps.toUInt32.toNat ≤ 4 := (UInt8.toNat_toUInt32 _).trans_le h.nCaps
  have hflags : flags.toUInt32.toNat ≤ 63 := (UInt8.toNat_toUInt32 _).trans_le h.flags
  have hlabel : label.toUInt32.toNat < 65536 := (UInt16.toNat_toUInt32 _).trans_lt label.toNat_lt
  have h₀ : ((0 : UInt32) ||| (flags.toUInt32 &&& flagsMax) <<< UInt32.ofNat 0).toNat = _ :=
    toNat_or_field 0 6 rfl (by decide) (by decide) (by decide) (by omega)
  rw [show (0 : UInt32).toNat = 0 from rfl] at h₀
  have h₁ : (_ ||| (nCaps.toUInt32 &&& ncapsMax) <<< UInt32.ofNat 6).toNat = _ :=
    toNat_or_field 6 3 rfl (by decide) (by decide) (by rw [h₀]; omega) (by omega)
  rw [h₀] at h₁
  have h₂ : (_ ||| (length.toUInt32 &&& lengthMax) <<< UInt32.ofNat 9).toNat = _ :=
    toNat_or_field 9 7 rfl (by decide) (by decide) (by rw [h₁]; omega) (by omega)
  rw [h₁] at h₂
  have h₃ : (_ ||| (label.toUInt32 &&& labelMax) <<< UInt32.ofNat 16).toNat = _ :=
    toNat_or_field 16 16 rfl (by decide) (by decide) (by rw [h₂]; omega) (by omega)
  rw [h₂] at h₃
  simp only [UInt8.toNat_toUInt32, UInt16.toNat_toUInt32] at h₃
  refine Eq.trans ?_ (h₃.trans (by omega))
  rfl

theorem toNat_label (tag : UInt32) : (flintMsgtagLabel tag).toNat = tag.toNat / 65536 := by
  have hfield := toNat_field tag labelMax 16 16 rfl (by decide)
  have hlt := tag.toNat_lt
  rw [flintMsgtagLabel, UInt32.toNat_toUInt16]
  change (tag >>> UInt32.ofNat 16 &&& labelMax).toNat % _ = _
  rw [hfield]
  omega

theorem toNat_length (tag : UInt32) : (flintMsgtagLength tag).toNat = tag.toNat / 512 % 128 := by
  have hfield := toNat_field tag lengthMax 9 7 rfl (by decide)
  rw [flintMsgtagLength, UInt32.toNat_toUInt8]
  change (tag >>> UInt32.ofNat 9 &&& lengthMax).toNat % _ = _
  rw [hfield]
  omega

theorem toNat_ncaps (tag : UInt32) : (flintMsgtagNcaps tag).toNat = tag.toNat / 64 % 8 := by
  have hfield := toNat_field tag ncapsMax 6 3 rfl (by decide)
  rw [flintMsgtagNcaps, UInt32.toNat_toUInt8]
  change (tag >>> UInt32.ofNat 6 &&& ncapsMax).toNat % _ = _
  rw [hfield]
  omega

theorem toNat_flags (tag : UInt32) : (flintMsgtagFlags tag).toNat = tag.toNat % 64 := by
  have hfield := toNat_field tag flagsMax 0 6 rfl (by decide)
  rw [flintMsgtagFlags, UInt32.toNat_toUInt8]
  change (tag >>> UInt32.ofNat 0 &&& flagsMax).toNat % _ = _
  rw [hfield]
  omega

/-- Reading the fields of a word that was put together. -/
theorem fields_joined (label : UInt16) {length nCaps flags : UInt8}
    (h : Admissible length nCaps flags) :
    flintMsgtagLabel (joined label length nCaps flags) = label ∧
      flintMsgtagLength (joined label length nCaps flags) = length ∧
      flintMsgtagNcaps (joined label length nCaps flags) = nCaps ∧
      flintMsgtagFlags (joined label length nCaps flags) = flags := by
  have hjoined := toNat_joined label h
  have hlength : length.toNat ≤ 64 := h.length
  have hcaps : nCaps.toNat ≤ 4 := h.nCaps
  have hflags : flags.toNat ≤ 63 := h.flags
  refine ⟨UInt16.toNat_inj.mp ?_, UInt8.toNat_inj.mp ?_, UInt8.toNat_inj.mp ?_,
    UInt8.toNat_inj.mp ?_⟩
  · rw [toNat_label]
    omega
  · rw [toNat_length]
    omega
  · rw [toNat_ncaps]
    omega
  · rw [toNat_flags]
    omega

theorem joined_fields {tag : UInt32}
    (h : Admissible (flintMsgtagLength tag) (flintMsgtagNcaps tag) (flintMsgtagFlags tag)) :
    joined (flintMsgtagLabel tag) (flintMsgtagLength tag) (flintMsgtagNcaps tag)
      (flintMsgtagFlags tag) = tag := by
  apply UInt32.toNat_inj.mp
  rw [toNat_joined _ h, toNat_label, toNat_length, toNat_ncaps, toNat_flags]
  omega

end MsgTag

/-! ### The codec -/

/-- The four tests, of which the configured limits decide. -/
theorem flintMsgtagPack_cases (label : UInt16) (length nCaps flags : UInt8)
    (outTag : Option UInt32) :
    (Admissible length nCaps flags ∧ outTag ≠ none ∧
        flintMsgtagPack label length nCaps flags outTag =
          (.ok, some (joined label length nCaps flags))) ∨
      (¬ (Admissible length nCaps flags ∧ outTag ≠ none) ∧
        (flintMsgtagPack label length nCaps flags outTag).1 ≠ .ok ∧
        (flintMsgtagPack label length nCaps flags outTag).2 = outTag) := by
  have hlength : length > lengthMax.toUInt8 ∨ length.toUInt32 > flintCfgMrMax ↔
      ¬ length.toNat ≤ flintCfgMrMax.toNat := by
    have hmax : flintCfgMrMax.toNat = 64 := rfl
    have hwidth : lengthMax.toUInt8.toNat = 127 := rfl
    rw [gt_iff_lt, gt_iff_lt, UInt8.lt_iff_toNat_lt, UInt32.lt_iff_toNat_lt, UInt8.toNat_toUInt32]
    omega
  have hcaps : nCaps > ncapsMax.toUInt8 ∨ nCaps.toUInt32 > flintCfgMsgMaxCaps ↔
      ¬ nCaps.toNat ≤ flintCfgMsgMaxCaps.toNat := by
    have hmax : flintCfgMsgMaxCaps.toNat = 4 := rfl
    have hwidth : ncapsMax.toUInt8.toNat = 7 := rfl
    rw [gt_iff_lt, gt_iff_lt, UInt8.lt_iff_toNat_lt, UInt32.lt_iff_toNat_lt, UInt8.toNat_toUInt32]
    omega
  have hflags : flags > flagsMax.toUInt8 ↔ ¬ flags.toNat ≤ flagsMax.toNat := by
    rw [gt_iff_lt, UInt8.lt_iff_toNat_lt, not_le]
    rfl
  unfold flintMsgtagPack
  simp only [hlength, hcaps, hflags]
  split
  · rename_i hnull
    exact .inr ⟨fun h => h.2 hnull, nofun, rfl⟩
  split
  · rename_i hlong
    exact .inr ⟨fun h => hlong h.1.length, nofun, rfl⟩
  split
  · rename_i hmany
    exact .inr ⟨fun h => hmany h.1.nCaps, nofun, rfl⟩
  split
  · rename_i hwide
    exact .inr ⟨fun h => hwide h.1.flags, nofun, rfl⟩
  · rename_i hnull hlong hmany hwide
    exact .inl ⟨⟨not_not.mp hlong, not_not.mp hmany, not_not.mp hwide⟩, hnull, rfl⟩

theorem fields_of_packed {label : UInt16} {length nCaps flags : UInt8} {outTag : Option UInt32}
    {tag : UInt32} (h : flintMsgtagPack label length nCaps flags outTag = (.ok, some tag)) :
    flintMsgtagLabel tag = label ∧ flintMsgtagLength tag = length ∧
      flintMsgtagNcaps tag = nCaps ∧ flintMsgtagFlags tag = flags := by
  rcases flintMsgtagPack_cases label length nCaps flags outTag with ⟨hfits, _, heq⟩ | ⟨_, hne, _⟩
  · rw [heq] at h
    cases h
    exact fields_joined label hfits
  · exact absurd (congrArg Prod.fst h) hne

/-- Packing succeeds exactly within the configured limits and with somewhere to write.
    Then the accessors return what was packed, so no two messages have one tag;
    otherwise nothing is written.  Packing the fields of any word again fails or gives
    that word. -/
theorem msgtag_codec (label : UInt16) (length nCaps flags : UInt8) (outTag : Option UInt32) :
    ((flintMsgtagPack label length nCaps flags outTag).1 = .ok ↔
      length.toNat ≤ flintCfgMrMax.toNat ∧ nCaps.toNat ≤ flintCfgMsgMaxCaps.toNat ∧
        flags.toNat ≤ 0x3F ∧ outTag ≠ none) ∧
      ((flintMsgtagPack label length nCaps flags outTag).1 = .ok →
        ∃ tag, (flintMsgtagPack label length nCaps flags outTag).2 = some tag ∧
          flintMsgtagLabel tag = label ∧ flintMsgtagLength tag = length ∧
          flintMsgtagNcaps tag = nCaps ∧ flintMsgtagFlags tag = flags) ∧
      ((flintMsgtagPack label length nCaps flags outTag).1 ≠ .ok →
        (flintMsgtagPack label length nCaps flags outTag).2 = outTag) ∧
      (∀ label' length' nCaps' flags' outTag' tag,
        flintMsgtagPack label length nCaps flags outTag = (.ok, some tag) →
        flintMsgtagPack label' length' nCaps' flags' outTag' = (.ok, some tag) →
        label = label' ∧ length = length' ∧ nCaps = nCaps' ∧ flags = flags') ∧
      ∀ tag : UInt32,
        (flintMsgtagPack (flintMsgtagLabel tag) (flintMsgtagLength tag) (flintMsgtagNcaps tag)
            (flintMsgtagFlags tag) outTag).1 ≠ .ok ∨
          flintMsgtagPack (flintMsgtagLabel tag) (flintMsgtagLength tag) (flintMsgtagNcaps tag)
            (flintMsgtagFlags tag) outTag = (.ok, some tag) := by
  refine ⟨?_, ?_, ?_, ?_, ?_⟩
  · rcases flintMsgtagPack_cases label length nCaps flags outTag with ⟨hfits, hout, heq⟩ | ⟨hno, hne, _⟩
    · exact ⟨fun _ => ⟨hfits.length, hfits.nCaps, hfits.flags, hout⟩, fun _ => by rw [heq]⟩
    · exact ⟨fun h => absurd h hne, fun ⟨h₁, h₂, h₃, h₄⟩ => absurd ⟨⟨h₁, h₂, h₃⟩, h₄⟩ hno⟩
  · intro hok
    rcases flintMsgtagPack_cases label length nCaps flags outTag with ⟨hfits, _, heq⟩ | ⟨_, hne, _⟩
    · exact ⟨_, by rw [heq], fields_joined label hfits⟩
    · exact absurd hok hne
  · intro hfail
    rcases flintMsgtagPack_cases label length nCaps flags outTag with ⟨_, _, heq⟩ | ⟨_, _, hsame⟩
    · exact absurd (by rw [heq]) hfail
    · exact hsame
  · intro label' length' nCaps' flags' outTag' tag h h'
    obtain ⟨rfl, rfl, rfl, rfl⟩ := fields_of_packed h
    exact fields_of_packed h'
  · intro tag
    rcases flintMsgtagPack_cases (flintMsgtagLabel tag) (flintMsgtagLength tag) (flintMsgtagNcaps tag)
      (flintMsgtagFlags tag) outTag with ⟨hfits, _, heq⟩ | ⟨_, hne, _⟩
    · exact .inr (heq.trans (by rw [joined_fields hfits]))
    · exact .inl hne

/-- The widest admissible message, and a length that its field could hold. -/
example : flintMsgtagPack 0xFFFF 64 4 0x3F (some 0) = (.ok, some 0xFFFF813F) ∧
    flintMsgtagPack 0xFFFF 65 4 0x3F (some 7) = (.msgTooLong, some 7) := by
  decide

end FlintRTOS
