import FlintRTOS.Json
import FlintRTOS.Numeral
import Mathlib.Algebra.Order.Group.Nat
import Mathlib.Data.List.Range
import Mathlib.Logic.Function.Basic

/-!
# The bounded JSON writer

`jsonw.c` writes a JSON document with calls that append to a bounded buffer.  The only
thing it remembers of what it has written is `need_comma`, and the only thing it says
about the capacity is `overflow`.

What a call writes depends on `need_comma` alone (`Call.bytes`), and the buffer holds as
much of what the calls have written as it has room for: `Holds` says what a writer is after
some characters, and one character preserves it.  The calls for a tree derive a JSON text
for it, by induction over the tree.
-/

namespace FlintRTOS.JsonWriter

open Json (Container)

/-! ### `jsonw.c` -/

/-- `tmp` of `fm_u64_to_str`, least significant digit first; the fuel is its size. -/
def tmpDigits : Nat → UInt64 → List UInt8
  | 0, _ => []
  | n + 1, v =>
    ('0'.toUInt8 + (v % 10).toUInt8) :: if v / 10 = 0 then [] else tmpDigits n (v / 10)

def fmU64ToStr (v : UInt64) : List UInt8 :=
  (tmpDigits 21 v).reverse

structure JsonW where
  buf : Nat → UInt8
  cap : Nat
  len : Nat
  overflow : Bool
  needComma : Bool

namespace JsonW

def putC (w : JsonW) (c : UInt8) : JsonW :=
  if w.len + 1 < w.cap then
    { w with
      buf := Function.update (Function.update w.buf w.len c) (w.len + 1) 0
      len := w.len + 1 }
  else { w with overflow := true }

/-- A C string is given by its bytes; a NUL among them ends it early. -/
def putS (w : JsonW) : List UInt8 → JsonW
  | [] => w
  | c :: s => if c = 0 then w else (w.putC c).putS s

/-- The loop of `put_escaped`. -/
def putEscapedChars (w : JsonW) : List UInt8 → JsonW
  | [] => w
  | c :: s =>
    if c = 0 then w
    else if c = '"'.toUInt8 ∨ c = '\\'.toUInt8 then
      ((w.putC '\\'.toUInt8).putC c).putEscapedChars s
    else if c < 0x20 then (w.putC ' '.toUInt8).putEscapedChars s
    else (w.putC c).putEscapedChars s

def putEscaped (w : JsonW) (s : List UInt8) : JsonW :=
  ((w.putC '"'.toUInt8).putEscapedChars s).putC '"'.toUInt8

def sep (w : JsonW) : JsonW :=
  { if w.needComma then w.putC ','.toUInt8 else w with needComma := true }

/-- `none` is the null pointer. -/
def key (w : JsonW) : Option (List UInt8) → JsonW
  | none => w.sep
  | some k => (w.sep.putEscaped k).putC ':'.toUInt8

def jwInit (buf : Nat → UInt8) (cap : Nat) : JsonW where
  buf := if 0 < cap then Function.update buf 0 0 else buf
  cap := cap
  len := 0
  overflow := false
  needComma := false

def jwObjOpen (w : JsonW) : JsonW :=
  { w.sep.putC '{'.toUInt8 with needComma := false }

def jwObjClose (w : JsonW) : JsonW :=
  { w.putC '}'.toUInt8 with needComma := true }

def jwArrOpen (w : JsonW) (k : Option (List UInt8)) : JsonW :=
  { (w.key k).putC '['.toUInt8 with needComma := false }

def jwArrClose (w : JsonW) : JsonW :=
  { w.putC ']'.toUInt8 with needComma := true }

def jwStr (w : JsonW) (k : Option (List UInt8)) (v : List UInt8) : JsonW :=
  (w.key k).putEscaped v

/-- `-(v + 1)` does not overflow for a negative `v`. -/
def jwI64 (w : JsonW) (k : Option (List UInt8)) (v : Int64) : JsonW :=
  if v < 0 then
    ((w.key k).putC '-'.toUInt8).putS (fmU64ToStr ((-(v + 1)).toUInt64 + 1))
  else (w.key k).putS (fmU64ToStr v.toUInt64)

def jwU32 (w : JsonW) (k : Option (List UInt8)) (v : UInt32) : JsonW :=
  (w.key k).putS (fmU64ToStr v.toUInt64)

def jwBool (w : JsonW) (k : Option (List UInt8)) (v : Bool) : JsonW :=
  (w.key k).putS
    (if v then ['t'.toUInt8, 'r'.toUInt8, 'u'.toUInt8, 'e'.toUInt8]
    else ['f'.toUInt8, 'a'.toUInt8, 'l'.toUInt8, 's'.toUInt8, 'e'.toUInt8])

def jwLen (w : JsonW) : Nat := w.len

def jwOk (w : JsonW) : Bool := !w.overflow

/-- The bytes that have been written, read as characters. -/
def text (w : JsonW) : List Char :=
  (List.range w.jwLen).map fun i => Char.ofUInt8 (w.buf i)

end JsonW

/-! ### Calls and trees -/

inductive Call where
  | objOpen
  | objClose
  | arrOpen (key : Option (List UInt8))
  | arrClose
  | str (key : Option (List UInt8)) (val : List UInt8)
  | i64 (key : Option (List UInt8)) (val : Int64)
  | u32 (key : Option (List UInt8)) (val : UInt32)
  | bool (key : Option (List UInt8)) (val : Bool)

def JsonW.call (w : JsonW) : Call → JsonW
  | .objOpen => w.jwObjOpen
  | .objClose => w.jwObjClose
  | .arrOpen k => w.jwArrOpen k
  | .arrClose => w.jwArrClose
  | .str k v => w.jwStr k v
  | .i64 k v => w.jwI64 k v
  | .u32 k v => w.jwU32 k v
  | .bool k v => w.jwBool k v

/-- A NUL-free string. -/
abbrev CStr : Type := { s : List UInt8 // 0 ∉ s }

/-- Members of an object have a key, elements of an array have none. -/
abbrev Key : Container → Type
  | .array => Unit
  | .object => CStr

inductive Scalar where
  | str (v : CStr)
  | i64 (v : Int64)
  | u32 (v : UInt32)
  | bool (v : Bool)

/-- The entries of an array or object.  Only an array has objects among its entries. -/
inductive Entries : Container → Type where
  | nil {c : Container} : Entries c
  | scalar {c : Container} (k : Key c) (v : Scalar) (rest : Entries c) : Entries c
  | array {c : Container} (k : Key c) (elements : Entries .array) (rest : Entries c) : Entries c
  | object (members : Entries .object) (rest : Entries .array) : Entries .array

def Key.arg : (c : Container) → Key c → Option (List UInt8)
  | .array, _ => none
  | .object, k => some k.val

def Scalar.call (k : Option (List UInt8)) : Scalar → Call
  | str v => .str k v.val
  | i64 v => .i64 k v
  | u32 v => .u32 k v
  | bool v => .bool k v

def Entries.calls {c : Container} : Entries c → List Call
  | nil => []
  | scalar k v rest => v.call (k.arg c) :: rest.calls
  | array k elements rest => .arrOpen (k.arg c) :: (elements.calls ++ .arrClose :: rest.calls)
  | object members rest => .objOpen :: (members.calls ++ .objClose :: rest.calls)

/-- The well-nested calls that write a tree. -/
def Entries.document (t : Entries .object) : List Call :=
  .objOpen :: (t.calls ++ [.objClose])

/-- The writer after a tree has been written to a buffer. -/
def Entries.write (t : Entries .object) (buf : Nat → UInt8) (cap : Nat) : JsonW :=
  t.document.foldl JsonW.call (JsonW.jwInit buf cap)

/-! ### What a tree stands for -/

def CStr.chars (s : CStr) : List Char :=
  s.val.map Char.ofUInt8

def Scalar.value : Scalar → Json
  | str v => .string v.chars
  | i64 v => .number ⟨v.toInt, 0⟩
  | u32 v => .number ⟨v.toNat, 0⟩
  | bool v => .bool v

def Key.entry : (c : Container) → Key c → Json → c.Content → c.Content
  | .array, _, v, rest => v :: rest
  | .object, k, v, rest => (k.chars, v) :: rest

def Entries.content {c : Container} : Entries c → c.Content
  | nil => c.empty
  | scalar k v rest => k.entry c v.value rest.content
  | array k elements rest => k.entry c (.array elements.content) rest.content
  | object members rest => .object members.content :: rest.content

/-- A byte, with a space for every control character. -/
def spacedByte (c : UInt8) : UInt8 :=
  if c < 0x20 then ' '.toUInt8 else c

theorem spacedByte_ne_zero (c : UInt8) : spacedByte c ≠ 0 := by
  unfold spacedByte
  split
  · decide
  · next h => rintro rfl; exact h (by decide)

def CStr.spaced (s : CStr) : CStr :=
  ⟨s.val.map spacedByte, fun h => by
    obtain ⟨c, -, hc⟩ := List.mem_map.mp h
    exact spacedByte_ne_zero c hc⟩

def Key.spaced : (c : Container) → Key c → Key c
  | .array, k => k
  | .object, k => CStr.spaced k

def Scalar.spaced : Scalar → Scalar
  | str v => .str v.spaced
  | i64 v => .i64 v
  | u32 v => .u32 v
  | bool v => .bool v

/-- The tree with a space for every control character of its keys and strings. -/
def Entries.spaced {c : Container} : Entries c → Entries c
  | nil => nil
  | scalar k v rest => scalar (k.spaced c) v.spaced rest.spaced
  | array k elements rest => array (k.spaced c) elements.spaced rest.spaced
  | object members rest => object members.spaced rest.spaced

/-! ### Decimal numerals -/

theorem toUInt8_mod_ten64 (v : UInt64) : (v % 10).toUInt8 = UInt8.ofNat (v.toNat % 10) :=
  congrArg UInt8.ofNat (UInt64.toNat_mod v 10)

theorem toNat_div_ten (v : UInt64) : (v / 10).toNat = v.toNat / 10 := UInt64.toNat_div v 10

variable {v : UInt64} {out : List UInt8} {c : Container}

theorem div_ten_eq_zero_iff : v / 10 = 0 ↔ v.toNat < 10 := by
  rw [← UInt64.toNat_inj, toNat_div_ten]
  change v.toNat / 10 = 0 ↔ v.toNat < 10
  omega

/-- A further digit is there because the number is too large without it. -/
theorem div_ten_lt {room : Nat} (hv : v.toNat < 10 ^ (room + 1)) (hnz : v / 10 ≠ 0) :
    10 ≤ v.toNat ∧ 0 < room ∧ (v / 10).toNat < 10 ^ room := by
  have hge : 10 ≤ v.toNat := Nat.le_of_not_lt fun h => hnz (div_ten_eq_zero_iff.mpr h)
  refine ⟨hge, Nat.pos_of_ne_zero ?_, ?_⟩
  · rintro rfl
    omega
  · rw [toNat_div_ten]
    exact Nat.div_lt_of_lt_mul (by rwa [Nat.pow_succ'] at hv)

/-- Turned around the digits are those of the numeral, whatever room there was for more. -/
theorem reverse_tmpDigits {room : Nat} (hroom : 0 < room) (hv : v.toNat < 10 ^ room) :
    (tmpDigits room v).reverse = Numeral.digits v.toNat := by
  induction room generalizing v with
  | zero => exact absurd hroom (Nat.lt_irrefl 0)
  | succ room ih =>
    rw [tmpDigits, toUInt8_mod_ten64]
    split
    · next hz =>
      have hlt := div_ten_eq_zero_iff.mp hz
      rw [Numeral.digits_of_lt hlt, Nat.mod_eq_of_lt hlt]
      rfl
    · next hnz =>
      obtain ⟨hge, hroom, hlt⟩ := div_ten_lt hv hnz
      rw [List.reverse_cons, ih hroom hlt, toNat_div_ten, Numeral.digits_of_le hge]

theorem lt_pow_digits (v : UInt64) : v.toNat < 10 ^ 21 :=
  Nat.lt_trans v.toNat_lt (by decide)

theorem toUInt8_ofUInt8 (c : UInt8) : (Char.ofUInt8 c).toUInt8 = c :=
  UInt8.toUInt8_toUInt32 c

theorem toNat_ofUInt8 (c : UInt8) : (Char.ofUInt8 c).toNat = c.toNat :=
  UInt8.toNat_toUInt32 c

theorem isDigit_ofUInt8 {c : UInt8} (hc : '0'.toUInt8 ≤ c ∧ c ≤ '9'.toUInt8) :
    (Char.ofUInt8 c).isDigit = true := by
  have hnat := toNat_ofUInt8 c
  have hlow : 48 ≤ c.toNat := UInt8.le_iff_toNat_le.mp hc.1
  have hhigh : c.toNat ≤ 57 := UInt8.le_iff_toNat_le.mp hc.2
  refine Bool.and_eq_true_iff.mpr ⟨decide_eq_true ?_, decide_eq_true ?_⟩
  · change 48 ≤ (Char.ofUInt8 c).toNat
    omega
  · change (Char.ofUInt8 c).toNat ≤ 57
    omega

theorem fmU64ToStr_eq_digits (v : UInt64) : fmU64ToStr v = Numeral.digits v.toNat :=
  reverse_tmpDigits (by decide) (lt_pow_digits v)

theorem digitsVal_digits (n : Nat) :
    Json.digitsVal ((Numeral.digits n).map Char.ofUInt8) = n := by
  rw [Json.digitsVal, List.foldl_map]
  simp only [toNat_ofUInt8]
  exact Numeral.foldl_digits n

theorem noLeadingZero_digits (n : Nat) :
    Json.noLeadingZero ((Numeral.digits n).map Char.ofUInt8) = true := by
  rcases Nat.eq_zero_or_pos n with rfl | hpos
  · decide
  · have hhead := Numeral.head_digits hpos.ne'
    have hchar : ((Numeral.digits n).map Char.ofUInt8).head? ≠ some '0' := by
      rw [List.head?_map, ne_eq, Option.map_eq_some_iff]
      rintro ⟨c, hc, hzero⟩
      exact hhead (by rw [hc, ← toUInt8_ofUInt8 c, hzero])
    rw [Json.noLeadingZero, Bool.or_eq_true]
    exact Or.inr (decide_eq_true hchar)

theorem unsigned_fmU64ToStr (v : UInt64) (r : List Char) :
    Json.Unsigned ((fmU64ToStr v).map Char.ofUInt8 ++ r) v.toNat 0 r := by
  rw [fmU64ToStr_eq_digits]
  have hdigits : Json.Digits ((Numeral.digits v.toNat).map Char.ofUInt8 ++ r)
      ((Numeral.digits v.toNat).map Char.ofUInt8) r := by
    refine ⟨rfl, by simp [Numeral.digits_ne_nil], fun c hc => ?_⟩
    obtain ⟨d, hd, rfl⟩ := List.mem_map.mp hc
    exact isDigit_ofUInt8 (Numeral.mem_digits hd)
  have hnumber := Json.Unsigned.mk hdigits (noLeadingZero_digits v.toNat) .absent .absent
  rwa [List.append_nil, digitsVal_digits] at hnumber

/-- The magnitude of a negative number, the least one included. -/
theorem toNat_magnitude {v : Int64} (hv : v < 0) :
    (((-(v + 1)).toUInt64 + 1).toNat : Int) = -v.toInt := by
  have hneg : v.toInt < 0 := Int64.lt_iff_toInt_lt.mp hv
  have hmin : -9223372036854775808 ≤ v.toInt := v.le_toInt
  have hsucc : (v + 1).toInt = v.toInt + 1 := by
    rw [Int64.toInt_add]
    exact Int.bmod_eq_of_le (show _ ≤ v.toInt + 1 by omega) (show v.toInt + 1 < _ by omega)
  have hflip : (-(v + 1)).toInt = -(v.toInt + 1) := by
    rw [Int64.toInt_neg, hsucc]
    exact Int.bmod_eq_of_le (by omega) (by omega)
  have hpos : 0 ≤ -(v + 1) := by
    rw [Int64.le_iff_toInt_le, hflip]
    change 0 ≤ -(v.toInt + 1)
    omega
  rw [UInt64.toNat_add, Int64.toNat_toUInt64_of_le hpos]
  change ((((-(v + 1)).toInt.toNat + 1) % 18446744073709551616 : Nat) : Int) = _
  rw [hflip]
  omega

theorem toNat_nonneg {v : Int64} (hv : ¬v < 0) : (v.toUInt64.toNat : Int) = v.toInt := by
  have hpos : 0 ≤ v := Int64.not_lt.mp hv
  rw [Int64.toNat_toUInt64_of_le hpos]
  exact Int.toNat_of_nonneg (Int64.le_iff_toInt_le.mp hpos)

/-! ### What the calls write -/

/-- A C string up to its NUL. -/
def cBytes (s : List UInt8) : List UInt8 :=
  s.takeWhile (· ≠ 0)

def escapedByte (c : UInt8) : List UInt8 :=
  if c = '"'.toUInt8 ∨ c = '\\'.toUInt8 then ['\\'.toUInt8, c] else [spacedByte c]

def quoted (s : List UInt8) : List UInt8 :=
  '"'.toUInt8 :: ((cBytes s).flatMap escapedByte ++ ['"'.toUInt8])

def commaBytes (comma : Bool) : List UInt8 :=
  if comma then [','.toUInt8] else []

def keyBytes : Option (List UInt8) → List UInt8
  | none => []
  | some k => quoted k ++ [':'.toUInt8]

def i64Bytes (v : Int64) : List UInt8 :=
  if v < 0 then '-'.toUInt8 :: fmU64ToStr ((-(v + 1)).toUInt64 + 1) else fmU64ToStr v.toUInt64

def boolBytes (v : Bool) : List UInt8 :=
  if v then ['t'.toUInt8, 'r'.toUInt8, 'u'.toUInt8, 'e'.toUInt8]
  else ['f'.toUInt8, 'a'.toUInt8, 'l'.toUInt8, 's'.toUInt8, 'e'.toUInt8]

namespace Call

/-- A closing call ends a container; every other call starts an entry. -/
def startsEntry : Call → Bool
  | objClose => false
  | arrClose => false
  | _ => true

def body : Call → List UInt8
  | objOpen => ['{'.toUInt8]
  | objClose => ['}'.toUInt8]
  | arrOpen k => keyBytes k ++ ['['.toUInt8]
  | arrClose => [']'.toUInt8]
  | str k v => keyBytes k ++ quoted v
  | i64 k v => keyBytes k ++ i64Bytes v
  | u32 k v => keyBytes k ++ fmU64ToStr v.toUInt64
  | bool k v => keyBytes k ++ boolBytes v

/-- What a call writes if `need_comma` is as given. -/
def bytes (comma : Bool) (c : Call) : List UInt8 :=
  commaBytes (comma && c.startsEntry) ++ c.body

/-- `need_comma` after a call. -/
def comma : Call → Bool
  | objOpen => false
  | arrOpen _ => false
  | _ => true

end Call

def callsBytes : Bool → List Call → List UInt8
  | _, [] => []
  | comma, c :: cs => c.bytes comma ++ callsBytes c.comma cs

theorem callsBytes_append {d : Call} (hd : d.startsEntry = false) (comma : Bool)
    (cs ds : List Call) :
    callsBytes comma (cs ++ d :: ds) =
      callsBytes comma cs ++ (d.body ++ callsBytes d.comma ds) := by
  induction cs generalizing comma with
  | nil => simp [callsBytes, Call.bytes, hd, commaBytes]
  | cons c cs ih => simp [callsBytes, ih]

namespace JsonW

def emit (w : JsonW) (bs : List UInt8) : JsonW :=
  bs.foldl putC w

def withComma (w : JsonW) (b : Bool) : JsonW :=
  { w with needComma := b }

variable {w : JsonW} {bs : List UInt8}

@[simp] theorem emit_nil : w.emit [] = w := rfl

@[simp] theorem putC_emit (bs : List UInt8) (c : UInt8) :
    (w.emit bs).putC c = w.emit (bs ++ [c]) := by
  simp [emit]

@[simp] theorem emit_emit (bs bs' : List UInt8) : (w.emit bs).emit bs' = w.emit (bs ++ bs') := by
  simp [emit]

@[simp] theorem putC_withComma (b : Bool) (c : UInt8) :
    (w.withComma b).putC c = (w.putC c).withComma b := by
  unfold putC withComma
  split <;> rfl

@[simp] theorem emit_withComma (b : Bool) (bs : List UInt8) :
    (w.withComma b).emit bs = (w.emit bs).withComma b := by
  induction bs generalizing w with
  | nil => rfl
  | cons c bs ih =>
    change ((w.withComma b).putC c).emit bs = ((w.putC c).emit bs).withComma b
    rw [putC_withComma, ih]

theorem emit_cons (c : UInt8) (bs : List UInt8) : w.emit (c :: bs) = (w.putC c).emit bs := rfl

theorem putS_eq (s : List UInt8) : w.putS s = w.emit (cBytes s) := by
  induction s generalizing w with
  | nil => rfl
  | cons c s ih =>
    by_cases hc : c = 0
    · simp [putS, cBytes, hc]
    · simp [putS, cBytes, hc, ih, emit_cons]

theorem putEscapedChars_eq (s : List UInt8) :
    w.putEscapedChars s = w.emit ((cBytes s).flatMap escapedByte) := by
  induction s generalizing w with
  | nil => rfl
  | cons c s ih =>
    by_cases hc : c = 0
    · simp [putEscapedChars, cBytes, hc]
    have hcons : cBytes (c :: s) = c :: cBytes s := by simp [cBytes, hc]
    rw [hcons, List.flatMap_cons, putEscapedChars, if_neg hc, escapedByte, spacedByte]
    split
    · rw [ih]; rfl
    · split
      · rw [ih]; rfl
      · rw [ih]; rfl

theorem putEscaped_eq (s : List UInt8) : w.putEscaped s = w.emit (quoted s) := by
  rw [putEscaped, putEscapedChars_eq, putC_emit, ← emit_cons]
  rfl

theorem sep_eq : w.sep = (w.emit (commaBytes w.needComma)).withComma true := by
  unfold sep commaBytes
  split <;> rfl

theorem key_eq (k : Option (List UInt8)) :
    w.key k = (w.emit (commaBytes w.needComma ++ keyBytes k)).withComma true := by
  cases k with
  | none => simp [key, sep_eq, keyBytes]
  | some k => simp [key, sep_eq, putEscaped_eq, keyBytes]

end JsonW

theorem cBytes_eq {s : List UInt8} (hs : 0 ∉ s) : cBytes s = s :=
  List.takeWhile_eq_self_iff.mpr fun c hc => by
    simpa using fun h : c = 0 => hs (h ▸ hc)

theorem zero_notMem_fmU64ToStr (v : UInt64) : 0 ∉ fmU64ToStr v := by
  rw [fmU64ToStr_eq_digits]
  exact fun h => absurd (Numeral.mem_digits h).1 (by decide)

theorem cBytes_fmU64ToStr (v : UInt64) : cBytes (fmU64ToStr v) = fmU64ToStr v :=
  cBytes_eq (zero_notMem_fmU64ToStr v)

namespace JsonW

variable {w : JsonW}

@[simp] theorem withComma_withComma (b b' : Bool) :
    (w.withComma b).withComma b' = w.withComma b' := rfl

theorem call_eq (c : Call) : w.call c = (w.emit (c.bytes w.needComma)).withComma c.comma := by
  cases c with
  | objOpen =>
    change (w.sep.putC _).withComma false = _
    simp [sep_eq, Call.bytes, Call.startsEntry, Call.body, Call.comma]
  | objClose =>
    change (w.putC _).withComma true = _
    simp [Call.bytes, Call.startsEntry, Call.body, Call.comma, commaBytes, emit]
  | arrOpen k =>
    change ((w.key k).putC _).withComma false = _
    simp [key_eq, Call.bytes, Call.startsEntry, Call.body, Call.comma]
  | arrClose =>
    change (w.putC _).withComma true = _
    simp [Call.bytes, Call.startsEntry, Call.body, Call.comma, commaBytes, emit]
  | str k v =>
    simp [call, jwStr, key_eq, putEscaped_eq, Call.bytes, Call.startsEntry, Call.body, Call.comma]
  | i64 k v =>
    by_cases hv : v < 0
    · simp [call, jwI64, hv, key_eq, putS_eq, cBytes_fmU64ToStr, i64Bytes, Call.bytes,
        Call.startsEntry, Call.body, Call.comma]
    · simp [call, jwI64, hv, key_eq, putS_eq, cBytes_fmU64ToStr, i64Bytes, Call.bytes,
        Call.startsEntry, Call.body, Call.comma]
  | u32 k v =>
    simp [call, jwU32, key_eq, putS_eq, cBytes_fmU64ToStr, Call.bytes, Call.startsEntry,
      Call.body, Call.comma]
  | bool k v =>
    have hbool : cBytes (boolBytes v) = boolBytes v := by cases v <;> rfl
    change (w.key k).putS (boolBytes v) = _
    simp [key_eq, putS_eq, hbool, Call.bytes, Call.startsEntry, Call.body, Call.comma]

/-- Whatever the calls were, the writer has appended what they write. -/
theorem foldl_call_eq (cs : List Call) :
    ∃ b, cs.foldl call w = (w.emit (callsBytes w.needComma cs)).withComma b := by
  induction cs generalizing w with
  | nil => exact ⟨w.needComma, rfl⟩
  | cons c cs ih =>
    obtain ⟨b, hb⟩ := ih (w := w.call c)
    refine ⟨b, ?_⟩
    rw [List.foldl_cons, hb, call_eq, emit_withComma, emit_emit, withComma_withComma]
    rfl

end JsonW

/-! ### What the buffer holds -/

/-- The writer after the characters `out`, started on the memory `buf`: the first
    characters that leave room for the NUL, the NUL, and nothing else. -/
structure Holds (buf : Nat → UInt8) (out : List UInt8) (w : JsonW) : Prop where
  len : w.len = min out.length (w.cap - 1)
  bytes : (List.range w.len).map w.buf = out.take (w.cap - 1)
  nul : 0 < w.cap → w.buf w.len = 0
  ok : w.overflow = false ↔ out.length ≤ w.cap - 1
  frame : ∀ i, w.cap ≤ i → w.buf i = buf i

theorem holds_jwInit (buf : Nat → UInt8) (cap : Nat) : Holds buf [] (JsonW.jwInit buf cap) where
  len := (Nat.zero_min _).symm
  bytes := List.take_nil.symm
  nul := by
    intro (hcap : 0 < cap)
    change (if 0 < cap then Function.update buf 0 0 else buf) 0 = 0
    rw [if_pos hcap, Function.update_self]
  ok := ⟨fun _ => Nat.zero_le _, fun _ => rfl⟩
  frame := by
    intro i (hi : cap ≤ i)
    change (if 0 < cap then Function.update buf 0 0 else buf) i = buf i
    split
    · exact Function.update_of_ne (by omega) _ _
    · rfl

theorem Holds.putC {buf : Nat → UInt8} {w : JsonW} (h : Holds buf out w) (c : UInt8) :
    Holds buf (out ++ [c]) (w.putC c) := by
  obtain ⟨hlen, hbytes, hnul, hok, hframe⟩ := h
  unfold JsonW.putC
  split
  · next hroom =>
    -- nothing has been dropped so far, so the character is the next one of the text
    have hshort : out.length = w.len := by omega
    refine ⟨?_, ?_, fun _ => Function.update_self _ _ _, ?_, ?_⟩ <;>
      simp only [List.length_append, List.length_singleton]
    · omega
    · have hold : (List.range w.len).map
          (Function.update (Function.update w.buf w.len c) (w.len + 1) 0) = out := by
        rw [List.take_of_length_le (by omega)] at hbytes
        conv_rhs => rw [← hbytes]
        refine List.map_congr_left fun i hi => ?_
        have hi := List.mem_range.mp hi
        rw [Function.update_of_ne (by omega), Function.update_of_ne (by omega)]
      rw [List.take_of_length_le (by simp only [List.length_append, List.length_singleton]; omega),
        List.range_succ, List.map_append, hold, List.map_singleton,
        Function.update_of_ne (by omega), Function.update_self]
    · rw [hok]
      omega
    · intro i hi
      rw [Function.update_of_ne (by omega), Function.update_of_ne (by omega)]
      exact hframe i hi
  · next hroom =>
    refine ⟨?_, ?_, hnul, ?_, hframe⟩ <;> simp only [List.length_append, List.length_singleton]
    · omega
    · rw [List.take_append_of_le_length (by omega)]
      exact hbytes
    · exact ⟨fun h => (nomatch h), fun h => by omega⟩

theorem Holds.emit {buf : Nat → UInt8} {w : JsonW} (h : Holds buf out w) (bs : List UInt8) :
    Holds buf (out ++ bs) (w.emit bs) := by
  induction bs generalizing out w with
  | nil => rwa [List.append_nil]
  | cons c bs ih =>
    rw [List.append_cons]
    exact ih (h.putC c)

theorem Holds.withComma {buf : Nat → UInt8} {w : JsonW} (h : Holds buf out w) (b : Bool) :
    Holds buf out (w.withComma b) :=
  ⟨h.len, h.bytes, h.nul, h.ok, h.frame⟩

/-! ### The text of a tree -/

theorem isUnescaped_ofUInt8 {c : UInt8} (hquote : ¬(c = '"'.toUInt8 ∨ c = '\\'.toUInt8)) :
    Json.isUnescaped (Char.ofUInt8 (spacedByte c)) = true := by
  unfold spacedByte
  split
  · decide
  · next hc =>
    have hchar (d : Char) (hd : c ≠ d.toUInt8) : Char.ofUInt8 c ≠ d := fun h =>
      hd (by rw [← toUInt8_ofUInt8 c, h])
    have hcontrol : 32 ≤ c.toNat := Nat.le_of_not_lt hc
    simp [Json.isUnescaped, toNat_ofUInt8, hcontrol, hchar _ fun h => hquote (.inl h),
      hchar _ fun h => hquote (.inr h)]

theorem chars_escaped (s : List UInt8) (r : List Char) :
    Json.Chars ((s.flatMap escapedByte).map Char.ofUInt8 ++ '"' :: r)
      ((s.map spacedByte).map Char.ofUInt8) r := by
  induction s with
  | nil => exact .close
  | cons c s ih =>
    rw [List.flatMap_cons, escapedByte]
    split
    · next hc =>
      refine .escape (.simple ?_) ih
      rcases hc with rfl | rfl <;> decide
    · next hc => exact .unescaped (isUnescaped_ofUInt8 hc) ih

theorem map_quoted (s : CStr) (r : List Char) :
    (quoted s.val).map Char.ofUInt8 ++ r =
      '"' :: ((s.val.flatMap escapedByte).map Char.ofUInt8 ++ '"' :: r) := by
  simp only [quoted, cBytes_eq s.property, List.map_cons, List.map_append, List.map_nil,
    List.cons_append, List.append_assoc, List.nil_append]
  rfl

/-- What a scalar adds to its key. -/
def Scalar.bytes : Scalar → List UInt8
  | str v => quoted v.val
  | i64 v => i64Bytes v
  | u32 v => fmU64ToStr v.toUInt64
  | bool v => boolBytes v

theorem derives_scalar (v : Scalar) (r : List Char) :
    Json.Derives .value (v.bytes.map Char.ofUInt8 ++ r) v.spaced.value r := by
  cases v with
  | str v =>
    rw [Scalar.bytes, map_quoted]
    exact .string (chars_escaped v.val r)
  | i64 v =>
    refine .number ?_
    rw [Scalar.bytes, i64Bytes]
    split
    · next hv =>
      have hnumber := Json.Number.neg
        (unsigned_fmU64ToStr ((-(v + 1)).toUInt64 + 1) r)
      rwa [toNat_magnitude hv, Int.neg_neg] at hnumber
    · next hv =>
      have hnumber := Json.Number.pos (unsigned_fmU64ToStr v.toUInt64 r)
      rwa [toNat_nonneg hv] at hnumber
  | u32 v => exact .number (.pos (unsigned_fmU64ToStr v.toUInt64 r))
  | bool v =>
    cases v with
    | false => exact .false
    | true => exact .true

/-- A key, a value and the entries after it, at the start or after a comma. -/
theorem derives_cons (k : Key c) {v : Json} {vs rest : List UInt8} {x : c.Content} {t r : List Char}
    (hv : ∀ r, Json.Derives .value (vs.map Char.ofUInt8 ++ r) v r)
    (h : Json.Derives (.more c) (rest.map Char.ofUInt8 ++ t) x r) :
    Json.Derives (.entries c)
        ((commaBytes false ++ (keyBytes (k.arg c) ++ (vs ++ rest))).map Char.ofUInt8 ++ t)
        ((k.spaced c).entry c v x) r ∧
      Json.Derives (.more c)
        ((commaBytes true ++ (keyBytes (k.arg c) ++ (vs ++ rest))).map Char.ofUInt8 ++ t)
        ((k.spaced c).entry c v x) r := by
  have hentry : Json.Derives (.entry c)
      ((keyBytes (k.arg c) ++ (vs ++ rest)).map Char.ofUInt8 ++ t)
      ((k.spaced c).entry c v x) r := by
    simp only [List.map_append, List.append_assoc]
    cases c with
    | array => exact .element (hv _) .nil h
    | object =>
      simp only [Key.arg, keyBytes, List.map_append, List.append_assoc]
      rw [map_quoted]
      exact .member (chars_escaped k.val _) .nil .nil (hv _) .nil h
  exact ⟨.some hentry, .next .nil hentry⟩

/-- The entries of a container between its brackets. -/
def bracketed {c : Container} (t : Entries c) : List UInt8 :=
  c.opening.toUInt8 :: (callsBytes false t.calls ++ [c.closing.toUInt8])

theorem derives_bracketed {t : Entries c} (h : ∀ r, Json.Derives (.entries c)
      ((callsBytes false t.calls).map Char.ofUInt8 ++ c.closing :: r) t.spaced.content r)
    (r : List Char) :
    Json.Derives .value ((bracketed t).map Char.ofUInt8 ++ r) (c.toJson t.spaced.content) r := by
  have htext : (bracketed t).map Char.ofUInt8 ++ r =
      c.opening :: ((callsBytes false t.calls).map Char.ofUInt8 ++ c.closing :: r) := by
    simp only [bracketed, List.map_cons, List.map_append, List.map_nil, List.cons_append,
      List.append_assoc, List.nil_append]
    cases c <;> rfl
  rw [htext]
  exact .container .nil (h r)

/-- The calls of a tree write its entries, whether or not a comma is due. -/
theorem derives_entries (t : Entries c) (r : List Char) :
    Json.Derives (.entries c) ((callsBytes false t.calls).map Char.ofUInt8 ++ c.closing :: r)
        t.spaced.content r ∧
      Json.Derives (.more c) ((callsBytes true t.calls).map Char.ofUInt8 ++ c.closing :: r)
        t.spaced.content r := by
  induction t generalizing r with
  | nil => exact ⟨.none, .last⟩
  | @scalar c k v rest ih =>
    have hcalls (comma : Bool) : callsBytes comma (Entries.scalar k v rest).calls =
        commaBytes comma ++ (keyBytes (k.arg c) ++ (v.bytes ++ callsBytes true rest.calls)) := by
      cases v <;> simp [Entries.calls, callsBytes, Call.bytes, Scalar.call, Call.startsEntry,
        Call.body, Call.comma, Scalar.bytes]
    rw [hcalls, hcalls]
    exact derives_cons k (derives_scalar v) (ih r).2
  | @array c k elements rest ihe ih =>
    have hcalls (comma : Bool) : callsBytes comma (Entries.array k elements rest).calls =
        commaBytes comma ++
          (keyBytes (k.arg c) ++ (bracketed elements ++ callsBytes true rest.calls)) := by
      simp [Entries.calls, callsBytes, callsBytes_append (d := .arrClose) rfl, Call.bytes,
        Call.startsEntry, Call.body, Call.comma, bracketed, Container.opening, Container.closing]
    rw [hcalls, hcalls]
    exact derives_cons k (derives_bracketed fun r => (ihe r).1) (ih r).2
  | object members rest ihm ih =>
    have hcalls (comma : Bool) : callsBytes comma (Entries.object members rest).calls =
        commaBytes comma ++ (bracketed members ++ callsBytes true rest.calls) := by
      simp [Entries.calls, callsBytes, callsBytes_append (d := .objClose) rfl, Call.bytes,
        Call.startsEntry, Call.body, Call.comma, bracketed, Container.opening, Container.closing]
    rw [hcalls, hcalls]
    exact derives_cons (c := .array) () (derives_bracketed fun r => (ihm r).1) (ih r).2

theorem callsBytes_document (t : Entries .object) : callsBytes false t.document = bracketed t := by
  simp [Entries.document, callsBytes, callsBytes_append (d := .objClose) rfl, Call.bytes,
    Call.startsEntry, Call.body, Call.comma, bracketed, Container.opening, Container.closing,
    commaBytes]

/-- A tree that fits the buffer is in it, NUL-terminated, as a JSON text: the text is valid
    and decodes to the tree, with a space for every control character of its keys and
    strings. -/
theorem jw_writes_tree (t : Entries .object) (buf : Nat → UInt8) (cap : Nat)
    (hok : (t.write buf cap).jwOk = true) :
    (t.write buf cap).buf (t.write buf cap).jwLen = 0 ∧
      Json.Text (t.write buf cap).text (.object t.spaced.content) ∧
      Json.decode (t.write buf cap).text = some (.object t.spaced.content) := by
  obtain ⟨b, hwrite⟩ := JsonW.foldl_call_eq (w := JsonW.jwInit buf cap) t.document
  change t.write buf cap = _ at hwrite
  rw [hwrite] at hok ⊢
  rw [show (JsonW.jwInit buf cap).needComma = false from rfl, callsBytes_document] at hok ⊢
  have hholds : Holds buf (bracketed t) ((JsonW.jwInit buf cap).emit (bracketed t)) :=
    (holds_jwInit buf cap).emit (bracketed t)
  have hfits := hholds.ok.mp (Bool.not_eq_true' _ |>.mp hok)
  have hcap : 0 < ((JsonW.jwInit buf cap).emit (bracketed t)).cap := by
    have hlen : 0 < (bracketed t).length := Nat.succ_pos _
    omega
  have htext : ((JsonW.jwInit buf cap).emit (bracketed t)).text =
      (bracketed t).map Char.ofUInt8 := by
    have hbytes := hholds.bytes
    rw [List.take_of_length_le hfits] at hbytes
    conv_rhs => rw [← hbytes, List.map_map]
    rfl
  have hjson : Json.Text ((bracketed t).map Char.ofUInt8) (.object t.spaced.content) := by
    have hvalue := derives_bracketed (fun r => (derives_entries t r).1) []
    rw [List.append_nil] at hvalue
    exact ⟨_, [], .nil, hvalue, .nil⟩
  refine ⟨hholds.nul hcap, ?_, ?_⟩
  · exact htext ▸ hjson
  · exact Json.decode_eq_some_iff.mpr (htext ▸ hjson)

/-- An array of an object and a boolean under a key with a line feed, and a quotation mark. -/
def nested : Entries .object :=
  .array (c := .object) ⟨['a'.toUInt8, '\n'.toUInt8], by decide⟩
    (.object (.scalar (c := .object) ⟨['b'.toUInt8], by decide⟩ (.i64 (-1)) .nil)
      (.scalar (c := .array) () (.bool true) .nil))
    (.scalar (c := .object) ⟨['c'.toUInt8], by decide⟩ (.str ⟨['"'.toUInt8], by decide⟩) .nil)

theorem jw_writes_tree_nested :
    (nested.write (fun _ => 1) 64).jwOk = true ∧
      (nested.write (fun _ => 1) 64).buf (nested.write (fun _ => 1) 64).jwLen = 0 ∧
      Json.Text (nested.write (fun _ => 1) 64).text (.object nested.spaced.content) ∧
      Json.decode (nested.write (fun _ => 1) 64).text = some (.object nested.spaced.content) :=
  ⟨by decide +kernel, jw_writes_tree nested _ 64 (by decide +kernel)⟩

example : (nested.write (fun _ => 1) 64).text =
    ['{', '"', 'a', ' ', '"', ':', '[', '{', '"', 'b', '"', ':', '-', '1', '}', ',', 't', 'r', 'u',
      'e', ']', ',', '"', 'c', '"', ':', '"', '\\', '"', '"', '}'] := by
  decide +kernel

end FlintRTOS.JsonWriter
