import FlintRTOS.JsonWriter
import FlintRTOS.Numeral
import FlintRTOS.PtpUtc

/-!
# Writing numbers

The repository writes a number in the decimal system in two places: `i64s` of `ptp_core.c`
and `fm_u64_to_str` of `jsonw.c`, which `jw_i64` and `jw_u32` call.  Both collect the
digits in an array of their own, the last one first, and copy them to the caller's buffer
the other way round.

The arrays have a size, and a digit that does not fit one is a write outside it: the code
then returns `none` here.  The contents of a fresh array are arbitrary.  The digits
collected are the `tmpDigits` of the writer and, turned around, those of the numeral
(`reverse_tmpDigits`), whatever the size of the array.
-/

namespace FlintRTOS

open JsonWriter (tmpDigits JsonW i64Bytes reverse_tmpDigits fmU64ToStr_eq_digits div_ten_lt)
open Numeral (digits numeral)

/-! ### The code -/

section code

variable (again : UInt64 → Nat → Bool)

/-- `do … while (again)`: the digits of `u` from `tmp[n]` on, with `room` bytes left in `tmp`. -/
def fillTmp : Nat → UInt64 → Nat → (Nat → UInt8) → Option (Nat × (Nat → UInt8))
  | 0, _, _, _ => none
  | room + 1, u, n, tmp =>
    let tmp := Function.update tmp n ('0'.toUInt8 + (u % 10).toUInt8)
    if again (u / 10) (n + 1) then fillTmp room (u / 10) (n + 1) tmp else some (n + 1, tmp)

end code

/-- `while (n > 0) buf[o++] = tmp[--n]`. -/
def copyBack (tmp : Nat → UInt8) : Nat → Nat → (Nat → UInt8) → Nat × (Nat → UInt8)
  | 0, o, buf => (o, buf)
  | n + 1, o, buf => copyBack tmp n (o + 1) (Function.update buf o (tmp n))

/-- `fm_u64_to_str`; `tmp` is its array of 21 bytes. -/
def fmU64ToStr (v : UInt64) (tmp out : Nat → UInt8) : Option (Nat → UInt8) := do
  let (n, tmp) ← fillTmp (fun v _ => v != 0) 21 v 0 tmp
  let (o, out) := copyBack tmp n 0 out
  return Function.update out o 0

section code

variable (o : Overflow)

/-- `u` of `i64s`. -/
def magnitude (v : Int64) : Option UInt64 :=
  if v < 0 then do
    let w ← o.neg (← o.add v 1)
    return w.toUInt64 + 1
  else some v.toUInt64

/-- The sign of `i64s`, and where the digits go. -/
def putSign (v : Int64) (buf : Nat → UInt8) : Nat × (Nat → UInt8) :=
  if v < 0 then (1, Function.update buf 0 '-'.toUInt8) else (0, buf)

/-- `i64s`; `tmp` is its array of 24 bytes. -/
def i64s (v : Int64) (tmp buf : Nat → UInt8) : Option (Nat → UInt8) := do
  let u ← magnitude o v
  let (n, tmp) ← fillTmp (fun u n => u != 0 && decide (n < 24)) 24 u 0 tmp
  let (p, buf) := putSign v buf
  let (p, buf) := copyBack tmp n p buf
  return Function.update buf p 0

end code

/-! ### The digits -/

/-- What `tmp` holds once `n` digits are in it. -/
def collected (tmp : Nat → UInt8) (n : Nat) : List UInt8 := (List.range n).map tmp

theorem collected_succ (tmp : Nat → UInt8) (n : Nat) :
    collected tmp (n + 1) = collected tmp n ++ [tmp n] := by
  rw [collected, List.range_succ, List.map_append, List.map_singleton, collected]

theorem collected_update (tmp : Nat → UInt8) (n : Nat) (c : UInt8) :
    collected (Function.update tmp n c) (n + 1) = collected tmp n ++ [c] := by
  rw [collected_succ, Function.update_self]
  congr 1
  refine List.map_congr_left fun i hi => ?_
  rw [Function.update_of_ne (List.mem_range.mp hi).ne]

/-- The digits fit if the number is small enough for the room: the loop ends with the last of
    them, by its own test or by the end of the array. -/
theorem exists_fillTmp {again : UInt64 → Nat → Bool} {size room n : Nat} {u : UInt64}
    (hstop : ∀ k, again 0 k = false) (hgo : ∀ u k, u ≠ 0 → k < size → again u k = true)
    (hroom : 0 < room) (hsize : n + room = size) (hu : u.toNat < 10 ^ room) (tmp : Nat → UInt8) :
    ∃ n' tmp', fillTmp again room u n tmp = some (n', tmp') ∧
      collected tmp' n' = collected tmp n ++ tmpDigits room u := by
  induction room generalizing n u tmp with
  | zero => exact absurd hroom (Nat.lt_irrefl 0)
  | succ room ih =>
    rw [fillTmp, tmpDigits]
    by_cases hz : u / 10 = 0
    · rw [hz, hstop, if_pos rfl]
      exact ⟨n + 1, _, rfl, collected_update _ _ _⟩
    · obtain ⟨-, hpos, hlt⟩ := div_ten_lt hu hz
      obtain ⟨n', tmp', hrun, hdigits⟩ := ih (n := n + 1) hpos (by omega) hlt
        (Function.update tmp n ('0'.toUInt8 + (u % 10).toUInt8))
      refine ⟨n', tmp', ?_, ?_⟩
      · rw [if_pos (hgo (u / 10) (n + 1) hz (by omega)), hrun]
      · rw [hdigits, collected_update, if_neg hz, List.append_assoc, List.singleton_append]

theorem Wrote.copyBack {buf b : Nat → UInt8} {t : List UInt8} (h : Wrote buf b t)
    (tmp : Nat → UInt8) (n : Nat) :
    (copyBack tmp n t.length b).1 = (t ++ (collected tmp n).reverse).length ∧
      Wrote buf (copyBack tmp n t.length b).2 (t ++ (collected tmp n).reverse) := by
  induction n generalizing t b with
  | zero => exact ⟨by simp [FlintRTOS.copyBack, collected], by simpa [FlintRTOS.copyBack, collected] using h⟩
  | succ n ih =>
    have hnext := ih (h.put rfl (tmp n))
    rw [List.length_append, List.length_singleton] at hnext
    rw [collected_succ, List.reverse_append, List.reverse_singleton, ← List.append_assoc]
    exact hnext

theorem Wrote.digits {buf b : Nat → UInt8} {t : List UInt8} (h : Wrote buf b t)
    (again : UInt64 → Nat → Bool) {size : Nat} {u : UInt64} (hstop : ∀ k, again 0 k = false)
    (hgo : ∀ u k, u ≠ 0 → k < size → again u k = true) (hsize : 0 < size)
    (hu : u.toNat < 10 ^ size) (tmp : Nat → UInt8) :
    ∃ n tmp', fillTmp again size u 0 tmp = some (n, tmp') ∧
      Wrote buf (Function.update (FlintRTOS.copyBack tmp' n t.length b).2
        (FlintRTOS.copyBack tmp' n t.length b).1 0) (t ++ Numeral.digits u.toNat ++ [0]) := by
  obtain ⟨n, tmp', hfill, hdigits⟩ := exists_fillTmp hstop hgo hsize (Nat.zero_add size) hu tmp
  obtain ⟨hend, hwrote⟩ := h.copyBack tmp' n
  refine ⟨n, tmp', hfill, ?_⟩
  rw [show collected tmp 0 = [] from rfl, List.nil_append] at hdigits
  rw [hdigits, reverse_tmpDigits hsize hu] at hend hwrote
  exact hwrote.put hend 0

/-! ### The functions -/

theorem lt_pow_twenty (v : UInt64) : v.toNat < 10 ^ 20 :=
  Nat.lt_trans v.toNat_lt (by decide)

theorem exists_fmU64ToStr (v : UInt64) (tmp out : Nat → UInt8) :
    ∃ b, fmU64ToStr v tmp out = some b ∧ Wrote out b (digits v.toNat ++ [0]) := by
  obtain ⟨n, tmp', hfill, hwrote⟩ := (Wrote.nothing out).digits (fun v _ => v != 0)
    (fun _ => rfl) (fun _ _ hv _ => bne_iff_ne.mpr hv) (by decide) (JsonWriter.lt_pow_digits v) tmp
  refine ⟨_, ?_, hwrote⟩
  rw [fmU64ToStr, hfill]
  rfl

/-- The largest magnitude is that of the least number; the code computes it without leaving
    the range of the signed type. -/
theorem exists_magnitude (o : Overflow) (v : Int64) :
    ∃ u, magnitude o v = some u ∧ u.toNat = v.toInt.natAbs := by
  have hlow := v.le_toInt
  have hhigh := v.toInt_lt
  unfold magnitude
  split
  · next hneg =>
    have hneg : v.toInt < 0 := Int64.lt_iff_toInt_lt.mp hneg
    obtain ⟨w, hw, hwv⟩ := o.exists_add (b := 1) (y := 1) (a := v) rfl rfl ⟨by omega, by omega⟩
    obtain ⟨m, hm, hmv⟩ := o.exists_neg (a := w) (abs_lt.mpr ⟨by omega, by omega⟩)
    refine ⟨m.toUInt64 + 1, by rw [hw, Option.bind_eq_bind, Option.bind_some, hm]; rfl, ?_⟩
    have hnat : m.toUInt64.toNat = v.toInt.natAbs - 1 := Overflow.toNat_toUInt64 (by omega)
    rw [UInt64.toNat_add, hnat]
    change (v.toInt.natAbs - 1 + 1) % 2 ^ 64 = v.toInt.natAbs
    omega
  · next hnn =>
    have hnn : ¬ v.toInt < 0 := fun h => hnn (Int64.lt_iff_toInt_lt.mpr h)
    exact ⟨v.toUInt64, rfl, Overflow.toNat_toUInt64 (by omega)⟩

/-- The sign and the digits of the magnitude are the numeral. -/
theorem numeral_eq (v : Int64) :
    numeral v.toInt =
      (if v < 0 then ['-'.toUInt8] else []) ++ digits v.toInt.natAbs := by
  split
  · next hneg =>
    have hneg : v.toInt < 0 := Int64.lt_iff_toInt_lt.mp hneg
    rw [Numeral.numeral_of_neg hneg, show (-v.toInt).toNat = v.toInt.natAbs by omega]
    rfl
  · next hnn =>
    have hnn : ¬ v.toInt < 0 := fun h => hnn (Int64.lt_iff_toInt_lt.mpr h)
    obtain ⟨n, hn⟩ := Int.eq_ofNat_of_zero_le (Int.not_lt.mp hnn)
    rw [hn, Numeral.numeral_natCast, Int.natAbs_natCast]
    rfl

theorem wrote_putSign (v : Int64) (buf : Nat → UInt8) :
    (putSign v buf).1 = (if v < 0 then ['-'.toUInt8] else []).length ∧
      Wrote buf (putSign v buf).2 (if v < 0 then ['-'.toUInt8] else []) := by
  unfold putSign
  split
  · exact ⟨rfl, (Wrote.nothing buf).put rfl _⟩
  · exact ⟨rfl, Wrote.nothing buf⟩

theorem exists_i64s (o : Overflow) (v : Int64) (tmp buf : Nat → UInt8) :
    ∃ b, i64s o v tmp buf = some b ∧ Wrote buf b (numeral v.toInt ++ [0]) := by
  obtain ⟨u, hu, huv⟩ := exists_magnitude o v
  obtain ⟨hstart, hsign⟩ := wrote_putSign v buf
  have hlt : u.toNat < 10 ^ 24 := Nat.lt_trans u.toNat_lt (by decide)
  obtain ⟨n, tmp', hfill, hwrote⟩ := hsign.digits (fun u n => u != 0 && decide (n < 24))
    (fun _ => rfl) (fun u k hu hk => by simp [hu, hk]) (by decide) hlt tmp
  rw [← hstart, huv, ← numeral_eq] at hwrote
  refine ⟨_, ?_, hwrote⟩
  rw [i64s, hu, Option.bind_eq_bind, Option.bind_some, hfill]
  rfl

/-- The writer's own way to the magnitude, which wraps, gives the same number. -/
theorem i64Bytes_eq_numeral (v : Int64) : i64Bytes v = numeral v.toInt := by
  obtain ⟨u, hu, huv⟩ := exists_magnitude .wrap v
  rw [numeral_eq, ← huv, ← fmU64ToStr_eq_digits, i64Bytes]
  unfold magnitude at hu
  split at hu
  · next hneg =>
    rw [Overflow.wrap_add, Option.bind_eq_bind, Option.bind_some, Overflow.wrap_neg] at hu
    rw [if_pos hneg, if_pos hneg, ← Option.some.inj hu]
    rfl
  · next hnn =>
    rw [if_neg hnn, if_neg hnn, ← Option.some.inj hu]
    rfl

theorem jwI64_eq_emit (w : JsonW) (k : Option (List UInt8)) (v : Int64) :
    w.jwI64 k v = (w.key k).emit (i64Bytes v) := by
  rw [JsonW.jwI64, i64Bytes]
  split
  · rw [JsonW.putS_eq, JsonWriter.cBytes_fmU64ToStr]
    rfl
  · rw [JsonW.putS_eq, JsonWriter.cBytes_fmU64ToStr]

theorem length_numeral_le (v : Int64) : (numeral v.toInt).length ≤ 20 := by
  have hlow := v.le_toInt
  have hhigh := v.toInt_lt
  have hdigits : (digits v.toInt.natAbs).length ≤ 19 :=
    (Numeral.length_digits_le_iff (by decide)).mpr (by omega)
  rw [numeral_eq, List.length_append]
  split
  · simp only [List.length_singleton]
    omega
  · simp only [List.length_nil]
    omega

/-- For every signed number `i64s` writes, and `jw_i64` puts behind the key, the same text;
    for every unsigned one `fm_u64_to_str` writes at most 20 digits.  Each is followed by a
    NUL, and nothing else of the buffer changes; each is the numeral without leading zeros,
    and reading it gives the number. -/
theorem numerals_exact :
    (∀ (o : Overflow) (v : Int64) (tmp buf : Nat → UInt8),
      (∃ b, i64s o v tmp buf = some b ∧ Wrote buf b (numeral v.toInt ++ [0])) ∧
        (∀ (w : JsonW) (k : Option (List UInt8)),
          w.jwI64 k v = (w.key k).emit (numeral v.toInt)) ∧
        (numeral v.toInt).length ≤ 20 ∧ Numeral.Canonical (numeral v.toInt) ∧
        Numeral.read (numeral v.toInt) = some v.toInt) ∧
    ∀ (v : UInt64) (tmp out : Nat → UInt8),
      (∃ b, fmU64ToStr v tmp out = some b ∧ Wrote out b (numeral v.toNat ++ [0])) ∧
        JsonWriter.fmU64ToStr v = numeral v.toNat ∧
        (numeral v.toNat).length ≤ 20 ∧ Numeral.Canonical (numeral v.toNat) ∧
        Numeral.read (numeral v.toNat) = some (v.toNat : Int) := by
  refine ⟨fun o v tmp buf => ⟨exists_i64s o v tmp buf, fun w k => ?_, length_numeral_le v,
    Numeral.canonical_numeral _, Numeral.read_numeral _⟩, fun v tmp out => ⟨?_, ?_, ?_,
    Numeral.canonical_numeral _, Numeral.read_numeral _⟩⟩
  · rw [jwI64_eq_emit, i64Bytes_eq_numeral]
  · rw [Numeral.numeral_natCast]
    exact exists_fmU64ToStr v tmp out
  · rw [Numeral.numeral_natCast, fmU64ToStr_eq_digits]
  · rw [Numeral.numeral_natCast]
    exact (Numeral.length_digits_le_iff (by decide)).mpr (lt_pow_twenty v)

end FlintRTOS
