import FlintRTOS.JsonWriter

/-!
# Truncation of the JSON writer

What the calls write does not depend on the capacity, and the buffer holds as much of
it as the capacity leaves room for.  The calls write no NUL, so the one behind the last
character is the one that ends the string.
-/

namespace FlintRTOS.JsonWriter

/-! ### No NUL is written but the last -/

theorem escapedByte_ne_zero {c d : UInt8} (hc : c ≠ 0) (hd : d ∈ escapedByte c) : d ≠ 0 := by
  unfold escapedByte at hd
  split at hd
  · rcases List.mem_cons.mp hd with rfl | hd
    · decide
    · rwa [List.mem_singleton.mp hd]
  · rw [List.mem_singleton.mp hd]
    exact spacedByte_ne_zero c

theorem zero_notMem_quoted (s : List UInt8) : 0 ∉ quoted s := by
  simp only [quoted, List.mem_cons, List.mem_append, List.mem_flatMap, List.not_mem_nil, or_false,
    not_or]
  refine ⟨by decide, ?_, by decide⟩
  rintro ⟨c, hc, hzero⟩
  have hne : c ≠ 0 := by simpa using List.mem_takeWhile_imp hc
  exact escapedByte_ne_zero hne hzero rfl

theorem zero_notMem_keyBytes (k : Option (List UInt8)) : 0 ∉ keyBytes k := by
  cases k with
  | none => exact List.not_mem_nil
  | some k =>
    rw [keyBytes, List.mem_append, not_or]
    exact ⟨zero_notMem_quoted k, by decide⟩

theorem zero_notMem_i64Bytes (v : Int64) : 0 ∉ i64Bytes v := by
  unfold i64Bytes
  split
  · rw [List.mem_cons, not_or]
    exact ⟨by decide, zero_notMem_fmU64ToStr _⟩
  · exact zero_notMem_fmU64ToStr _

theorem Call.zero_notMem_body (c : Call) : 0 ∉ c.body := by
  cases c with
  | objOpen => decide
  | objClose => decide
  | arrClose => decide
  | arrOpen k =>
    rw [body, List.mem_append, not_or]
    exact ⟨zero_notMem_keyBytes k, by decide⟩
  | str k v =>
    rw [body, List.mem_append, not_or]
    exact ⟨zero_notMem_keyBytes k, zero_notMem_quoted v⟩
  | i64 k v =>
    rw [body, List.mem_append, not_or]
    exact ⟨zero_notMem_keyBytes k, zero_notMem_i64Bytes v⟩
  | u32 k v =>
    rw [body, List.mem_append, not_or]
    exact ⟨zero_notMem_keyBytes k, zero_notMem_fmU64ToStr _⟩
  | bool k v =>
    rw [body, List.mem_append, not_or]
    exact ⟨zero_notMem_keyBytes k, by cases v <;> decide⟩

theorem zero_notMem_callsBytes (comma : Bool) (calls : List Call) :
    0 ∉ callsBytes comma calls := by
  induction calls generalizing comma with
  | nil => exact List.not_mem_nil
  | cons c cs ih =>
    simp only [callsBytes, Call.bytes, List.mem_append, not_or]
    refine ⟨⟨?_, c.zero_notMem_body⟩, ih c.comma⟩
    unfold commaBytes
    split <;> decide

/-! ### The truncated text -/

theorem cap_putC (w : JsonW) (c : UInt8) : (w.putC c).cap = w.cap := by
  unfold JsonW.putC
  split <;> rfl

/-- The writer after some calls on a buffer of `cap` bytes. -/
def written (buf : Nat → UInt8) (cap : Nat) (calls : List Call) : JsonW :=
  calls.foldl JsonW.call (JsonW.jwInit buf cap)

theorem holds_written (buf : Nat → UInt8) (cap : Nat) (calls : List Call) :
    Holds buf (callsBytes false calls) (written buf cap calls) ∧
      (written buf cap calls).cap = cap := by
  have hcap (bs : List UInt8) : ∀ w : JsonW, (w.emit bs).cap = w.cap := by
    induction bs with
    | nil => exact fun _ => rfl
    | cons c bs ih => exact fun w => (ih (w.putC c)).trans (cap_putC w c)
  obtain ⟨b, hcalls⟩ := JsonW.foldl_call_eq (w := JsonW.jwInit buf cap) calls
  unfold written
  rw [hcalls]
  exact ⟨((holds_jwInit buf cap).emit _).withComma b, hcap _ _⟩

/-- A C string in memory: what precedes the first NUL of the first `n` bytes, where
    there is one. -/
def cString (buf : Nat → UInt8) (n : Nat) : Option (List UInt8) :=
  if 0 ∈ (List.range n).map buf then some (cBytes ((List.range n).map buf)) else none

theorem cString_eq {buf : Nat → UInt8} {len n : Nat} {s : List UInt8} (hlt : len < n)
    (hbytes : (List.range len).map buf = s) (hs : 0 ∉ s) (hnul : buf len = 0) :
    cString buf n = some s := by
  have hsplit : (List.range n).map buf =
      s ++ 0 :: (List.range (n - len - 1)).map fun i => buf (len + 1 + i) := by
    have hn : n = len + (1 + (n - len - 1)) := by omega
    conv_lhs => rw [hn, List.range_add, List.range_add]
    simp [hbytes, hnul, Nat.add_assoc, Function.comp_def]
  rw [cString, hsplit, if_pos (by simp), cBytes, List.takeWhile_append_of_pos]
  · simp
  · intro c hc
    simpa using fun hzero : c = 0 => hs (hzero ▸ hc)

theorem cString_written (buf : Nat → UInt8) {cap : Nat} (hcap : 0 < cap) (calls : List Call) :
    cString (written buf cap calls).buf cap = some ((callsBytes false calls).take (cap - 1)) := by
  obtain ⟨hholds, hsame⟩ := holds_written buf cap calls
  have hlen := hholds.len
  rw [hsame] at hlen
  refine cString_eq (by omega) (by rw [hholds.bytes, hsame]) ?_ (hholds.nul (by omega))
  exact fun hzero => zero_notMem_callsBytes false calls (List.mem_of_mem_take hzero)

/-- For every capacity and all calls, `callsBytes false calls` is what a writer with
    enough room produces, and a writer with any capacity holds as much of it as leaves
    room for the NUL, has its length, is `ok` exactly if nothing is missing, and has not
    touched memory from its capacity on. -/
theorem jw_truncates (buf : Nat → UInt8) (cap : Nat) (calls : List Call) :
    (∀ buf' cap', (callsBytes false calls).length < cap' →
      cString (written buf' cap' calls).buf cap' = some (callsBytes false calls)) ∧
      (0 < cap → cString (written buf cap calls).buf cap =
        some ((callsBytes false calls).take (cap - 1))) ∧
      (written buf cap calls).jwLen = min (callsBytes false calls).length (cap - 1) ∧
      ((written buf cap calls).jwOk = true ↔
        (written buf cap calls).jwLen = (callsBytes false calls).length) ∧
      ∀ i, cap ≤ i → (written buf cap calls).buf i = buf i := by
  obtain ⟨hholds, hsame⟩ := holds_written buf cap calls
  have hlen := hholds.len
  have hok := hholds.ok
  have hframe := hholds.frame
  rw [hsame] at hlen hok hframe
  refine ⟨?_, fun hcap => cString_written buf hcap calls, hlen, ?_, hframe⟩
  · intro buf' cap' hroom
    rw [cString_written buf' (by omega), List.take_of_length_le (by omega)]
  · rw [JsonW.jwOk, JsonW.jwLen, Bool.not_eq_true', hok, hlen]
    omega

/-- Cut inside an escape pair: the quotation mark after the backslash is missing. -/
example : cString (written (fun _ => 1) 7 [.objOpen, .str none ['a'.toUInt8, '"'.toUInt8]]).buf 9 =
      some ['{'.toUInt8, '"'.toUInt8, 'a'.toUInt8, '\\'.toUInt8, '"'.toUInt8, '"'.toUInt8] ∧
    cString (written (fun _ => 1) 5 [.objOpen, .str none ['a'.toUInt8, '"'.toUInt8]]).buf 9 =
      some ['{'.toUInt8, '"'.toUInt8, 'a'.toUInt8, '\\'.toUInt8] := by
  decide +kernel

end FlintRTOS.JsonWriter
