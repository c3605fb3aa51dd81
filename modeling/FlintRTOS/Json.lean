import Mathlib.Data.List.Basic
import Mathlib.Data.List.TakeWhile

/-!
# JSON texts

The grammar of JSON texts as relations between a text, the value it stands for and
what is left of the text after it, and a decoder that follows the grammar by recursive
descent.  The result is `Json.decode_eq_some_iff`: the decoder returns a value
exactly on the texts that the grammar derives for it.

A grammar relation may stop anywhere inside a run of whitespace or digits, while the
decoder takes the whole run.  The two agree because of what can follow: `Ends` says it
for numbers, and no derivation starts with whitespace.
-/

/-- The decimal number `mantissa * 10 ^ exponent`. -/
structure Decimal where
  mantissa : Int
  exponent : Int
deriving DecidableEq

inductive Json where
  | null
  | bool (b : Bool)
  | number (n : Decimal)
  | string (s : List Char)
  | array (elements : List Json)
  | object (members : List (List Char × Json))

namespace Json

/-! ### Whitespace -/

def isWs (c : Char) : Bool :=
  c = ' ' || c = '\t' || c = '\n' || c = '\r'

variable {c : Char} {s r ds fs cs : List Char} {e : Int} {m : Nat} {n : Decimal}

theorem isWs_cases (h : isWs c = true) : c = ' ' ∨ c = '\t' ∨ c = '\n' ∨ c = '\r' := by
  simpa [isWs, or_assoc] using h

/-- The first text is some whitespace followed by the second. -/
inductive Ws : List Char → List Char → Prop where
  | nil {s : List Char} : Ws s s
  | cons {c : Char} {s r : List Char} (hc : isWs c = true) (h : Ws s r) : Ws (c :: s) r

def skipWs (s : List Char) : List Char :=
  s.dropWhile isWs

theorem ws_skipWs (s : List Char) : Ws s (skipWs s) := by
  induction s with
  | nil => exact .nil
  | cons c s ih =>
    by_cases hc : isWs c = true
    · rw [skipWs, List.dropWhile_cons_of_pos hc]
      exact .cons hc ih
    · rw [skipWs, List.dropWhile_cons_of_neg hc]
      exact .nil

theorem Ws.skipWs_eq (h : Ws s r) : skipWs s = skipWs r := by
  induction h with
  | nil => rfl
  | cons hc _ ih => rw [skipWs, List.dropWhile_cons_of_pos hc]; exact ih

theorem Ws.length_le (h : Ws s r) : r.length ≤ s.length := by
  induction h with
  | nil => exact Nat.le_refl _
  | cons _ _ ih => exact Nat.le_succ_of_le ih

theorem skipWs_cons (hc : isWs c = false) : skipWs (c :: s) = c :: s :=
  List.dropWhile_cons_of_neg (by simp [hc])

/-! ### Numbers -/

/-- A nonempty run of digits and what is left after it. -/
structure Digits (s ds r : List Char) : Prop where
  text : s = ds ++ r
  nonempty : ds ≠ []
  digit : ∀ c ∈ ds, c.isDigit = true

def digitsVal (ds : List Char) : Nat :=
  ds.foldl (fun n c => 10 * n + (c.toNat - '0'.toNat)) 0

/-- The digits after the point, none if there is no point. -/
inductive Frac : List Char → List Char → List Char → Prop where
  | absent {s : List Char} : Frac s [] s
  | present {s ds r : List Char} (h : Digits s ds r) : Frac ('.' :: s) ds r

inductive Exp : List Char → Int → List Char → Prop where
  | absent {s : List Char} : Exp s 0 s
  | unsigned {e : Char} {s ds r : List Char} (he : e = 'e' ∨ e = 'E') (h : Digits s ds r) :
      Exp (e :: s) (digitsVal ds) r
  | plus {e : Char} {s ds r : List Char} (he : e = 'e' ∨ e = 'E') (h : Digits s ds r) :
      Exp (e :: '+' :: s) (digitsVal ds) r
  | minus {e : Char} {s ds r : List Char} (he : e = 'e' ∨ e = 'E') (h : Digits s ds r) :
      Exp (e :: '-' :: s) (-digitsVal ds) r

/-- An integer part is a single zero or does not start with one. -/
def noLeadingZero (ds : List Char) : Bool :=
  ds = ['0'] || ds.head? ≠ some '0'

inductive Unsigned : List Char → Nat → Int → List Char → Prop where
  | mk {s t u r ds fs : List Char} {e : Int} (hint : Digits s ds t)
      (hzero : noLeadingZero ds = true) (hfrac : Frac t fs u) (hexp : Exp u e r) :
      Unsigned s (digitsVal (ds ++ fs)) (e - fs.length) r

inductive Number : List Char → Decimal → List Char → Prop where
  | pos {s r : List Char} {m : Nat} {e : Int} (h : Unsigned s m e r) : Number s ⟨m, e⟩ r
  | neg {s r : List Char} {m : Nat} {e : Int} (h : Unsigned s m e r) :
      Number ('-' :: s) ⟨-m, e⟩ r

def digits? (s : List Char) : Option (List Char × List Char) :=
  let ds := s.takeWhile Char.isDigit
  if ds = [] then none else some (ds, s.dropWhile Char.isDigit)

def frac? : List Char → Option (List Char × List Char)
  | [] => some ([], [])
  | c :: s => if c = '.' then digits? s else some ([], c :: s)

def expDigits? : List Char → Option (Int × List Char)
  | [] => none
  | c :: s =>
    if c = '+' then (digits? s).map fun (ds, r) => ((digitsVal ds : Int), r)
    else if c = '-' then (digits? s).map fun (ds, r) => (-(digitsVal ds : Int), r)
    else (digits? (c :: s)).map fun (ds, r) => ((digitsVal ds : Int), r)

def exp? : List Char → Option (Int × List Char)
  | [] => some (0, [])
  | c :: s => if c = 'e' ∨ c = 'E' then expDigits? s else some (0, c :: s)

def unsigned? (s : List Char) : Option (Nat × Int × List Char) := do
  let (ds, t) ← digits? s
  if noLeadingZero ds then
    let (fs, u) ← frac? t
    let (e, r) ← exp? u
    some (digitsVal (ds ++ fs), e - fs.length, r)
  else none

def number? : List Char → Option (Decimal × List Char)
  | [] => none
  | c :: s =>
    if c = '-' then (unsigned? s).map fun (m, e, r) => (⟨-m, e⟩, r)
    else (unsigned? (c :: s)).map fun (m, e, r) => (⟨m, e⟩, r)

/-- A number can end before this text: it does not go on with what could be part of it. -/
def Ends (r : List Char) : Prop :=
  ∀ c ∈ r.head?, c.isDigit = false ∧ c ≠ '.' ∧ c ≠ 'e' ∧ c ≠ 'E'

theorem digits?_sound (h : digits? s = some (ds, r)) : Digits s ds r := by
  simp only [digits?] at h
  split at h
  · contradiction
  · next hne =>
    obtain ⟨rfl, rfl⟩ := Prod.mk.inj (Option.some.inj h)
    exact ⟨List.takeWhile_append_dropWhile.symm, hne, fun c hc => List.mem_takeWhile_imp hc⟩

theorem Digits.eq (h : Digits s ds r) (hr : ∀ c ∈ r.head?, c.isDigit = false) :
    digits? s = some (ds, r) := by
  have htake : s.takeWhile Char.isDigit = ds := by
    rw [h.text, List.takeWhile_append_of_pos h.digit]
    cases r with
    | nil => simp
    | cons c r => simp [hr c (by simp)]
  have hdrop : s.dropWhile Char.isDigit = r := by
    rw [h.text, List.dropWhile_append_of_pos h.digit]
    cases r with
    | nil => rfl
    | cons c r => exact List.dropWhile_cons_of_neg (by simp [hr c (by simp)])
  simp [digits?, htake, hdrop, h.nonempty]

theorem Digits.head (h : Digits s ds r) : ∃ c t, s = c :: t ∧ c.isDigit = true := by
  cases ds with
  | nil => exact absurd rfl h.nonempty
  | cons c ds => exact ⟨c, ds ++ r, h.text, h.digit c (by simp)⟩

theorem Digits.length_lt (h : Digits s ds r) : r.length < s.length := by
  have hpos := List.length_pos_of_ne_nil h.nonempty
  rw [h.text, List.length_append]
  omega

theorem frac?_sound (h : frac? s = some (fs, r)) : Frac s fs r := by
  cases s with
  | nil =>
    obtain ⟨rfl, rfl⟩ := Prod.mk.inj (Option.some.inj h)
    exact .absent
  | cons c s =>
    simp only [frac?] at h
    split at h
    · next hc => exact hc ▸ .present (digits?_sound h)
    · obtain ⟨rfl, rfl⟩ := Prod.mk.inj (Option.some.inj h)
      exact .absent

theorem Frac.eq (h : Frac s fs r) (hr : ∀ c ∈ r.head?, c.isDigit = false ∧ c ≠ '.') :
    frac? s = some (fs, r) := by
  cases h with
  | absent =>
    cases s with
    | nil => rfl
    | cons c s => simp [frac?, (hr c (by simp)).2]
  | present h => simp [frac?, h.eq fun c hc => (hr c hc).1]

theorem Frac.length_le (h : Frac s fs r) : r.length ≤ s.length := by
  cases h with
  | absent => exact Nat.le_refl _
  | present h => exact Nat.le_succ_of_le h.length_lt.le

theorem exp?_sound (h : exp? s = some (e, r)) : Exp s e r := by
  cases s with
  | nil =>
    obtain ⟨rfl, rfl⟩ := Prod.mk.inj (Option.some.inj h)
    exact .absent
  | cons c s =>
    simp only [exp?] at h
    split at h
    · next hc =>
      cases s with
      | nil => contradiction
      | cons d s =>
        simp only [expDigits?] at h
        split at h
        · next hd =>
          obtain ⟨⟨ds, r'⟩, hds, heq⟩ := Option.map_eq_some_iff.mp h
          obtain ⟨rfl, rfl⟩ := Prod.mk.inj heq
          exact hd ▸ .plus hc (digits?_sound hds)
        split at h
        · next hd =>
          obtain ⟨⟨ds, r'⟩, hds, heq⟩ := Option.map_eq_some_iff.mp h
          obtain ⟨rfl, rfl⟩ := Prod.mk.inj heq
          exact hd ▸ .minus hc (digits?_sound hds)
        · obtain ⟨⟨ds, r'⟩, hds, heq⟩ := Option.map_eq_some_iff.mp h
          obtain ⟨rfl, rfl⟩ := Prod.mk.inj heq
          exact .unsigned hc (digits?_sound hds)
    · obtain ⟨rfl, rfl⟩ := Prod.mk.inj (Option.some.inj h)
      exact .absent

theorem Exp.eq (h : Exp s e r) (hr : Ends r) : exp? s = some (e, r) := by
  have hdigit : ∀ c ∈ r.head?, c.isDigit = false := fun c hc => (hr c hc).1
  cases h with
  | absent =>
    cases s with
    | nil => rfl
    | cons c s => simp [exp?, (hr c (by simp)).2.2]
  | unsigned he h =>
    obtain ⟨c, t, rfl, hc⟩ := h.head
    have hplus : c ≠ '+' := by rintro rfl; contradiction
    have hminus : c ≠ '-' := by rintro rfl; contradiction
    simp [exp?, he, expDigits?, hplus, hminus, h.eq hdigit]
  | plus he h => simp [exp?, he, expDigits?, h.eq hdigit]
  | minus he h => simp [exp?, he, expDigits?, h.eq hdigit]

theorem Exp.length_le (h : Exp s e r) : r.length ≤ s.length := by
  cases h with
  | absent => exact Nat.le_refl _
  | unsigned _ h => exact Nat.le_succ_of_le h.length_lt.le
  | plus _ h => exact Nat.le_succ_of_le (Nat.le_succ_of_le h.length_lt.le)
  | minus _ h => exact Nat.le_succ_of_le (Nat.le_succ_of_le h.length_lt.le)

/-- What follows the fraction part is not part of it. -/
theorem Exp.head (h : Exp s e r) (hr : Ends r) : ∀ c ∈ s.head?, c.isDigit = false ∧ c ≠ '.' := by
  intro c hc
  cases h with
  | absent => exact ⟨(hr c hc).1, (hr c hc).2.1⟩
  | unsigned he _ => obtain rfl := Option.some.inj hc; rcases he with rfl | rfl <;> decide
  | plus he _ => obtain rfl := Option.some.inj hc; rcases he with rfl | rfl <;> decide
  | minus he _ => obtain rfl := Option.some.inj hc; rcases he with rfl | rfl <;> decide

theorem Frac.head (h : Frac s fs r) (hr : ∀ c ∈ r.head?, c.isDigit = false ∧ c ≠ '.') :
    ∀ c ∈ s.head?, c.isDigit = false := by
  intro c hc
  cases h with
  | absent => exact (hr c hc).1
  | present _ => obtain rfl := Option.some.inj hc; decide

theorem unsigned?_sound (h : unsigned? s = some (m, e, r)) : Unsigned s m e r := by
  simp only [unsigned?, Option.bind_eq_bind, Option.bind_eq_some_iff] at h
  obtain ⟨⟨ds, t⟩, hint, h⟩ := h
  split at h
  · next hzero =>
    obtain ⟨⟨fs, u⟩, hfrac, ⟨e', r'⟩, hexp, h⟩ := by
      simpa only [Option.bind_eq_some_iff] using h
    obtain ⟨rfl, rfl, rfl⟩ := by simpa using h
    exact .mk (digits?_sound hint) hzero (frac?_sound hfrac) (exp?_sound hexp)
  · contradiction

theorem Unsigned.eq (h : Unsigned s m e r) (hr : Ends r) : unsigned? s = some (m, e, r) := by
  cases h with
  | mk hint hzero hfrac hexp =>
    have hu := hexp.head hr
    simp [unsigned?, hint.eq (hfrac.head hu), hzero, hfrac.eq hu, hexp.eq hr]

theorem Unsigned.head (h : Unsigned s m e r) : ∃ c t, s = c :: t ∧ c.isDigit = true := by
  cases h with
  | mk hint _ _ _ => exact hint.head

theorem Unsigned.length_lt (h : Unsigned s m e r) : r.length < s.length := by
  cases h with
  | mk hint _ hfrac hexp =>
    have := hint.length_lt
    have := hfrac.length_le
    have := hexp.length_le
    omega

theorem number?_sound (h : number? s = some (n, r)) : Number s n r := by
  cases s with
  | nil => contradiction
  | cons c s =>
    simp only [number?] at h
    split at h
    · next hc =>
      obtain ⟨⟨m, e, r'⟩, hm, heq⟩ := Option.map_eq_some_iff.mp h
      obtain ⟨rfl, rfl⟩ := Prod.mk.inj heq
      exact hc ▸ .neg (unsigned?_sound hm)
    · obtain ⟨⟨m, e, r'⟩, hm, heq⟩ := Option.map_eq_some_iff.mp h
      obtain ⟨rfl, rfl⟩ := Prod.mk.inj heq
      exact .pos (unsigned?_sound hm)

theorem Number.eq (h : Number s n r) (hr : Ends r) : number? s = some (n, r) := by
  cases h with
  | pos h =>
    obtain ⟨c, t, rfl, hc⟩ := h.head
    have hminus : c ≠ '-' := by rintro rfl; contradiction
    simp [number?, hminus, h.eq hr]
  | neg h => simp [number?, h.eq hr]

theorem Number.head (h : Number s n r) : ∃ c t, s = c :: t ∧ (c = '-' ∨ c.isDigit = true) := by
  cases h with
  | pos h =>
    obtain ⟨c, t, rfl, hc⟩ := h.head
    exact ⟨c, t, rfl, .inr hc⟩
  | neg h => exact ⟨'-', _, rfl, .inl rfl⟩

theorem Number.length_lt (h : Number s n r) : r.length < s.length := by
  cases h with
  | pos h => exact h.length_lt
  | neg h => exact Nat.lt_succ_of_lt h.length_lt

/-! ### Strings -/

def isUnescaped (c : Char) : Bool :=
  0x20 ≤ c.toNat && c ≠ '"' && c ≠ '\\'

/-- The character after a backslash and the character it stands for. -/
def simpleEscape? (e : Char) : Option Char :=
  if e = '"' ∨ e = '\\' ∨ e = '/' then some e
  else if e = 'b' then some '\x08'
  else if e = 'f' then some '\x0c'
  else if e = 'n' then some '\n'
  else if e = 'r' then some '\r'
  else if e = 't' then some '\t'
  else none

def hexDigit? (c : Char) : Option Nat :=
  if c.isDigit then some (c.toNat - '0'.toNat)
  else if 'a' ≤ c ∧ c ≤ 'f' then some (c.toNat - 'a'.toNat + 10)
  else if 'A' ≤ c ∧ c ≤ 'F' then some (c.toNat - 'A'.toNat + 10)
  else none

/-- The code unit that four hexadecimal digits name. -/
inductive Hex4 : List Char → Nat → List Char → Prop where
  | mk {a b c d : Char} {i j k l : Nat} {s : List Char} (ha : hexDigit? a = some i)
      (hb : hexDigit? b = some j) (hc : hexDigit? c = some k) (hd : hexDigit? d = some l) :
      Hex4 (a :: b :: c :: d :: s) (((i * 16 + j) * 16 + k) * 16 + l) s

def isHigh (n : Nat) : Bool := 0xD800 ≤ n && n < 0xDC00
def isLow (n : Nat) : Bool := 0xDC00 ≤ n && n < 0xE000

/-- The character that a surrogate pair names. -/
def pairChar (hi lo : Nat) : Char :=
  Char.ofNat (0x10000 + (hi - 0xD800) * 0x400 + (lo - 0xDC00))

/-- An escape, from after its backslash on.  A surrogate stands only in a pair. -/
inductive Escape : List Char → Char → List Char → Prop where
  | simple {e c : Char} {s : List Char} (h : simpleEscape? e = some c) : Escape (e :: s) c s
  | unit {s r : List Char} {n : Nat} (h : Hex4 s n r) (hhi : isHigh n = false)
      (hlo : isLow n = false) : Escape ('u' :: s) (Char.ofNat n) r
  | pair {s t r : List Char} {hi lo : Nat} (h : Hex4 s hi ('\\' :: 'u' :: t))
      (hhi : isHigh hi = true) (h' : Hex4 t lo r) (hlo : isLow lo = true) :
      Escape ('u' :: s) (pairChar hi lo) r

/-- The characters of a string, from after its opening quotation mark on. -/
inductive Chars : List Char → List Char → List Char → Prop where
  | close {r : List Char} : Chars ('"' :: r) [] r
  | unescaped {c : Char} {s cs r : List Char} (hc : isUnescaped c = true) (h : Chars s cs r) :
      Chars (c :: s) (c :: cs) r
  | escape {c : Char} {s t cs r : List Char} (hc : Escape s c t) (h : Chars t cs r) :
      Chars ('\\' :: s) (c :: cs) r

def hex4? : List Char → Option (Nat × List Char)
  | a :: b :: c :: d :: s => do
    let i ← hexDigit? a
    let j ← hexDigit? b
    let k ← hexDigit? c
    let l ← hexDigit? d
    some (((i * 16 + j) * 16 + k) * 16 + l, s)
  | _ => none

/-- The low surrogate that has to follow a high one. -/
def lowUnit? : List Char → Option (Nat × List Char)
  | '\\' :: 'u' :: s => (hex4? s).filter fun x => isLow x.1
  | _ => none

def unicode? (s : List Char) : Option (Char × List Char) := do
  let (n, t) ← hex4? s
  if isHigh n then
    let (lo, r) ← lowUnit? t
    some (pairChar n lo, r)
  else if isLow n then none
  else some (Char.ofNat n, t)

def escape? : List Char → Option (Char × List Char)
  | [] => none
  | e :: s => if e = 'u' then unicode? s else (simpleEscape? e).map fun c => (c, s)

/-- Every step takes at least one character, so the length of the text is enough fuel. -/
def chars? : Nat → List Char → Option (List Char × List Char)
  | 0, _ => none
  | _, [] => none
  | fuel + 1, c :: s =>
    if c = '"' then some ([], s)
    else if c = '\\' then do
      let (x, t) ← escape? s
      let (cs, r) ← chars? fuel t
      some (x :: cs, r)
    else if isUnescaped c then (chars? fuel s).map fun (cs, r) => (c :: cs, r)
    else none

theorem hex4?_eq_some_iff {n : Nat} : hex4? s = some (n, r) ↔ Hex4 s n r := by
  constructor
  · intro h
    unfold hex4? at h
    split at h
    · simp only [Option.bind_eq_bind, Option.bind_eq_some_iff] at h
      obtain ⟨i, ha, j, hb, k, hc, l, hd, h⟩ := h
      obtain ⟨rfl, rfl⟩ := Prod.mk.inj (Option.some.inj h)
      exact .mk ha hb hc hd
    · contradiction
  · rintro ⟨ha, hb, hc, hd⟩
    simp [hex4?, ha, hb, hc, hd]

theorem Hex4.length_lt {n : Nat} (h : Hex4 s n r) : r.length < s.length := by
  cases h with
  | mk => simp only [List.length_cons]; omega

theorem lowUnit?_eq_some {lo : Nat} (h : lowUnit? s = some (lo, r)) :
    ∃ t, s = '\\' :: 'u' :: t ∧ Hex4 t lo r ∧ isLow lo = true := by
  unfold lowUnit? at h
  split at h
  · next t =>
    obtain ⟨hx, hlo⟩ := Option.filter_eq_some_iff.mp h
    exact ⟨t, rfl, hex4?_eq_some_iff.mp hx, hlo⟩
  · contradiction

theorem unicode?_sound (h : unicode? s = some (c, r)) : Escape ('u' :: s) c r := by
  simp only [unicode?, Option.bind_eq_bind, Option.bind_eq_some_iff] at h
  obtain ⟨⟨n, t⟩, hn, h⟩ := h
  have hn := hex4?_eq_some_iff.mp hn
  split at h
  · next hhi =>
    obtain ⟨⟨lo, r'⟩, hlow, h⟩ := Option.bind_eq_some_iff.mp h
    obtain ⟨rfl, rfl⟩ := Prod.mk.inj (Option.some.inj h)
    obtain ⟨u, rfl, hu, hlo⟩ := lowUnit?_eq_some hlow
    exact .pair hn hhi hu hlo
  split at h
  · contradiction
  · next hhi hlo =>
    obtain ⟨rfl, rfl⟩ := Prod.mk.inj (Option.some.inj h)
    exact .unit hn (by simpa using hhi) (by simpa using hlo)

theorem escape?_eq_some_iff : escape? s = some (c, r) ↔ Escape s c r := by
  constructor
  · intro h
    cases s with
    | nil => contradiction
    | cons e s =>
      simp only [escape?] at h
      split at h
      · next he => exact he ▸ unicode?_sound h
      · obtain ⟨x, hx, heq⟩ := Option.map_eq_some_iff.mp h
        obtain ⟨rfl, rfl⟩ := Prod.mk.inj heq
        exact .simple hx
  · intro h
    cases h with
    | @simple e _ _ h =>
      have hu : e ≠ 'u' := by rintro rfl; simp [simpleEscape?] at h
      simp [escape?, hu, h]
    | unit h hhi hlo => simp [escape?, unicode?, hex4?_eq_some_iff.mpr h, hhi, hlo]
    | pair h hhi h' hlo =>
      simp [escape?, unicode?, hex4?_eq_some_iff.mpr h, hhi, lowUnit?,
        hex4?_eq_some_iff.mpr h', Option.filter_some, hlo]

theorem Escape.length_lt (h : Escape s c r) : r.length < s.length := by
  cases h with
  | simple _ => exact Nat.lt_succ_self _
  | unit h _ _ => exact Nat.lt_succ_of_lt h.length_lt
  | pair h _ h' _ =>
    have hhi := h.length_lt
    have hlo := h'.length_lt
    simp only [List.length_cons] at hhi ⊢
    omega

theorem chars?_sound {fuel : Nat} (h : chars? fuel s = some (cs, r)) : Chars s cs r := by
  induction fuel generalizing s cs with
  | zero => contradiction
  | succ fuel ih =>
    cases s with
    | nil => contradiction
    | cons c s =>
      simp only [chars?] at h
      split at h
      · next hc =>
        obtain ⟨rfl, rfl⟩ := Prod.mk.inj (Option.some.inj h)
        exact hc ▸ .close
      split at h
      · next hc =>
        simp only [Option.bind_eq_bind, Option.bind_eq_some_iff] at h
        obtain ⟨⟨x, t⟩, hx, ⟨cs', r'⟩, hcs, h⟩ := h
        obtain ⟨rfl, rfl⟩ := Prod.mk.inj (Option.some.inj h)
        exact hc ▸ .escape (escape?_eq_some_iff.mp hx) (ih hcs)
      split at h
      · next hc =>
        obtain ⟨⟨cs', r'⟩, hcs, heq⟩ := Option.map_eq_some_iff.mp h
        obtain ⟨rfl, rfl⟩ := Prod.mk.inj heq
        exact .unescaped hc (ih hcs)
      · contradiction

theorem Chars.length_lt (h : Chars s cs r) : r.length < s.length := by
  induction h with
  | close => exact Nat.lt_succ_self _
  | unescaped _ _ ih => exact Nat.lt_succ_of_lt ih
  | escape hc _ ih => exact Nat.lt_succ_of_lt (Nat.lt_trans ih hc.length_lt)

theorem Chars.eq (h : Chars s cs r) {fuel : Nat} (hfuel : s.length ≤ fuel) :
    chars? fuel s = some (cs, r) := by
  induction fuel generalizing s cs with
  | zero => exact absurd h.length_lt (by omega)
  | succ fuel ih =>
    cases h with
    | close => simp [chars?]
    | @unescaped c s cs _ hc h =>
      have hquote : c ≠ '"' := by rintro rfl; simp [isUnescaped] at hc
      have hback : c ≠ '\\' := by rintro rfl; simp [isUnescaped] at hc
      simp [chars?, hquote, hback, hc, ih h (Nat.le_of_succ_le_succ hfuel)]
    | @escape c s t cs _ hc h =>
      have ht : t.length ≤ fuel := by
        have := hc.length_lt
        simp only [List.length_cons] at hfuel
        omega
      simp [chars?, escape?_eq_some_iff.mpr hc, ih h ht]

/-! ### Values -/

/-- Arrays and objects, which differ in their brackets and in what their entries are. -/
inductive Container where
  | array
  | object
deriving DecidableEq

namespace Container

def opening : Container → Char
  | array => '['
  | object => '{'

def closing : Container → Char
  | array => ']'
  | object => '}'

abbrev Content : Container → Type
  | array => List Json
  | object => List (List Char × Json)

def empty : (c : Container) → c.Content
  | array => []
  | object => []

def toJson : (c : Container) → c.Content → Json
  | array, vs => .array vs
  | object, ms => .object ms

end Container

/-- What a derivation can be about: a value, one entry of a container and those after it,
    the entries after the opening bracket, and the entries after another entry. -/
inductive Item where
  | value
  | entry (c : Container)
  | entries (c : Container)
  | more (c : Container)

abbrev Item.Out : Item → Type
  | value => Json
  | entry c => c.Content
  | entries c => c.Content
  | more c => c.Content

inductive Derives : (i : Item) → List Char → i.Out → List Char → Prop where
  | null {r : List Char} : Derives .value ('n' :: 'u' :: 'l' :: 'l' :: r) .null r
  | true {r : List Char} : Derives .value ('t' :: 'r' :: 'u' :: 'e' :: r) (.bool true) r
  | false {r : List Char} : Derives .value ('f' :: 'a' :: 'l' :: 's' :: 'e' :: r) (.bool false) r
  | number {s r : List Char} {n : Decimal} (h : Number s n r) : Derives .value s (.number n) r
  | string {s cs r : List Char} (h : Chars s cs r) : Derives .value ('"' :: s) (.string cs) r
  | container {c : Container} {s t r : List Char} {x : c.Content} (hws : Ws s t)
      (h : Derives (.entries c) t x r) : Derives .value (c.opening :: s) (c.toJson x) r
  | none {c : Container} {r : List Char} : Derives (.entries c) (c.closing :: r) c.empty r
  | some {c : Container} {s r : List Char} {x : c.Content} (h : Derives (.entry c) s x r) :
      Derives (.entries c) s x r
  | element {s t u r : List Char} {v : Json} {vs : List Json} (hv : Derives .value s v t)
      (hws : Ws t u) (h : Derives (.more .array) u vs r) :
      Derives (.entry .array) s (v :: vs) r
  | member {s t u u' w w' r k : List Char} {v : Json} {ms : List (List Char × Json)}
      (hk : Chars s k t) (hcolon : Ws t (':' :: u)) (hws : Ws u u')
      (hv : Derives .value u' v w) (hws' : Ws w w') (h : Derives (.more .object) w' ms r) :
      Derives (.entry .object) ('"' :: s) ((k, v) :: ms) r
  | last {c : Container} {r : List Char} : Derives (.more c) (c.closing :: r) c.empty r
  | next {c : Container} {s t r : List Char} {x : c.Content} (hws : Ws s t)
      (h : Derives (.entry c) t x r) : Derives (.more c) (',' :: s) x r

/-- The text is a JSON text that stands for the value. -/
def Text (s : List Char) (v : Json) : Prop :=
  ∃ t r, Ws s t ∧ Derives .value t v r ∧ Ws r []

def quoted? : List Char → Option (List Char × List Char)
  | [] => none
  | c :: s => if c = '"' then chars? s.length s else none

def scalar? : List Char → Option (Json × List Char)
  | 'n' :: 'u' :: 'l' :: 'l' :: r => some (.null, r)
  | 't' :: 'r' :: 'u' :: 'e' :: r => some (.bool true, r)
  | 'f' :: 'a' :: 'l' :: 's' :: 'e' :: r => some (.bool false, r)
  | '"' :: s => (chars? s.length s).map fun (cs, r) => (.string cs, r)
  | s => (number? s).map fun (n, r) => (.number n, r)

/-- The text after a colon, if there is one after the whitespace. -/
def colon? (s : List Char) : Option (List Char) :=
  match skipWs s with
  | [] => none
  | c :: r => if c = ':' then some (skipWs r) else none

def parse : Nat → (i : Item) → List Char → Option (i.Out × List Char)
  | 0, _, _ => none
  | fuel + 1, .value, s =>
    match s with
    | [] => none
    | c :: t =>
      if c = '[' then (parse fuel (.entries .array) (skipWs t)).map fun (vs, r) => (.array vs, r)
      else if c = '{' then
        (parse fuel (.entries .object) (skipWs t)).map fun (ms, r) => (.object ms, r)
      else scalar? (c :: t)
  | fuel + 1, .entry .array, s => do
    let (v, t) ← parse fuel .value s
    let (vs, r) ← parse fuel (.more .array) (skipWs t)
    some (v :: vs, r)
  | fuel + 1, .entry .object, s => do
    let (k, t) ← quoted? s
    let u ← colon? t
    let (v, w) ← parse fuel .value u
    let (ms, r) ← parse fuel (.more .object) (skipWs w)
    some ((k, v) :: ms, r)
  | fuel + 1, .entries c, s =>
    match s with
    | [] => none
    | x :: r => if x = c.closing then some (c.empty, r) else parse fuel (.entry c) (x :: r)
  | fuel + 1, .more c, s =>
    match s with
    | [] => none
    | x :: r =>
      if x = c.closing then some (c.empty, r)
      else if x = ',' then parse fuel (.entry c) (skipWs r)
      else none

/-- A text has no more than three nested derivations for each of its characters. -/
def decode (s : List Char) : Option Json :=
  match parse (3 * s.length + 1) .value (skipWs s) with
  | none => none
  | some (v, r) => if skipWs r = [] then some v else none

theorem quoted?_eq_some_iff {k : List Char} :
    quoted? s = some (k, r) ↔ ∃ t, s = '"' :: t ∧ Chars t k r := by
  constructor
  · intro h
    cases s with
    | nil => contradiction
    | cons c s =>
      simp only [quoted?] at h
      split at h
      · next hc => exact ⟨s, hc ▸ rfl, chars?_sound h⟩
      · contradiction
  · rintro ⟨t, rfl, h⟩
    simp [quoted?, h.eq (Nat.le_refl _)]

theorem colon?_sound (h : colon? s = some r) : ∃ u, Ws s (':' :: u) ∧ r = skipWs u := by
  unfold colon? at h
  split at h
  · contradiction
  · next c u hs =>
    split at h
    · next hc => exact ⟨u, hc ▸ hs ▸ ws_skipWs s, (Option.some.inj h).symm⟩
    · contradiction

theorem Ws.colon?_eq {u : List Char} (h : Ws s (':' :: u)) : colon? s = some (skipWs u) := by
  simp [colon?, h.skipWs_eq, skipWs_cons (show isWs ':' = false by decide)]

theorem scalar?_sound {v : Json} (h : scalar? s = some (v, r)) : Derives .value s v r := by
  unfold scalar? at h
  split at h
  · obtain ⟨rfl, rfl⟩ := Prod.mk.inj (Option.some.inj h)
    exact .null
  · obtain ⟨rfl, rfl⟩ := Prod.mk.inj (Option.some.inj h)
    exact .true
  · obtain ⟨rfl, rfl⟩ := Prod.mk.inj (Option.some.inj h)
    exact .false
  · obtain ⟨⟨cs, r'⟩, hcs, heq⟩ := Option.map_eq_some_iff.mp h
    obtain ⟨rfl, rfl⟩ := Prod.mk.inj heq
    exact .string (chars?_sound hcs)
  · obtain ⟨⟨n, r'⟩, hn, heq⟩ := Option.map_eq_some_iff.mp h
    obtain ⟨rfl, rfl⟩ := Prod.mk.inj heq
    exact .number (number?_sound hn)

/-- The first character of a number tells it from every other value. -/
theorem Number.scalar?_eq (h : Number s n r) (hr : Ends r) : scalar? s = some (.number n, r) := by
  obtain ⟨c, t, rfl, hc⟩ := h.head
  unfold scalar?
  split
  · next heq => obtain ⟨rfl, -⟩ := List.cons.inj heq; simp at hc
  · next heq => obtain ⟨rfl, -⟩ := List.cons.inj heq; simp at hc
  · next heq => obtain ⟨rfl, -⟩ := List.cons.inj heq; simp at hc
  · next heq => obtain ⟨rfl, -⟩ := List.cons.inj heq; simp at hc
  · rw [h.eq hr]; rfl

variable {i : Item} {x : i.Out}

theorem parse_sound {fuel : Nat} (h : parse fuel i s = some (x, r)) : Derives i s x r := by
  induction fuel generalizing i s r with
  | zero => contradiction
  | succ fuel ih =>
    match i with
    | .value =>
      cases s with
      | nil => contradiction
      | cons c t =>
        simp only [parse] at h
        split at h
        · next hc =>
          obtain ⟨⟨vs, r'⟩, hvs, heq⟩ := Option.map_eq_some_iff.mp h
          obtain ⟨rfl, rfl⟩ := Prod.mk.inj heq
          exact hc ▸ Derives.container (c := .array) (ws_skipWs t) (ih hvs)
        split at h
        · next hc =>
          obtain ⟨⟨vs, r'⟩, hvs, heq⟩ := Option.map_eq_some_iff.mp h
          obtain ⟨rfl, rfl⟩ := Prod.mk.inj heq
          exact hc ▸ Derives.container (c := .object) (ws_skipWs t) (ih hvs)
        · exact scalar?_sound h
    | .entry .array =>
      simp only [parse, Option.bind_eq_bind, Option.bind_eq_some_iff] at h
      obtain ⟨⟨v, t⟩, hv, ⟨vs, r'⟩, hvs, h⟩ := h
      obtain ⟨rfl, rfl⟩ := Prod.mk.inj (Option.some.inj h)
      exact .element (ih hv) (ws_skipWs t) (ih hvs)
    | .entry .object =>
      simp only [parse, Option.bind_eq_bind, Option.bind_eq_some_iff] at h
      obtain ⟨⟨k, t⟩, hk, u, hu, ⟨v, w⟩, hv, ⟨ms, r'⟩, hms, h⟩ := h
      obtain ⟨rfl, rfl⟩ := Prod.mk.inj (Option.some.inj h)
      obtain ⟨q, rfl, hq⟩ := quoted?_eq_some_iff.mp hk
      obtain ⟨u', hcolon, rfl⟩ := colon?_sound hu
      exact .member hq hcolon (ws_skipWs u') (ih hv) (ws_skipWs w) (ih hms)
    | .entries c =>
      cases s with
      | nil => contradiction
      | cons y t =>
        simp only [parse] at h
        split at h
        · next hy =>
          obtain ⟨rfl, rfl⟩ := Prod.mk.inj (Option.some.inj h)
          exact hy ▸ .none
        · exact .some (ih h)
    | .more c =>
      cases s with
      | nil => contradiction
      | cons y t =>
        simp only [parse] at h
        split at h
        · next hy =>
          obtain ⟨rfl, rfl⟩ := Prod.mk.inj (Option.some.inj h)
          exact hy ▸ .last
        split at h
        · next hy => exact hy ▸ .next (ws_skipWs t) (ih h)
        · contradiction

theorem Derives.skipWs_eq (h : Derives i s x r) : skipWs s = s := by
  induction h with
  | null => exact skipWs_cons (by decide)
  | true => exact skipWs_cons (by decide)
  | false => exact skipWs_cons (by decide)
  | number h =>
    obtain ⟨c, t, rfl, hc⟩ := h.head
    refine skipWs_cons (Bool.eq_false_iff.mpr fun hws => ?_)
    rcases isWs_cases hws with rfl | rfl | rfl | rfl <;> simp at hc
  | string _ => exact skipWs_cons (by decide)
  | @container c => cases c <;> exact skipWs_cons (by decide)
  | @none c => cases c <;> exact skipWs_cons (by decide)
  | some _ ih => exact ih
  | element _ _ _ ih _ => exact ih
  | member => exact skipWs_cons (by decide)
  | @last c => cases c <;> exact skipWs_cons (by decide)
  | next => exact skipWs_cons (by decide)

/-- An entry does not start with the bracket that would close its container. -/
theorem Derives.entry_ne_closing {c : Container} {y : Char} {t : List Char} {x : c.Content}
    (h : Derives (.entry c) (y :: t) x r) : y ≠ c.closing := by
  cases h with
  | member => decide
  | element hv =>
    cases hv with
    | null => decide
    | true => decide
    | false => decide
    | number h =>
      obtain ⟨z, u, heq, hz⟩ := h.head
      obtain ⟨rfl, -⟩ := List.cons.inj heq
      rintro rfl
      simp [Container.closing] at hz
    | string => decide
    | @container c => cases c <;> decide

theorem Derives.length_lt (h : Derives i s x r) : r.length < s.length := by
  induction h with
  | null => simp only [List.length_cons]; omega
  | true => simp only [List.length_cons]; omega
  | false => simp only [List.length_cons]; omega
  | number h => exact h.length_lt
  | string h => exact Nat.lt_succ_of_lt h.length_lt
  | container hws _ ih => exact Nat.lt_succ_of_lt (Nat.lt_of_lt_of_le ih hws.length_le)
  | none => exact Nat.lt_succ_self _
  | some _ ih => exact ih
  | element _ hws _ ihv ih =>
    have := hws.length_le
    omega
  | member hk hcolon hws _ hws' _ ihv ih =>
    have := hk.length_lt
    have := hcolon.length_le
    have := hws.length_le
    have := hws'.length_le
    simp only [List.length_cons] at *
    omega
  | last => exact Nat.lt_succ_self _
  | next hws _ ih => exact Nat.lt_succ_of_lt (Nat.lt_of_lt_of_le ih hws.length_le)

theorem Ws.ends (h : Ws s r) (hr : Ends r) : Ends s := by
  cases h with
  | nil => exact hr
  | cons hc _ =>
    intro c' hc'
    obtain rfl := Option.some.inj hc'
    rcases isWs_cases hc with rfl | rfl | rfl | rfl <;> decide

theorem Derives.ends_more {c : Container} {x : c.Content} (h : Derives (.more c) s x r) :
    Ends s := by
  intro y hy
  cases h with
  | last => obtain rfl := Option.some.inj hy; cases c <;> decide
  | next => obtain rfl := Option.some.inj hy; decide

/-- A value inside a container ends where the decoder ends it. -/
theorem Derives.ends_value {c : Container} {t : List Char} {x : c.Content} (hws : Ws s t)
    (h : Derives (.more c) t x r) : Ends s :=
  hws.ends h.ends_more

/-- Between two derivations that take a character there are at most two that take none. -/
def Item.rank : Item → Nat
  | value => 1
  | entry _ => 2
  | entries _ => 3
  | more _ => 1

/-- Whatever the grammar derives, the decoder finds, if a value at the end of the
    derivation cannot be taken for a longer number. -/
theorem Derives.parse_eq (h : Derives i s x r) (hr : i = .value → Ends r) {fuel : Nat}
    (hfuel : 3 * s.length + i.rank ≤ fuel) : parse fuel i s = .some (x, r) := by
  induction fuel generalizing i s r with
  | zero => exact absurd h.length_lt (by omega)
  | succ fuel ih =>
    cases h with
    | null => simp [parse, scalar?]
    | true => simp [parse, scalar?]
    | false => simp [parse, scalar?]
    | number h =>
      obtain ⟨c, t, rfl, hc⟩ := h.head
      have hsquare : c ≠ '[' := by rintro rfl; simp at hc
      have hcurly : c ≠ '{' := by rintro rfl; simp at hc
      simp [parse, hsquare, hcurly, h.scalar?_eq (hr rfl)]
    | string h => simp [parse, scalar?, h.eq (Nat.le_refl _)]
    | @container c s t _ x hws h =>
      have hstart : skipWs s = t := hws.skipWs_eq.trans h.skipWs_eq
      have ht := hws.length_le
      have hx := ih h nofun (by simp only [List.length_cons, Item.rank] at hfuel ⊢; omega)
      cases c <;> simp [parse, Container.opening, Container.toJson, hstart, hx]
    | none => simp [parse]
    | @some c _ _ _ h =>
      obtain ⟨y, t, rfl⟩ := List.exists_cons_of_length_pos (Nat.zero_lt_of_lt h.length_lt)
      have hx := ih h nofun (by simp only [Item.rank] at hfuel ⊢; omega)
      simp [parse, h.entry_ne_closing, hx]
    | @element _ t u _ _ _ hv hws h =>
      have hstart : skipWs t = u := hws.skipWs_eq.trans h.skipWs_eq
      have hu := hws.length_le
      have hlt := hv.length_lt
      have hx := ih hv (fun _ => ends_value hws h)
        (by simp only [Item.rank] at hfuel ⊢; omega)
      have hxs := ih h nofun (by simp only [Item.rank] at hfuel ⊢; omega)
      simp [parse, hx, hstart, hxs]
    | @member s t u u' w w' _ _ _ _ hk hcolon hws hv hws' h =>
      have hvalue : skipWs u = u' := hws.skipWs_eq.trans hv.skipWs_eq
      have hstart : skipWs w = w' := hws'.skipWs_eq.trans h.skipWs_eq
      have ht := hk.length_lt
      have hu := hcolon.length_le
      have hu' := hws.length_le
      have hlt := hv.length_lt
      have hw := hws'.length_le
      simp only [List.length_cons, Item.rank] at hu hfuel
      have hx := ih hv (fun _ => ends_value hws' h) (by simp only [Item.rank]; omega)
      have hxs := ih h nofun (by simp only [Item.rank]; omega)
      simp [parse, quoted?_eq_some_iff.mpr ⟨s, rfl, hk⟩, hcolon.colon?_eq, hvalue, hx, hstart, hxs]
    | last => simp [parse]
    | @next c s t _ _ hws h =>
      have hstart : skipWs s = t := hws.skipWs_eq.trans h.skipWs_eq
      have ht := hws.length_le
      have hx := ih h nofun (by simp only [List.length_cons, Item.rank] at hfuel ⊢; omega)
      have hcomma : ',' ≠ c.closing := by cases c <;> decide
      simp [parse, hcomma, hstart, hx]

theorem decode_eq_some_iff {v : Json} : decode s = some v ↔ Text s v := by
  constructor
  · intro h
    unfold decode at h
    split at h
    · contradiction
    · next v' r hv =>
      split at h
      · next hr =>
        obtain rfl := Option.some.inj h
        exact ⟨skipWs s, r, ws_skipWs s, parse_sound hv, hr ▸ ws_skipWs r⟩
      · contradiction
  · rintro ⟨t, r, hws, h, hend⟩
    have hlen : (skipWs s).length ≤ s.length := (ws_skipWs s).length_le
    have hstart : skipWs s = t := hws.skipWs_eq.trans h.skipWs_eq
    have hr : Ends r := hend.ends (by simp [Ends])
    have hparse := h.parse_eq (fun _ => hr) (show 3 * t.length + 1 ≤ 3 * s.length + 1 by
      rw [← hstart]; omega)
    rw [decode, hstart, hparse]
    exact if_pos hend.skipWs_eq

end Json
