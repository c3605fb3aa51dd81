import FlintRTOS.MqttApp
import Mathlib.Data.List.DropRight

/-!
# The commands

`handle_command` accepts exactly its grammar.  Each loop of it stops at an index that
the payload without its outer blanks gives (`strip`), so the array holds the first 47
bytes of that, and the comparisons are comparisons of byte strings: `classify` says
which branch the array leads to.  All commands are shorter than the array, so cutting
the text to it makes no command of anything else.
-/

namespace FlintRTOS.MqttApp

/-- The payload without the blanks at its two ends. -/
def strip (p : List UInt8) : List UInt8 := (p.dropWhile isBlank).rdropWhile isBlank

/-! ### Where the loops stop -/

theorem skipFront_eq (p : List UInt8) (fuel : Nat) : ∀ s, s + fuel = p.length →
    skipFront p p.length fuel s = some (s + ((p.drop s).takeWhile isBlank).length) := by
  induction fuel with
  | zero =>
    intro s hs
    rw [List.drop_eq_nil_of_le (by omega)]
    rfl
  | succ fuel ih =>
    intro s hs
    have hlt : s < p.length := by omega
    rw [List.drop_eq_getElem_cons hlt, skipFront, if_pos hlt, List.getElem?_eq_getElem hlt]
    simp only [Option.bind_eq_bind, Option.bind_some]
    by_cases hblank : isBlank p[s]
    · rw [if_pos hblank, ih _ (by omega), List.takeWhile_cons_of_pos hblank, List.length_cons]
      congr 1
      omega
    · rw [if_neg hblank, List.takeWhile_cons_of_neg hblank]
      rfl

theorem skipBack_eq (p : List UInt8) (s : Nat) : ∀ e, s ≤ e → e ≤ p.length →
    skipBack p s e = some (s + (((p.take e).drop s).rdropWhile isBlank).length) := by
  intro e
  induction e with
  | zero =>
    intro hs _
    simp [skipBack, Nat.le_zero.mp hs]
  | succ e ih =>
    intro hs he
    have hlt : e < p.length := by omega
    rw [skipBack]
    split
    · have hsplit : (p.take (e + 1)).drop s = (p.take e).drop s ++ [p[e]] := by
        rw [← List.take_append_getElem hlt, List.drop_append_of_le_length]
        rw [List.length_take]
        omega
      rw [hsplit, List.rdropWhile_concat, List.getElem?_eq_getElem hlt]
      simp only [Option.bind_eq_bind, Option.bind_some]
      by_cases hblank : isBlank p[e]
      · rw [if_pos hblank, if_pos hblank, ih (by omega) (by omega)]
      · rw [if_neg hblank, if_neg hblank, List.length_append, List.length_drop, List.length_take,
          List.length_singleton]
        congr 1
        omega
    · rw [List.drop_eq_nil_of_le (by rw [List.length_take]; omega)]
      simp only [List.rdropWhile_nil, List.length_nil]
      congr 1
      omega

/-- The bytes at the beginning of an array. -/
def Begins (b : Nat → Option UInt8) (bytes : List UInt8) : Prop :=
  ∀ j, j < bytes.length → b j = bytes[j]?

theorem exists_copyCmd {p : List UInt8} {s : Nat} (fuel : Nat) :
    ∀ (i : Nat) (b : CmdBuf), i + fuel ≤ cmdSize → s + i + fuel ≤ p.length →
      ∃ b', copyCmd p s fuel i b = some b' ∧ (∀ j, j < i → b' j = b j) ∧
        ∀ j, i ≤ j → j < i + fuel → b' j = p[s + j]? := by
  induction fuel with
  | zero =>
    intro i b _ _
    exact ⟨b, rfl, fun _ _ => rfl, fun j hi hj => absurd hj (by omega)⟩
  | succ fuel ih =>
    intro i b hsize hlen
    have hlt : s + i < p.length := by omega
    have hroom : i < cmdSize := by omega
    obtain ⟨b', hcopy, hbefore, hcopied⟩ :=
      ih (i + 1) (Function.update b i (some p[s + i])) (by omega) (by omega)
    refine ⟨b', ?_, ?_, ?_⟩
    · simp only [copyCmd, CmdBuf.write, List.getElem?_eq_getElem hlt, if_pos hroom, hcopy,
        Option.bind_eq_bind, Option.bind_some]
    · intro j hj
      rw [hbefore j (by omega), Function.update_of_ne (by omega)]
    · intro j hi hj
      rcases Nat.eq_or_lt_of_le hi with rfl | hi
      · rw [hbefore i (by omega), Function.update_self, List.getElem?_eq_getElem hlt]
      · exact hcopied j hi (by omega)

theorem findSpace_eq {b : CmdBuf} {bytes : List UInt8} (h : Begins b bytes) (fuel : Nat) :
    ∀ sp, sp + fuel = bytes.length → findSpace b bytes.length fuel sp =
      some (sp + ((bytes.drop sp).takeWhile (· ≠ 32)).length) := by
  induction fuel with
  | zero =>
    intro sp hsp
    rw [List.drop_eq_nil_of_le (by omega)]
    rfl
  | succ fuel ih =>
    intro sp hsp
    have hlt : sp < bytes.length := by omega
    rw [List.drop_eq_getElem_cons hlt, findSpace, if_pos hlt, h sp hlt,
      List.getElem?_eq_getElem hlt]
    simp only [Option.bind_eq_bind, Option.bind_some]
    by_cases hspace : bytes[sp] = 32
    · rw [if_neg (not_not_intro hspace), List.takeWhile_cons_of_neg (by simpa using hspace)]
      rfl
    · rw [if_pos hspace, ih _ (by omega), List.takeWhile_cons_of_pos (by simpa using hspace),
        List.length_cons]
      congr 1
      omega

theorem cmdText_eq {b : CmdBuf} {bytes : List UInt8} (h : Begins b bytes)
    (hnul : b bytes.length = some 0) (fuel : Nat) :
    ∀ i, i ≤ bytes.length → bytes.length < i + fuel →
      cmdText b fuel i = some (JsonWriter.cBytes (bytes.drop i)) := by
  induction fuel with
  | zero => exact fun i hle hlt => absurd hlt (by omega)
  | succ fuel ih =>
    intro i hle hfuel
    rcases Nat.eq_or_lt_of_le hle with rfl | hlt
    · simp [cmdText, hnul, JsonWriter.cBytes]
    · rw [List.drop_eq_getElem_cons hlt, cmdText, h i hlt, List.getElem?_eq_getElem hlt]
      simp only [Option.bind_eq_bind, Option.bind_some]
      by_cases hzero : bytes[i] = 0
      · simp [hzero, JsonWriter.cBytes]
      · rw [if_neg hzero, ih (i + 1) (by omega) (by omega), JsonWriter.cBytes, JsonWriter.cBytes,
          List.takeWhile_cons_of_pos (by simpa using hzero)]
        rfl

/-! ### Comparisons -/

theorem sameFrom_eq {a : Nat → Option UInt8} (b : List UInt8) :
    ∀ (i : Nat) (bytes : List UInt8), (∀ j, j < bytes.length → a (i + j) = bytes[j]?) →
      bytes.length = b.length → sameFrom a i b = some (decide (bytes = b)) := by
  induction b with
  | nil =>
    intro i bytes _ hlen
    rw [List.length_eq_zero_iff.mp hlen]
    rfl
  | cons c b ih =>
    intro i bytes h hlen
    cases bytes with
    | nil => cases hlen
    | cons x bytes =>
      have hfirst : a i = some x := h 0 (Nat.succ_pos _)
      have hrest : sameFrom a (i + 1) b = some (decide (bytes = b)) := by
        refine ih (i + 1) bytes (fun j hj => ?_) (Nat.succ.inj hlen)
        rw [Nat.add_right_comm]
        exact h (j + 1) (Nat.succ_lt_succ hj)
      by_cases hx : x = c
      · simp [sameFrom, hfirst, hx, hrest]
      · simp [sameFrom, hfirst, hx]

theorem wordEq_eq {a : Nat → Option UInt8} {bytes : List UInt8} (h : Begins a bytes)
    (b : List UInt8) : wordEq a bytes.length b = some (decide (bytes = b)) := by
  unfold wordEq
  split
  · rename_i hlen
    rw [decide_eq_false fun heq => hlen (congrArg List.length heq)]
  · rename_i hlen
    exact sameFrom_eq b 0 bytes (fun j hj => by rw [Nat.zero_add, h j hj]) (not_not.mp hlen)

/-! ### Which branch is taken -/

def classifyLed (arg : List UInt8) : LedArg :=
  if arg = ascii "on" then .on
  else if arg = ascii "off" then .off
  else if arg = ascii "toggle" then .toggle
  else .other

/-- The bytes before the first space. -/
def verb (bytes : List UInt8) : List UInt8 := bytes.takeWhile (· ≠ 32)

/-- The branch for a command of these bytes. -/
def classify (bytes : List UInt8) : Command :=
  if bytes = ascii "ping" then .ping
  else if bytes = ascii "uptime" then .uptime
  else if bytes = ascii "stats" then .stats
  else if bytes = ascii "ptp" then .ptp
  else if verb bytes = ascii "led" ∧ (verb bytes).length < bytes.length then
    .led (classifyLed (bytes.drop ((verb bytes).length + 1)))
  else if bytes = ascii "help" then .help
  else .unknown

theorem ledArg_eq {arg : Nat → Option UInt8} {bytes : List UInt8} (h : Begins arg bytes) :
    ledArg arg bytes.length = some (classifyLed bytes) := by
  simp only [ledArg, wordEq_eq h, Option.bind_eq_bind, Option.bind_some, decide_eq_true_eq,
    classifyLed]
  split
  · rfl
  split
  · rfl
  split <;> rfl

theorem begins_of_prefix {b : Nat → Option UInt8} {bytes front : List UInt8} (h : Begins b bytes)
    (hfront : front <+: bytes) : Begins b front := by
  obtain ⟨rest, rfl⟩ := hfront
  intro j hj
  rw [h j (by rw [List.length_append]; omega), List.getElem?_append_left hj]

theorem begins_drop {b : Nat → Option UInt8} {bytes : List UInt8} (h : Begins b bytes) (n : Nat) :
    Begins (fun i => b (n + i)) (bytes.drop n) := by
  intro j hj
  rw [List.length_drop] at hj
  change b (n + j) = (bytes.drop n)[j]?
  rw [h (n + j) (by omega), List.getElem?_drop]

theorem branch_eq {cmd : CmdBuf} {bytes : List UInt8} (h : Begins cmd bytes) :
    branch cmd bytes.length (verb bytes).length = some (classify bytes) := by
  have hled := ledArg_eq (begins_drop h ((verb bytes).length + 1))
  have hverb : Begins cmd (verb bytes) := begins_of_prefix h (List.takeWhile_prefix _)
  rw [List.length_drop, Nat.sub_add_eq] at hled
  simp only [branch, wordEq_eq h, wordEq_eq hverb, hled, Option.bind_eq_bind, Option.bind_some,
    decide_eq_true_eq, classify]
  split
  · rfl
  split
  · rfl
  split
  · rfl
  split
  · rfl
  split
  · rfl
  split <;> rfl

/-! ### The grammar -/

/-- The texts of the commands, each with its branch. -/
def commands : List (List UInt8 × Command) :=
  [(ascii "ping", .ping), (ascii "uptime", .uptime), (ascii "stats", .stats), (ascii "ptp", .ptp),
    (ascii "led on", .led .on), (ascii "led off", .led .off), (ascii "led toggle", .led .toggle),
    (ascii "help", .help)]

/-- The array holds the stripped payload, cut to what leaves room for the NUL. -/
def cmdBytes (p : List UInt8) : List UInt8 := (strip p).take (cmdSize - 1)

theorem drop_takeWhile (p : List UInt8) :
    p.drop (p.takeWhile isBlank).length = p.dropWhile isBlank := by
  have hsplit : p.takeWhile isBlank ++ p.dropWhile isBlank = p := List.takeWhile_append_dropWhile
  calc p.drop (p.takeWhile isBlank).length
      = (p.takeWhile isBlank ++ p.dropWhile isBlank).drop (p.takeWhile isBlank).length := by
        rw [hsplit]
    _ = p.dropWhile isBlank := List.drop_left

theorem getElem?_cmdBytes {p : List UInt8} {j : Nat} (hj : j < (cmdBytes p).length) :
    (cmdBytes p)[j]? = p[(p.takeWhile isBlank).length + j]? := by
  have hprefix : cmdBytes p <+: p.drop (p.takeWhile isBlank).length := by
    rw [drop_takeWhile]
    exact (List.take_prefix _ _).trans (List.rdropWhile_prefix _ _)
  obtain ⟨rest, hrest⟩ := hprefix
  rw [← List.getElem?_drop, ← hrest, List.getElem?_append_left hj]

theorem length_cmdBytes (p : List UInt8) :
    (cmdBytes p).length < cmdSize ∧
      (p.takeWhile isBlank).length + (cmdBytes p).length ≤ p.length := by
  have hsplit := congrArg List.length (List.takeWhile_append_dropWhile (p := isBlank) (l := p))
  have hstrip : (strip p).length ≤ (p.dropWhile isBlank).length :=
    (List.rdropWhile_prefix _ _).length_le
  rw [List.length_append] at hsplit
  rw [cmdBytes, List.length_take]
  unfold cmdSize
  omega

theorem exists_filled (p : List UInt8) :
    ∃ cmd cmd', copyCmd p (p.takeWhile isBlank).length (cmdBytes p).length 0 (fun _ => none) =
        some cmd ∧ CmdBuf.write cmd (cmdBytes p).length 0 = some cmd' ∧
      Begins cmd' (cmdBytes p) ∧ cmd' (cmdBytes p).length = some 0 := by
  obtain ⟨hsize, hlen⟩ := length_cmdBytes p
  obtain ⟨cmd, hcopy, _, hcopied⟩ := exists_copyCmd (p := p) (s := (p.takeWhile isBlank).length)
    (cmdBytes p).length 0 (fun _ => none) (by omega) (by omega)
  refine ⟨cmd, _, hcopy, if_pos hsize, ?_, Function.update_self _ _ _⟩
  intro j hj
  rw [Function.update_of_ne (by omega), hcopied j (Nat.zero_le j) (by omega), getElem?_cmdBytes hj]

/-- Every access of the first half is in its array, and the branch is that of the
    stripped payload, cut to the array. -/
theorem parseCommand_eq (p : List UInt8) :
    parseCommand p = some (JsonWriter.cBytes (cmdBytes p), classify (cmdBytes p)) := by
  have hfront := skipFront_eq p p.length 0 (Nat.zero_add _)
  have hback := skipBack_eq p (p.takeWhile isBlank).length p.length
    (List.takeWhile_prefix _).length_le (Nat.le_refl _)
  rw [List.drop_zero, Nat.zero_add] at hfront
  rw [List.take_length, drop_takeWhile] at hback
  change _ = some ((p.takeWhile isBlank).length + (strip p).length) at hback
  have hn : (if (p.takeWhile isBlank).length + (strip p).length - (p.takeWhile isBlank).length <
        cmdSize - 1 then
      (p.takeWhile isBlank).length + (strip p).length - (p.takeWhile isBlank).length
      else cmdSize - 1) = (cmdBytes p).length := by
    rw [cmdBytes, List.length_take]
    split <;> omega
  obtain ⟨cmd, cmd', hcopy, hwrite, hbegins, hnul⟩ := exists_filled p
  have hspace := findSpace_eq hbegins (cmdBytes p).length 0 (Nat.zero_add _)
  have htext := cmdText_eq hbegins hnul cmdSize 0 (Nat.zero_le _)
    (by rw [Nat.zero_add]; exact (length_cmdBytes p).1)
  rw [List.drop_zero, Nat.zero_add] at hspace
  rw [List.drop_zero] at htext
  have hbranch := branch_eq hbegins
  simp only [parseCommand, hfront, hback, hn, hcopy, hwrite, hspace, htext, Option.bind_eq_bind,
    Option.bind_some]
  change (branch cmd' (cmdBytes p).length (verb (cmdBytes p)).length).bind _ = _
  rw [hbranch]
  rfl

/-- The calls of the LED hook in a branch. -/
def ledCalls : Command → List Effect
  | .led .on => [.led 1]
  | .led .off => [.led 0]
  | .led .toggle => [.led (-1)]
  | _ => []

theorem runCommand_effects (plat : Platform) (cmd : List UInt8) (g : FlintMqtt) (c : Command) :
    (runCommand plat cmd g c).2 = ledCalls c := by
  cases c with
  | led arg => cases arg <;> rfl
  | ping => rfl
  | uptime => rfl
  | stats => rfl
  | ptp => rfl
  | help => rfl
  | unknown => rfl

theorem ledCalls_iff (c : Command) :
    (ledCalls c = [.led 1] ↔ c = .led .on) ∧ (ledCalls c = [.led 0] ↔ c = .led .off) ∧
      (ledCalls c = [.led (-1)] ↔ c = .led .toggle) ∧
      (ledCalls c = [] ∨ ledCalls c = [.led 1] ∨ ledCalls c = [.led 0] ∨
        ledCalls c = [.led (-1)]) := by
  cases c with
  | led arg => cases arg <;> decide
  | ping => decide
  | uptime => decide
  | stats => decide
  | ptp => decide
  | help => decide
  | unknown => decide

theorem runCommand_st (plat : Platform) (cmd : List UInt8) (g : FlintMqtt) (st : FlintMqttStats)
    (c : Command) : runCommand plat cmd { g with st := st } c = runCommand plat cmd g c := by
  cases c <;> simp only [runCommand]

theorem handleCommand_eq (plat : Platform) (p : List UInt8) (g : FlintMqtt) :
    handleCommand plat p g =
      some ({ g with
          st.commands := g.st.commands + 1
          reply := (runCommand plat (JsonWriter.cBytes (cmdBytes p)) g (classify (cmdBytes p))).1
          replyPending := true },
        (runCommand plat (JsonWriter.cBytes (cmdBytes p)) g (classify (cmdBytes p))).2) := by
  simp only [handleCommand, parseCommand_eq, Option.bind_eq_bind, Option.bind_some, runCommand_st]
  rfl

/-- Blanks at the ends do not matter; a second space and another case do. -/
example :
    (parseCommand (ascii " \tled on\r\n")).map Prod.snd = some (.led .on) ∧
      (parseCommand (ascii "led  on")).map Prod.snd = some (.led .other) ∧
      (parseCommand (ascii "Ping")).map Prod.snd = some .unknown := by
  decide +kernel

end FlintRTOS.MqttApp
