import Mathlib.Data.List.TakeWhile
import KernelModules.Ioctl.IoctlApp

/-!
# Many runs of the test program

Any number of runs of `ioctl_app.c` share the device; their ioctls interleave in any way.

- `ioctl_app_exit`: a run never crashes, whatever the others do, and exits with 0 exactly if its arguments are complete;
- `ioctl_app_passes`: what one run sets another one prints, as long as no run has set it or reset the device in between.
-/

namespace KernelModules.Ioctl

open Lib

universe u

/-! ## Many runs of the program -/

/-- A run of the program: the library's texts, its stack, its arguments, and the error of `open`. -/
structure Start where
  strerror : Int → List UInt8
  locals : Locals
  argv : List (List UInt8)
  openError : Option Int

def Start.prog (r : Start) : App := main r.strerror r.locals r.argv r.openError

/-- The programs of the four commands that set or get a register. -/
theorem prog_setValue {r : Start} {name arg : List UInt8} (hopen : r.openError = none)
    (hargv : r.argv = [name, ascii "set_value", arg]) :
    r.prog = .print openedText (setValue r.strerror 3 arg) := by
  simp +decide [Start.prog, main, hopen, hargv]

theorem prog_getValue {r : Start} {name : List UInt8} (hopen : r.openError = none)
    (hargv : r.argv = [name, ascii "get_value"]) : r.prog = .print openedText (getValue r.strerror r.locals) := by
  simp +decide [Start.prog, main, hopen, hargv]

theorem prog_setString {r : Start} {name arg : List UInt8} (hopen : r.openError = none)
    (hargv : r.argv = [name, ascii "set_string", arg]) :
    r.prog = .print openedText (setString r.strerror r.locals 3 arg) := by
  simp +decide [Start.prog, main, hopen, hargv]

theorem prog_getString {r : Start} {name : List UInt8} (hopen : r.openError = none)
    (hargv : r.argv = [name, ascii "get_string"]) : r.prog = .print openedText (getString r.strerror r.locals) := by
  simp +decide [Start.prog, main, hopen, hargv]

/-- Any number of runs over the device as it was loaded. -/
def ioctlApps {P : Type u} [DecidableEq P] (start : P → Start) : System (Threads P IoctlDevice App)
    (P × ClientAct Request Answer) := clients (· = ioctlDemoInit) DeviceReply fun p => (start p).prog

section Runs

variable {P : Type u} [DecidableEq P] {start : P → Start} {tr : List (P × ClientAct Request Answer)}
  {t : Threads P IoctlDevice App}

omit [DecidableEq P] in
theorem start_safe (start : P → Start) (p : P) :
    (start p).prog.Safe Allowed Possible (ExitCode (start p).argv (start p).openError) := safe_main _ _ _

theorem apps_safe (h : (ioctlApps start).Run tr t) : Follows (exchanges tr) t.shared ∧
    ∀ p, (t.pc p).Safe Allowed Possible (ExitCode (start p).argv (start p).openError) :=
  run_safe device_promises (start_safe start) h

/-- The answer to a call comes from the registers as the calls before have left them. -/
theorem apps_answer {tr' : List (P × ClientAct Request Answer)} {p : P} {q : Request} {a : Answer}
    (h : (ioctlApps start).Run (tr ++ (p, .call q a) :: tr') t) :
    (requested (exchanges tr)).Good ∧ a = answer (requested (exchanges tr)) q := by
  obtain ⟨d, d', hd, hq, hreply⟩ := run_call device_promises (start_safe start) h
  exact ⟨hd.2, (hreply.spec hd.1 hd.2 hq).1⟩

/-- A run of the program that is at a line or at a call can go on. -/
theorem apps_print (h : (ioctlApps start).Run tr t) {p : P} {line : List UInt8} {next : App}
    (hp : t.pc p = .print line next) :
    (ioctlApps start).Run (tr ++ [(p, .print line)]) ⟨t.shared, Function.update t.pc p next⟩ := by
  refine h.snoc ⟨_, _, ?_, rfl⟩
  rw [hp]
  exact .print

theorem apps_call (h : (ioctlApps start).Run tr t) {p : P} {q : Request} {next : Answer → App}
    (hp : t.pc p = .call q next) :
    ∃ d, (ioctlApps start).Run (tr ++ [(p, .call q (answer (requested (exchanges tr)) q))])
      ⟨d, Function.update t.pc p (next (answer (requested (exchanges tr)) q))⟩ := by
  obtain ⟨hd, hsafe⟩ := apps_safe h
  have hq := hsafe p
  rw [hp] at hq
  obtain ⟨a, d', hreply⟩ := DeviceReply.exists hd.1 q (Nat.lt_of_le_of_lt hq.1.length_le (by decide))
  obtain ⟨rfl, -⟩ := hreply.spec hd.1 hd.2 hq.1
  refine ⟨d', h.snoc ⟨_, _, ?_, rfl⟩⟩
  rw [hp]
  exact .call hreply

end Runs

/-- **Runs of the program never crash.** Whatever runs of the program there are, with whatever arguments, and however
their ioctls interleave: no run is answered with more than its buffer takes or prints a buffer without a NUL, each of
them can go on until it exits, and it exits with 0 exactly if it could open the device and its arguments are complete,
else with 1. -/
theorem ioctl_app_exit {P : Type u} [DecidableEq P] (start : P → Start) (tr : List (P × ClientAct Request Answer))
    (t : Threads P IoctlDevice App) (h : (ioctlApps start).Run tr t) (p : P) :
    (∃ ret, t.pc p = .exit ret ∧ (ret = 0 ∨ ret = 1) ∧
      (ret = 0 ↔ (start p).openError = none ∧ Complete (start p).argv)) ∨
    ∃ e t', (ioctlApps start).Run (tr ++ [(p, e)]) t' := by
  have hp := (apps_safe h).2 p
  cases hpc : t.pc p with
  | exit ret =>
    rw [hpc] at hp
    exact .inl ⟨ret, rfl, hp⟩
  | crash =>
    rw [hpc] at hp
    exact hp.elim
  | print line next => exact .inr ⟨_, _, apps_print h hpc⟩
  | call q next =>
    obtain ⟨d, hrun⟩ := apps_call h hpc
    exact .inr ⟨_, _, hrun⟩

/-- A stack of zeros. -/
def zeroLocals : Locals where
  value := List.replicate 4 0
  string := List.replicate maxStringSize 0
  testString := List.replicate maxStringSize 0
  resetValue := List.replicate 4 0
  resetString := List.replicate maxStringSize 0
  length_value := List.length_replicate
  length_string := List.length_replicate
  length_testString := List.length_replicate
  length_resetValue := List.length_replicate
  length_resetString := List.length_replicate

/-- A run that sets the value to 7, and one that gets it. -/
def setAndGet (setter : Bool) : Start :=
  ⟨fun _ => [], zeroLocals,
    if setter then [[], ascii "set_value", ascii (toString (7 : Int32))] else [[], ascii "get_value"], none⟩

theorem setAndGet_loaded : (ioctlApps setAndGet).Run [] ⟨ioctlDemoInit, fun p => (setAndGet p).prog⟩ :=
  ⟨_, ⟨rfl, fun _ => rfl⟩, .nil _⟩

/-- The value is set, gotten and printed; the run that set it has a line to print. -/
theorem setAndGet_run : ∃ r₁ a₁ r₂ a₂ line t,
    (ioctlApps setAndGet).Run ([(true, .print openedText)] ++ (true, .call r₁ a₁) ::
      ([(false, .print openedText)] ++ (false, .call r₂ a₂) :: [(false, .print line)])) t ∧
    t.pc false = .exit 0 ∧ ∃ line' next, t.pc true = .print line' next := by
  have hset := prog_setValue (r := setAndGet true) rfl rfl
  rw [setValue, if_neg (by simp), command, ioctl] at hset
  have hget := prog_getValue (r := setAndGet false) rfl rfl
  rw [getValue, command, ioctl] at hget
  have h₀ := apps_print (p := true) setAndGet_loaded hset
  obtain ⟨d₁, h₁⟩ := apps_call (p := true) h₀ rfl
  have h₂ := apps_print (p := false) h₁ hget
  obtain ⟨d₃, h₃⟩ := apps_call (p := false) h₂ rfl
  exact ⟨_, _, _, _, _, _, apps_print (p := false) h₃ rfl, rfl, _, _, rfl⟩

/-- The run that set the value can go on, behind the one that got it. -/
theorem ioctl_app_exit_setAndGet : ∃ tr t e t', (ioctlApps setAndGet).Run tr t ∧ (exchanges tr).length = 2 ∧
    (ioctlApps setAndGet).Run (tr ++ [(true, e)]) t' := by
  obtain ⟨r₁, a₁, r₂, a₂, line, t, hrun, -, line', next, hpc⟩ := setAndGet_run
  rcases ioctl_app_exit setAndGet _ _ hrun true with ⟨ret, hret, -⟩ | ⟨e, t', hrun'⟩
  · cases hpc.symm.trans hret
  · exact ⟨_, t, e, t', hrun, rfl, hrun'⟩

/-! ## From one run to the next -/

/-- The four bytes of an `int` are read back. -/
theorem intText_bytesOfInt (v : Int32) : intText (bytesOfInt v) = ascii (toString v) := by
  have h : intOfBytes (fun i => (bytesOfInt v).getD i 0) = v := by
    have hlt := v.toUInt32.toNat_lt
    have hword : UInt32.ofNat (v.toUInt32.toNat % 256 + 256 * (v.toUInt32.toNat / 256 % 256) +
        65536 * (v.toUInt32.toNat / 65536 % 256) + 16777216 * (v.toUInt32.toNat / 16777216 % 256)) = v.toUInt32 := by
      apply UInt32.toNat_inj.mp
      rw [UInt32.toNat_ofNat']
      omega
    simp only [intOfBytes, bytesOfInt, List.getD_cons_zero, List.getD_cons_succ, UInt8.toNat_ofNat']
    exact (congrArg UInt32.toInt32 hword).trans (Int32.toInt32_toUInt32 v)
  rw [intText, h]

theorem parse_decimal (n : Nat) : parseInteger ((decimal n).takeWhile isDigit) = n := by
  rw [List.takeWhile_eq_self_iff.mpr fun b hb => isDigit_of_mem_decimal hb, parseInteger_decimal]

/-- A digit is neither a blank nor a sign. -/
theorem digit_plain {b : UInt8} (h : isDigit b = true) : isBlank b = false ∧ b ≠ 45 ∧ b ≠ 43 := by
  refine ⟨Bool.eq_false_iff.mpr fun hblank => ?_, ?_, ?_⟩
  · have h48 : (48 : UInt8).toNat = 48 := rfl
    have h13 : (13 : UInt8).toNat = 13 := rfl
    simp only [isDigit, isBlank, Bool.and_eq_true, Bool.or_eq_true, decide_eq_true_eq,
      UInt8.le_iff_toNat_le] at h hblank
    rcases hblank with ⟨-, hle⟩ | rfl
    · omega
    · exact absurd h.1 (by decide)
  · rintro rfl
    exact absurd h (by decide)
  · rintro rfl
    exact absurd h (by decide)

/-- `atoi` reads an `int` back from its text. -/
theorem atoi_toString (v : Int32) : atoi (ascii (toString v)) = v := by
  have hlow := Int32.le_toInt v
  have hhigh := Int32.toInt_lt v
  have htext : toString v = toString v.toInt := rfl
  rw [htext, ascii_toString_int]
  split
  · have hdrop : (45 :: decimal v.toInt.natAbs).dropWhile isBlank = 45 :: decimal v.toInt.natAbs := by
      rw [List.dropWhile_cons_of_neg (by decide)]
    rw [atoi, hdrop]
    simp only [parse_decimal]
    rw [max_eq_right (by omega), show -(v.toInt.natAbs : Int) = v.toInt by omega, Int32.ofInt_toInt]
  · obtain ⟨b, bs, hb⟩ := List.exists_cons_of_ne_nil (decimal_ne_nil v.toInt.natAbs)
    obtain ⟨hblank, hminus, hplus⟩ := digit_plain (isDigit_of_mem_decimal (by rw [hb]; exact List.mem_cons_self))
    have hdrop : (decimal v.toInt.natAbs).dropWhile isBlank = b :: bs := by
      rw [hb, List.dropWhile_cons_of_neg (by simp [hblank])]
    unfold atoi
    rw [hdrop]
    split
    · next heq => exact absurd (List.cons.inj heq).1 hminus
    · next heq => exact absurd (List.cons.inj heq).1 hplus
    · rw [← hb, parse_decimal, min_eq_right (by omega), show (v.toInt.natAbs : Int) = v.toInt by omega,
        Int32.ofInt_toInt]

section Passes

variable {h h' : List (Request × Answer)} {q : Request} {a : Answer}

/-- What the later requests keep is as a request has left it. -/
theorem requested_last {β : Type} {f : Registers → β} (hkeep : ∀ e ∈ h', ∀ r : Registers, f (r.apply e.1) = f r) :
    f (requested (h ++ (q, a) :: h')) = f ((requested h).apply q) := by
  have hfold : ∀ (h' : List (Request × Answer)) (r : Registers), (∀ e ∈ h', ∀ r : Registers, f (r.apply e.1) = f r) →
      f (h'.foldl (fun r e => r.apply e.1) r) = f r := by
    intro h'
    induction h' with
    | nil => exact fun _ _ => rfl
    | cons e h' ih =>
      intro r hkeep
      rw [List.foldl_cons, ih _ fun e he => hkeep e (List.mem_cons_of_mem _ he), hkeep e List.mem_cons_self]
  simpa [requested] using hfold h' _ hkeep

/-- The text is the one set last, unless the device was reset. -/
theorem requested_text (hq : q.cmd = ioctlSetString)
    (hlast : ∀ e ∈ h', e.1.cmd ≠ ioctlSetString ∧ e.1.cmd ≠ ioctlReset) :
    (requested (h ++ (q, a) :: h')).text = cstr (q.buf.take (maxStringSize - 1)) := by
  rw [requested_last (f := Registers.text) fun e he r => ?_, Registers.apply, if_neg (by rw [hq]; decide), if_pos hq]
  obtain ⟨hset, hreset⟩ := hlast e he
  rw [Registers.apply, if_neg hset, if_neg hreset]
  split <;> rfl

/-- So is the value. -/
theorem requested_value (hq : q.cmd = ioctlSetValue)
    (hlast : ∀ e ∈ h', e.1.cmd ≠ ioctlSetValue ∧ e.1.cmd ≠ ioctlReset) :
    (requested (h ++ (q, a) :: h')).value = q.buf := by
  rw [requested_last (f := Registers.value) fun e he r => ?_, Registers.apply, if_pos hq]
  obtain ⟨hset, hreset⟩ := hlast e he
  rw [Registers.apply, if_neg hset, if_neg hreset]
  split <;> rfl

end Passes

section Lines

variable {line : List UInt8} {q : Request} {n : Answer → App} {es : List (ClientAct Request Answer)} {c : App}

/-- A program that prints a line, makes one call, prints another line and exits. -/
theorem only_call (h : (Client.print line (.call q n) : App).Trace es c)
    (hn : ∀ b, .call q b ∈ es → ∃ l, n b = .print l (.exit 0)) {q' : Request} {a : Answer} (hmem : .call q' a ∈ es) :
    q' = q ∧ ∃ l, n a = .print l (.exit 0) ∧ ∀ ret, c = .exit ret → printed es = [line, l] := by
  cases h with
  | nil => cases hmem
  | print h =>
    cases h with
    | nil => simp at hmem
    | @call _ b _ _ rest h =>
      obtain ⟨l, hl⟩ := hn b (by simp)
      rw [hl] at h
      cases h with
      | nil =>
        simp only [List.mem_cons, reduceCtorEq, ClientAct.call.injEq, List.not_mem_nil, or_false, false_or] at hmem
        obtain ⟨rfl, rfl⟩ := hmem
        exact ⟨rfl, l, hl, fun ret hc => by cases hc⟩
      | print h =>
        cases h with
        | nil =>
          simp only [List.mem_cons, reduceCtorEq, ClientAct.call.injEq, List.not_mem_nil, or_false, false_or] at hmem
          obtain ⟨rfl, rfl⟩ := hmem
          exact ⟨rfl, l, hl, fun _ _ => rfl⟩

end Lines

section Pair

variable {P : Type u} [DecidableEq P] {start : P → Start} {tr : List (P × ClientAct Request Answer)}
  {t : Threads P IoctlDevice App} {p : P}

/-- A run whose program is one command makes one request, and if it has exited it has printed the line for the answer.
-/
theorem command_call {strerror : Int → List UInt8} {cmd : UInt32} {buf : List UInt8} {failed : String}
    {done : List UInt8 → App → App} (hprog : (start p).prog = .print openedText (command strerror cmd buf failed done))
    (hdone : ∀ r : Registers, r.Good → ∀ buf', answer r ⟨cmd, buf⟩ = (0, some buf') →
      ∃ l, done buf' (.exit 0) = .print l (.exit 0))
    {tr₁ tr₂ : List (P × ClientAct Request Answer)} {q : Request} {a : Answer}
    (h : (ioctlApps start).Run (tr₁ ++ (p, .call q a) :: tr₂) t) :
    q = ⟨cmd, buf⟩ ∧ ∀ ret, t.pc p = .exit ret →
      ∀ buf' l, answer (requested (exchanges tr₁)) ⟨cmd, buf⟩ = (0, some buf') →
      done buf' (.exit 0) = .print l (.exit 0) →
      printed (System.labelsOf p (tr₁ ++ (p, .call q a) :: tr₂)) = [openedText, l] := by
  have htrace := run_trace h p
  rw [hprog] at htrace
  have hmem : .call q a ∈ System.labelsOf p (tr₁ ++ (p, .call q a) :: tr₂) := System.mem_labelsOf.mpr (by simp)
  have hnext : ∀ b, .call ⟨cmd, buf⟩ b ∈ System.labelsOf p (tr₁ ++ (p, .call q a) :: tr₂) →
      ∃ buf', b = (0, some buf') ∧ ∃ l, done buf' (.exit 0) = .print l (.exit 0) := by
    intro b hb
    obtain ⟨u, v, huv⟩ := List.append_of_mem (System.mem_labelsOf.mp hb)
    rw [huv] at h
    obtain ⟨hgood, rfl⟩ := apps_answer h
    exact ⟨_, rfl, hdone _ hgood _ rfl⟩
  obtain ⟨rfl, l, hl, hlines⟩ := only_call htrace (fun b hb => by
    obtain ⟨buf', rfl, l, hl⟩ := hnext b hb
    exact ⟨l, hl⟩) hmem
  refine ⟨rfl, fun ret hret buf' l' hbuf' hl' => ?_⟩
  rw [hlines ret hret]
  obtain ⟨-, rfl⟩ := apps_answer h
  rw [hbuf'] at hl
  cases hl.symm.trans hl'
  rfl

end Pair

theorem printString_eq {buf : List UInt8} (h : 0 ∈ buf) {line : List UInt8 → List UInt8} {next : App} :
    ∃ l, printString buf line next = .print l next := ⟨_, if_pos h⟩

/-- The line for the answer to `GET_STRING`. -/
theorem printString_text {text : List UInt8} (h : 0 ∉ text) (buf : List UInt8) (line : List UInt8 → List UInt8)
    (next : App) :
    printString (overlay buf (text ++ [0])) line next = .print (line text) next := by
  rw [printString, if_pos (by simp [overlay]), overlay, List.append_assoc, List.singleton_append, cstr_terminated _ h]

/-- None of the labels is a call with one of the words. -/
def NoCall {P : Type u} (words : List UInt32) (tr : List (P × ClientAct Request Answer)) : Prop :=
  ∀ p q a, (p, .call q a) ∈ tr → q.cmd ∉ words

theorem NoCall.exchanges {P : Type u} {words : List UInt32} {tr : List (P × ClientAct Request Answer)}
    (h : NoCall words tr) : ∀ e ∈ exchanges tr, e.1.cmd ∉ words := by
  rintro ⟨q, a⟩ he
  obtain ⟨⟨p, e⟩, hmem, he⟩ := List.mem_filterMap.mp he
  cases e with
  | print => cases he
  | call q' a' =>
    cases he
    exact h p q a hmem

/-- **What one run sets, another one prints.** If the ioctl of a `set_string` run comes before that of a `get_string`
run, with no ioctl in between that sets the string or resets the device, then the second run, once it has exited, has
printed the text of the first, cut to 255 characters; and in the same way the value. -/
theorem ioctl_app_passes {P : Type u} [DecidableEq P] (start : P → Start)
    (tr₁ tr₂ tr₃ : List (P × ClientAct Request Answer))
    (t : Threads P IoctlDevice App) (p q : P) (r₁ r₂ : Request) (a₁ a₂ : Answer)
    (h : (ioctlApps start).Run (tr₁ ++ (q, .call r₁ a₁) :: (tr₂ ++ (p, .call r₂ a₂) :: tr₃)) t)
    (hq : (start q).openError = none) (hp : (start p).openError = none) (ret : Int) (hret : t.pc p = .exit ret) :
    (∀ name name' text, (start q).argv = [name, ascii "set_string", text] →
      (start p).argv = [name', ascii "get_string"] → 0 ∉ text → NoCall [ioctlSetString, ioctlReset] tr₂ →
      printed (System.labelsOf p (tr₁ ++ (q, .call r₁ a₁) :: (tr₂ ++ (p, .call r₂ a₂) :: tr₃))) =
        [openedText, ascii "Current string: '" ++ text.take 255 ++ ascii "'\n"]) ∧
    ∀ name name' v, (start q).argv = [name, ascii "set_value", ascii (toString (v : Int32))] →
      (start p).argv = [name', ascii "get_value"] → NoCall [ioctlSetValue, ioctlReset] tr₂ →
      printed (System.labelsOf p (tr₁ ++ (q, .call r₁ a₁) :: (tr₂ ++ (p, .call r₂ a₂) :: tr₃))) =
        [openedText, ascii "Current value: " ++ ascii (toString v) ++ ascii "\n"] := by
  have hsplit : tr₁ ++ (q, .call r₁ a₁) :: (tr₂ ++ (p, .call r₂ a₂) :: tr₃) =
      (tr₁ ++ (q, .call r₁ a₁) :: tr₂) ++ (p, .call r₂ a₂) :: tr₃ := by simp
  have hexch : exchanges (tr₁ ++ (q, .call r₁ a₁) :: tr₂) = exchanges tr₁ ++ (r₁, a₁) :: exchanges tr₂ := by
    rw [exchanges_append]
    rfl
  refine ⟨fun name name' text hset hget htext hno => ?_, fun name name' v hset hget hno => ?_⟩
  · have hprog := prog_setString hq hset
    rw [setString, if_neg (by simp), setString_buffer] at hprog
    obtain ⟨rfl, -⟩ := command_call hprog (fun r hr buf' hbuf' => by
      cases Option.some.inj (Prod.mk.inj hbuf').2
      exact printString_eq (zero_mem_paddedField _ _)) h
    rw [hsplit] at h ⊢
    obtain ⟨-, hlines⟩ := command_call (prog_getString hp hget) (fun r hr buf' hbuf' =>
      printString_eq (zero_mem_answer hbuf')) h
    have htake : cstr ((paddedField (maxStringSize - 1) text).take (maxStringSize - 1)) = text.take 255 := by
      rw [cstr_take, cstr_paddedField, cstr_of_notMem htext, List.take_take]
      rfl
    refine hlines ret hret _ _ rfl ?_
    rw [if_neg (by simp +decide), if_pos rfl, hexch, requested_text rfl fun e he => by simpa using hno.exchanges e he,
      htake]
    exact printString_text (fun hmem => htext (List.mem_of_mem_take hmem)) _ _ _
  · have hprog := prog_setValue hq hset
    rw [setValue, if_neg (by simp), atoi_toString] at hprog
    obtain ⟨rfl, -⟩ := command_call hprog (fun r hr buf' hbuf' => ⟨_, rfl⟩) h
    rw [hsplit] at h ⊢
    obtain ⟨-, hlines⟩ := command_call (prog_getValue hp hget) (fun r hr buf' hbuf' => ⟨_, rfl⟩) h
    rw [← intText_bytesOfInt]
    refine hlines ret hret _ _ ?_ rfl
    rw [hexch, answer, if_pos rfl, requested_value rfl fun e he => by simpa using hno.exchanges e he]

theorem ioctl_app_passes_value : ∃ tr t, (ioctlApps setAndGet).Run tr t ∧
    printed (System.labelsOf false tr) =
      [openedText, ascii "Current value: " ++ ascii (toString (7 : Int32)) ++ ascii "\n"] := by
  obtain ⟨r₁, a₁, r₂, a₂, line, t, hrun, hexit, -⟩ := setAndGet_run
  refine ⟨_, t, hrun, ?_⟩
  exact (ioctl_app_passes setAndGet _ _ _ _ false true _ _ _ _ hrun rfl rfl 0 hexit).2 [] [] 7 rfl rfl
    (by simp [NoCall])

end KernelModules.Ioctl
