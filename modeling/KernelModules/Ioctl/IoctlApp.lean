import KernelModules.Ioctl.Registers
import KernelModules.Lib.Clients

/-!
# The test program of the ioctl device (`ioctl_app.c`)

The program opens the device, runs one command and exits. Its buffers are an `int` and 256 bytes on its stack, which
hold anything at first; what an ioctl delivers is written over them, and a string is printed up to its NUL. It would
crash if more were delivered than the buffer takes, or if there were no NUL.

- `DeviceReply.spec`: what the device answers to the requests of the program, in terms of the registers;
- `safe_main`: whatever the registers hold at each of its requests, the program does not crash, and its exit code tells
  whether its arguments are complete.
-/

namespace KernelModules.Ioctl

open Lib

/-! ## The device behind `ioctl` -/

/-- A command word and the buffer that the argument points to. -/
structure Request where
  cmd : UInt32
  buf : List UInt8

/-- The result, and the buffer after the call; `none` if more was delivered than it takes. -/
abbrev Answer := Int × Option (List UInt8)

/-- The call reaches the driver with the buffer in user memory, anything behind it and on the driver's stack; the buffer
is mapped. -/
inductive DeviceReply : IoctlDevice → Request → Answer → IoctlDevice → Prop
  | call {d d' : IoctlDevice} {c : Call} {buf : List UInt8} {out : Outcome} : slice c.src 0 buf.length = buf →
      (∀ a n, c.accessOk a n = true) → c.fault = false → ioctlDemoIoctl d c = some (d', out) →
      DeviceReply d ⟨c.cmd, buf⟩
        (out.ret, if out.delivered.length ≤ buf.length then some (overlay buf out.delivered) else none) d'

/-! ## The program -/

abbrev App := Client Request Answer

/-- `ioctl(fd, cmd, buf)`. -/
def ioctl (cmd : UInt32) (buf : List UInt8) (next : Int → List UInt8 → App) : App :=
  .call ⟨cmd, buf⟩ fun a =>
    match a.2 with
    | some buf => next a.1 buf
    | none => .crash

/-- `printf` with a `%s` of a buffer. -/
def printString (buf : List UInt8) (line : List UInt8 → List UInt8) (next : App) : App :=
  if 0 ∈ buf then .print (line (cstr buf)) next else .crash

/-- `%d` of the `int` in four bytes. -/
def intText (buf : List UInt8) : List UInt8 := ascii (toString (intOfBytes fun i => buf.getD i 0))

/-- `isspace` of the C library. -/
def isBlank (c : UInt8) : Bool := (9 ≤ c && c ≤ 13) || c = 32

/-- `atoi`: blanks, a sign, digits; a number that is no `long` is the nearest one, and an `int` is made of it. -/
def atoi (s : List UInt8) : Int32 :=
  match s.dropWhile isBlank with
  | 45 :: s => Int32.ofInt (max (-2 ^ 63) (-parseInteger (s.takeWhile isDigit)))
  | 43 :: s => Int32.ofInt (min (2 ^ 63 - 1) (parseInteger (s.takeWhile isDigit)))
  | s => Int32.ofInt (min (2 ^ 63 - 1) (parseInteger (s.takeWhile isDigit)))

/-- What is on the stack: `value` and `string` of `main`, `string` of `test_string_operations`, `value` and `string` of
`test_reset_operation`. -/
structure Locals where
  value : List UInt8
  string : List UInt8
  testString : List UInt8
  resetValue : List UInt8
  resetString : List UInt8
  length_value : value.length = 4
  length_string : string.length = maxStringSize
  length_testString : testString.length = maxStringSize
  length_resetValue : resetValue.length = 4
  length_resetString : resetString.length = maxStringSize

section Program

-- the texts of the errors
variable (strerror : Int → List UInt8)

def printAll (lines : List (List UInt8)) (next : App) : App := lines.foldr .print next

def printUsage (programName : List UInt8) (next : App) : App :=
  printAll [ascii "Usage: " ++ programName ++ ascii " <command> [value]\n", ascii "Commands:\n",
    ascii "  set_value <number>   - Set integer value\n", ascii "  get_value           - Get integer value\n",
    ascii "  set_string <text>   - Set string value\n", ascii "  get_string          - Get string value\n",
    ascii "  reset               - Reset to defaults\n", ascii "  test_all            - Run all tests\n"] next

def testValueOperations (next : Int → App) : App :=
  .print (ascii "\n=== Testing Value Operations ===\n") <|
  .print (ascii "Setting value to 12345...\n") <|
  ioctl ioctlSetValue (bytesOfInt 12345) fun ret _ =>
  if ret < 0 then .print (perror strerror "Failed to set value" ret) (next (-1)) else
  .print (ascii "Getting value...\n") <|
  ioctl ioctlGetValue (bytesOfInt 0) fun ret value =>
  if ret < 0 then .print (perror strerror "Failed to get value" ret) (next (-1)) else
  .print (ascii "Retrieved value: " ++ intText value ++ ascii "\n") <|
  next 0

def testStringOperations (l : Locals) (next : Int → App) : App :=
  .print (ascii "\n=== Testing String Operations ===\n") <|
  let string := strcpy l.testString (ascii "Hello from user space!")
  printString string (fun s => ascii "Setting string to '" ++ s ++ ascii "'...\n") <|
  ioctl ioctlSetString string fun ret string =>
  if ret < 0 then .print (perror strerror "Failed to set string" ret) (next (-1)) else
  .print (ascii "Getting string...\n") <|
  ioctl ioctlGetString (List.replicate string.length 0) fun ret string =>
  if ret < 0 then .print (perror strerror "Failed to get string" ret) (next (-1)) else
  printString string (fun s => ascii "Retrieved string: '" ++ s ++ ascii "'\n") <|
  next 0

def testResetOperation (l : Locals) (next : Int → App) : App :=
  .print (ascii "\n=== Testing Reset Operation ===\n") <|
  .print (ascii "Resetting device...\n") <|
  ioctl ioctlReset [] fun ret _ =>
  if ret < 0 then .print (perror strerror "Failed to reset device" ret) (next (-1)) else
  ioctl ioctlGetValue l.resetValue fun ret value =>
  if ret < 0 then .print (perror strerror "Failed to get value after reset" ret) (next (-1)) else
  ioctl ioctlGetString l.resetString fun ret string =>
  if ret < 0 then .print (perror strerror "Failed to get string after reset" ret) (next (-1)) else
  printString string (fun s => ascii "After reset - Value: " ++ intText value ++ ascii ", String: '" ++ s ++
  ascii "'\n") <|
  next 0

/-- An ioctl of `main`, the line if it fails, and what is printed if it does not. -/
def command (cmd : UInt32) (buf : List UInt8) (failed : String) (done : List UInt8 → App → App) : App :=
  ioctl cmd buf fun ret buf =>
  if ret < 0 then .print (perror strerror failed ret) (.exit 1) else done buf (.exit ret)

def setValue (argc : Nat) (arg : List UInt8) : App :=
  if argc ≠ 3 then .print (ascii "Error: set_value requires a number\n") (.exit 1) else
  command strerror ioctlSetValue (bytesOfInt (atoi arg)) "IOCTL_SET_VALUE failed" fun value =>
    .print (ascii "Value set to " ++ intText value ++ ascii "\n")

def getValue (l : Locals) : App :=
  command strerror ioctlGetValue l.value "IOCTL_GET_VALUE failed" fun value =>
    .print (ascii "Current value: " ++ intText value ++ ascii "\n")

def setString (l : Locals) (argc : Nat) (arg : List UInt8) : App :=
  if argc ≠ 3 then .print (ascii "Error: set_string requires a string\n") (.exit 1) else
  command strerror ioctlSetString ((strncpy l.string arg (maxStringSize - 1)).set (maxStringSize - 1) 0)
    "IOCTL_SET_STRING failed" fun string => printString string fun s => ascii "String set to '" ++ s ++ ascii "'\n"

def getString (l : Locals) : App :=
  command strerror ioctlGetString l.string "IOCTL_GET_STRING failed" fun string =>
    printString string fun s => ascii "Current string: '" ++ s ++ ascii "'\n"

def reset : App :=
  command strerror ioctlReset [] "IOCTL_RESET failed" fun _ => .print (ascii "Device reset successfully\n")

def testAll (l : Locals) : App :=
  .print (ascii "Running comprehensive IOCTL tests...\n") <|
  testValueOperations strerror fun ret =>
  if ret < 0 then .exit 1 else
  testStringOperations strerror l fun ret =>
  if ret < 0 then .exit 1 else
  testResetOperation strerror l fun ret =>
  if ret < 0 then .exit 1 else
  .print (ascii "\n=== All tests completed successfully! ===\n") (.exit 0)

/-- The line when the device was opened. -/
def openedText : List UInt8 := ascii "Successfully opened /dev/ioctl_demo\n"

/-- `main`, with the error of `open` if it fails. -/
def main (l : Locals) (argv : List (List UInt8)) (openError : Option Int) : App :=
  let argc := argv.length
  let arg := argv.getD 2 []
  if argc < 2 then printUsage (argv.getD 0 []) (.exit 1) else
  match openError with
  | some e =>
    .print (perror strerror "Failed to open device" e) <|
    .print (ascii "Make sure the ioctl_demo module is loaded\n") <| .exit 1
  | none =>
    .print openedText <|
    let cmd := argv.getD 1 []
    if cmd = ascii "set_value" then setValue strerror argc arg
    else if cmd = ascii "get_value" then getValue strerror l
    else if cmd = ascii "set_string" then setString strerror l argc arg
    else if cmd = ascii "get_string" then getString strerror l
    else if cmd = ascii "reset" then reset strerror
    else if cmd = ascii "test_all" then testAll strerror l
    else .print (ascii "Error: Unknown command '" ++ cmd ++ ascii "'\n") <| printUsage (argv.getD 0 []) (.exit 1)

end Program

/-! ## The answers of the device -/

/-- What the registers can hold. -/
structure Registers.Good (r : Registers) : Prop where
  value : r.value.length = 4
  text : r.text.length < maxStringSize
  terminated : 0 ∉ r.text

/-- What a request does to the registers. -/
def Registers.apply (r : Registers) (q : Request) : Registers :=
  if q.cmd = ioctlSetValue then { r with value := q.buf }
  else if q.cmd = ioctlSetString then { r with text := cstr (q.buf.take (maxStringSize - 1)) }
  else if q.cmd = ioctlReset then .initial
  else r

/-- The registers after some requests. -/
def requested (h : List (Request × Answer)) : Registers := h.foldl (fun r e => r.apply e.1) .initial

theorem requested_snoc (h : List (Request × Answer)) (q : Request) (a : Answer) :
    requested (h ++ [(q, a)]) = (requested h).apply q := by
  simp [requested]

/-- The answer to a request. -/
def answer (r : Registers) (q : Request) : Answer :=
  (0, some (if q.cmd = ioctlGetValue then r.value
    else if q.cmd = ioctlGetString then overlay q.buf (r.text ++ [0]) else q.buf))

/-- The requests of the program: one of the five words, with a buffer of its size. -/
structure Allowed (q : Request) : Prop where
  cmd : q.cmd ∈ commands
  value : q.cmd = ioctlSetValue ∨ q.cmd = ioctlGetValue → q.buf.length = 4
  string : q.cmd = ioctlSetString ∨ q.cmd = ioctlGetString → q.buf.length = maxStringSize
  reset : q.cmd = ioctlReset → q.buf = []

theorem Allowed.length_le {q : Request} (h : Allowed q) : q.buf.length ≤ maxStringSize := by
  have hcmd := h.cmd
  simp only [commands, List.mem_cons, List.not_mem_nil, or_false] at hcmd
  rcases hcmd with hc | hc | hc | hc | hc
  · exact (h.value (.inl hc)).trans_le (by decide)
  · exact (h.value (.inr hc)).trans_le (by decide)
  · exact (h.string (.inl hc)).le
  · exact (h.string (.inr hc)).le
  · simp [h.reset hc]

theorem initial_good : Registers.initial.Good := ⟨by decide, by decide, by decide⟩

theorem Registers.Good.apply {r : Registers} {q : Request} (h : r.Good) (hq : Allowed q) : (r.apply q).Good := by
  unfold Registers.apply
  split
  · next hcmd => exact ⟨hq.value (.inl hcmd), h.text, h.terminated⟩
  split
  · next hcmd =>
    have hle := length_cstr_le (q.buf.take (maxStringSize - 1))
    rw [List.length_take] at hle
    refine ⟨h.value, ?_, zero_notMem_cstr _⟩
    have : (0 : Nat) < maxStringSize := by decide
    simp only
    omega
  split
  · exact initial_good
  · exact h

section Device

variable {d d' : IoctlDevice} {r : Registers} {c : Call} {q : Request} {a : Answer}

/-- A call with one of the five words and a good buffer gets to the dispatch. -/
theorem ioctlDemoIoctl_dispatch (hfree : d.lock = false) (hcmd : c.cmd ∈ commands)
    (haccess : ∀ a n, c.accessOk a n = true) :
    ioctlDemoIoctl d c = some ({ (ioctlSwitch { d with lock := true } c).1 with lock := false },
      (ioctlSwitch { d with lock := true } c).2) := by
  simp only [commands, List.mem_cons, List.not_mem_nil, or_false] at hcmd
  obtain ⟨htype, hnr⟩ : iocType c.cmd = ioctlDemoMagic ∧ ¬iocNr c.cmd > 5 := by
    rcases hcmd with h | h | h | h | h <;> rw [h] <;> decide
  simp [ioctlDemoIoctl, htype, hnr, haccess, hfree]

theorem ioctlSwitch_outcome (hfault : c.fault = false) (hcmd : c.cmd ∈ commands) :
    (ioctlSwitch d c).2 = ⟨0, if c.cmd = ioctlGetValue then bytesOfInt d.value
      else if c.cmd = ioctlGetString then d.string.take ((cstr d.string).length + 1) else []⟩ := by
  simp only [commands, List.mem_cons, List.not_mem_nil, or_false] at hcmd
  rcases hcmd with h | h | h | h | h <;> rw [ioctlSwitch, h, hfault] <;> rfl

/-- What the driver's registers are after a successful call, in terms of the request. -/
theorem Registers.after_eq_apply (hbuf : slice c.src 0 q.buf.length = q.buf) (hc : c.cmd = q.cmd) (hq : Allowed q)
    (out : List UInt8) : r.after c ⟨0, out⟩ = r.apply q := by
  rw [Registers.after, if_neg (by simp), Registers.apply, hc]
  split
  · next hcmd =>
    rw [hq.value (.inl hcmd)] at hbuf
    rw [hbuf]
  split
  · next hcmd =>
    have hslice : slice c.src 0 (maxStringSize - 1) = q.buf.take (maxStringSize - 1) := by
      rw [hq.string (.inl hcmd)] at hbuf
      rw [← hbuf, take_slice _ _ (by decide)]
    rw [Call.text, hslice]
  · rfl

/-- The buffer after a call that delivers a register, or nothing. -/
theorem deliver_eq_answer (hr : r.Good) (hq : Allowed q) {out : List UInt8}
    (hout : out = if q.cmd = ioctlGetValue then r.value else if q.cmd = ioctlGetString then r.text ++ [0] else []) :
    ((0 : Int), if out.length ≤ q.buf.length then some (overlay q.buf out) else none) = answer r q := by
  rw [answer, hout]
  split
  · next hcmd =>
    have hlen := hq.value (.inr hcmd)
    have hdrop : q.buf.drop r.value.length = [] := List.drop_eq_nil_of_le (by rw [hlen, hr.value])
    rw [if_pos (by rw [hlen, hr.value]), overlay, hdrop, List.append_nil]
  split
  · next hcmd =>
    have hlen := hq.string (.inr hcmd)
    have hlt := hr.text
    rw [if_pos (by rw [List.length_append, List.length_singleton, hlen]; omega)]
  · simp [overlay]

/-- **One request**: the answer comes from the registers, and the state stands for the registers that it makes. -/
theorem DeviceReply.spec (h : Represents d r) (hr : r.Good) (hq : Allowed q) (hreply : DeviceReply d q a d') :
    a = answer r q ∧ Represents d' (r.apply q) := by
  cases hreply with
  | @call _ c buf out hbuf haccess hfault hcall =>
    have hout : out = ⟨0, if c.cmd = ioctlGetValue then r.value
        else if c.cmd = ioctlGetString then r.text ++ [0] else []⟩ := by
      have := hcall.symm.trans (ioctlDemoIoctl_dispatch h.free hq.cmd haccess)
      rw [(Prod.mk.inj (Option.some.inj this)).2, ioctlSwitch_outcome hfault hq.cmd, h.value, h.take_string]
    obtain ⟨d₁, out₁, hcall₁, hrep, -, -⟩ := ioctlDemoIoctl_spec h c
    cases Option.some.inj (hcall.symm.trans hcall₁)
    refine ⟨?_, ?_⟩
    · rw [hout]
      exact deliver_eq_answer hr hq rfl
    · rw [hout, Registers.after_eq_apply (q := ⟨c.cmd, buf⟩) hbuf rfl hq] at hrep
      exact hrep

/-- The device answers every request. -/
theorem DeviceReply.exists (h : Represents d r) (q : Request) (hlen : q.buf.length < 2 ^ 64) :
    ∃ a d', DeviceReply d q a d' := by
  let c : Call := ⟨q.cmd, 0, fun a => q.buf.getD a.toNat 0, fun _ _ => true, false, fun _ => 0⟩
  have hbuf : slice c.src 0 q.buf.length = q.buf := by
    refine List.ext_getElem (by simp) fun i hi hi' => ?_
    have hmod : i % 18446744073709551616 = i := Nat.mod_eq_of_lt (by omega)
    simp [slice_eq_map, Call.src, c, hmod, hi']
  obtain ⟨d', out, hcall, -⟩ := ioctlDemoIoctl_spec h c
  exact ⟨_, d', .call hbuf (fun _ _ => rfl) rfl hcall⟩

end Device

/-- The device follows the requests. -/
def Follows (h : List (Request × Answer)) (d : IoctlDevice) : Prop := Represents d (requested h) ∧ (requested h).Good

/-- An answer that some registers give. -/
def Possible (q : Request) (a : Answer) : Prop := ∃ r : Registers, r.Good ∧ a = answer r q

theorem device_promises : Promises (· = ioctlDemoInit) DeviceReply Allowed Possible Follows where
  init := by
    rintro d rfl
    exact ⟨init_represents, initial_good⟩
  reply := by
    intro h d q a d' hd hq hreply
    obtain ⟨ha, hrep⟩ := DeviceReply.spec hd.1 hd.2 hq hreply
    rw [Follows, requested_snoc]
    exact ⟨⟨hrep, hd.2.apply hq⟩, _, hd.2, ha⟩

/-! ## The program alone -/

section Safe

variable {ok : Int → Prop} {strerror : Int → List UInt8}

/-- The rules for the statements of the program. -/
theorem safe_print {line : List UInt8} {next : App} (hnext : next.Safe Allowed Possible ok) :
    (Client.print line next : App).Safe Allowed Possible ok := hnext

theorem safe_exit {ret : Int} (h : ok ret) : (Client.exit ret : App).Safe Allowed Possible ok := h

/-- The ioctl succeeds, so the branch for its failure is not taken. -/
theorem safe_ioctl {cmd : UInt32} {buf : List UInt8} {failed next : Int → List UInt8 → App} (hq : Allowed ⟨cmd, buf⟩)
    (hnext : ∀ r : Registers, r.Good → ∀ buf', answer r ⟨cmd, buf⟩ = (0, some buf') →
      (next 0 buf').Safe Allowed Possible ok) :
    (ioctl cmd buf fun ret buf => if ret < 0 then failed ret buf else next ret buf).Safe Allowed Possible ok := by
  refine ⟨hq, ?_⟩
  rintro a ⟨r, hr, rfl⟩
  exact hnext r hr _ rfl

theorem safe_printString {buf : List UInt8} {line : List UInt8 → List UInt8} {next : App} (hbuf : 0 ∈ buf)
    (hnext : next.Safe Allowed Possible ok) : (printString buf line next).Safe Allowed Possible ok := by
  rw [printString, if_pos hbuf]
  exact hnext

theorem safe_printAll {next : App} (hnext : next.Safe Allowed Possible ok) :
    ∀ lines : List (List UInt8), (printAll lines next).Safe Allowed Possible ok
  | [] => hnext
  | _ :: lines => safe_printAll hnext lines

/-- What `GET_STRING` leaves in the buffer has a NUL, and so has a buffer that had one. -/
theorem zero_mem_answer {r : Registers} {buf buf' : List UInt8} (h : answer r ⟨ioctlGetString, buf⟩ = (0, some buf')) :
    0 ∈ buf' := by
  rw [← Option.some.inj (Prod.mk.inj h).2]
  simp +decide [overlay]

theorem allowed_value {cmd : UInt32} (hcmd : cmd = ioctlSetValue ∨ cmd = ioctlGetValue) {buf : List UInt8}
    (hbuf : buf.length = 4) : Allowed ⟨cmd, buf⟩ := by
  rcases hcmd with rfl | rfl
  · exact ⟨by simp [commands], fun _ => hbuf, fun h => absurd h (by simp +decide), fun h => absurd h (by simp +decide)⟩
  · exact ⟨by simp [commands], fun _ => hbuf, fun h => absurd h (by simp +decide), fun h => absurd h (by simp +decide)⟩

theorem allowed_string {cmd : UInt32} (hcmd : cmd = ioctlSetString ∨ cmd = ioctlGetString) {buf : List UInt8}
    (hbuf : buf.length = maxStringSize) : Allowed ⟨cmd, buf⟩ := by
  rcases hcmd with rfl | rfl
  · exact ⟨by simp [commands], fun h => absurd h (by simp +decide), fun _ => hbuf, fun h => absurd h (by simp +decide)⟩
  · exact ⟨by simp [commands], fun h => absurd h (by simp +decide), fun _ => hbuf, fun h => absurd h (by simp +decide)⟩

theorem allowed_reset : Allowed ⟨ioctlReset, []⟩ := ⟨by decide, by decide, by decide, fun _ => rfl⟩

theorem safe_testValueOperations {next : Int → App} (hnext : (next 0).Safe Allowed Possible ok) :
    (testValueOperations strerror next).Safe Allowed Possible ok := by
  refine safe_print (safe_print (safe_ioctl (allowed_value (.inl rfl) rfl) fun _ _ _ _ => ?_))
  exact safe_print (safe_ioctl (allowed_value (.inr rfl) rfl) fun _ _ _ _ => safe_print hnext)

theorem helloText_spec : (cstr (ascii "Hello from user space!")).length < maxStringSize := by decide

theorem safe_testStringOperations (l : Locals) {next : Int → App} (hnext : (next 0).Safe Allowed Possible ok) :
    (testStringOperations strerror l next).Safe Allowed Possible ok := by
  have hfit : (cstr (ascii "Hello from user space!")).length < l.testString.length :=
    l.length_testString.symm ▸ helloText_spec
  obtain ⟨hlen, hnul, -⟩ := strcpy_spec hfit
  refine safe_print (safe_printString hnul ?_)
  refine safe_ioctl (allowed_string (.inl rfl) (hlen.trans l.length_testString)) fun r hr buf hbuf => ?_
  have hsame : buf = strcpy l.testString (ascii "Hello from user space!") := (Option.some.inj (Prod.mk.inj hbuf).2).symm
  refine safe_print (safe_ioctl (allowed_string (.inr rfl) ?_) fun r hr buf' hbuf' => ?_)
  · rw [List.length_replicate, hsame, hlen, l.length_testString]
  · exact safe_printString (zero_mem_answer hbuf') hnext

theorem safe_testResetOperation (l : Locals) {next : Int → App} (hnext : (next 0).Safe Allowed Possible ok) :
    (testResetOperation strerror l next).Safe Allowed Possible ok := by
  refine safe_print (safe_print (safe_ioctl allowed_reset fun _ _ _ _ => ?_))
  refine safe_ioctl (allowed_value (.inr rfl) l.length_resetValue) fun _ _ _ _ => ?_
  refine safe_ioctl (allowed_string (.inr rfl) l.length_resetString) fun _ _ _ hbuf => ?_
  exact safe_printString (zero_mem_answer hbuf) hnext

theorem safe_testAll (l : Locals) (hok : ok 0) : (testAll strerror l).Safe Allowed Possible ok := by
  refine safe_print (safe_testValueOperations ?_)
  rw [if_neg (by decide)]
  refine safe_testStringOperations l ?_
  rw [if_neg (by decide)]
  refine safe_testResetOperation l ?_
  rw [if_neg (by decide)]
  exact safe_print (safe_exit hok)

/-- A command of `main`. -/
theorem safe_command {cmd : UInt32} {buf : List UInt8} {failed : String} {done : List UInt8 → App → App}
    (hq : Allowed ⟨cmd, buf⟩) (hdone : ∀ r : Registers, r.Good → ∀ buf', answer r ⟨cmd, buf⟩ = (0, some buf') →
      (done buf' (.exit 0)).Safe Allowed Possible ok) :
    (command strerror cmd buf failed done).Safe Allowed Possible ok :=
  safe_ioctl hq hdone

theorem safe_setValue (argc : Nat) (arg : List UInt8) (h : if argc = 3 then ok 0 else ok 1) :
    (setValue strerror argc arg).Safe Allowed Possible ok := by
  unfold setValue
  split at h
  · next hargc =>
    rw [if_neg (not_not.mpr hargc)]
    exact safe_command (allowed_value (.inl rfl) rfl) fun _ _ _ _ => safe_print (safe_exit h)
  · next hargc =>
    rw [if_pos hargc]
    exact safe_print (safe_exit h)

theorem safe_getValue (l : Locals) (hok : ok 0) : (getValue strerror l).Safe Allowed Possible ok :=
  safe_command (allowed_value (.inr rfl) l.length_value) fun _ _ _ _ => safe_print (safe_exit hok)

/-- The argument, cut to 255 characters and padded with NULs. -/
theorem setString_buffer (l : Locals) (arg : List UInt8) :
    (strncpy l.string arg (maxStringSize - 1)).set (maxStringSize - 1) 0 = paddedField (maxStringSize - 1) arg :=
  strncpy_set (by rw [l.length_string]; rfl) arg

theorem safe_setString (l : Locals) (argc : Nat) (arg : List UInt8) (h : if argc = 3 then ok 0 else ok 1) :
    (setString strerror l argc arg).Safe Allowed Possible ok := by
  unfold setString
  split at h
  · next hargc =>
    rw [if_neg (not_not.mpr hargc), setString_buffer]
    refine safe_command (allowed_string (.inl rfl) (length_paddedField _ _)) fun _ _ _ hbuf => ?_
    refine safe_printString ?_ (safe_exit h)
    rw [← Option.some.inj (Prod.mk.inj hbuf).2]
    exact zero_mem_paddedField _ _
  · next hargc =>
    rw [if_pos hargc]
    exact safe_print (safe_exit h)

theorem safe_getString (l : Locals) (hok : ok 0) : (getString strerror l).Safe Allowed Possible ok :=
  safe_command (allowed_string (.inr rfl) l.length_string) fun _ _ _ hbuf =>
    safe_printString (zero_mem_answer hbuf) (safe_exit hok)

theorem safe_reset (hok : ok 0) : (reset strerror).Safe Allowed Possible ok :=
  safe_command allowed_reset fun _ _ _ _ => safe_print (safe_exit hok)

/-- The commands without and with an argument. -/
def plainCommands : List (List UInt8) := [ascii "get_value", ascii "get_string", ascii "reset", ascii "test_all"]
def setCommands : List (List UInt8) := [ascii "set_value", ascii "set_string"]

theorem commands_disjoint : ∀ cmd ∈ setCommands, cmd ∉ plainCommands := by decide

/-- The arguments are complete. -/
def Complete (argv : List (List UInt8)) : Prop :=
  2 ≤ argv.length ∧ (argv.getD 1 [] ∈ plainCommands ∨ argv.getD 1 [] ∈ setCommands ∧ argv.length = 3)

/-- The exit code. -/
def ExitCode (argv : List (List UInt8)) (openError : Option Int) (ret : Int) : Prop :=
  (ret = 0 ∨ ret = 1) ∧ (ret = 0 ↔ openError = none ∧ Complete argv)

theorem exitCode_zero {argv : List (List UInt8)} (h : Complete argv) : ExitCode argv none 0 := ⟨.inl rfl, by simp [h]⟩

theorem exitCode_one {argv : List (List UInt8)} {openError : Option Int} (h : openError = none → ¬Complete argv) :
    ExitCode argv openError 1 := ⟨.inr rfl, by simpa using h⟩

theorem exitCode_set {argv : List (List UInt8)} (h : 2 ≤ argv.length) (hmem : argv.getD 1 [] ∈ setCommands) :
    if argv.length = 3 then ExitCode argv none 0 else ExitCode argv none 1 := by
  split
  · next h3 => exact exitCode_zero ⟨h, .inr ⟨hmem, h3⟩⟩
  · next h3 => exact exitCode_one fun _ hc => hc.2.elim (commands_disjoint _ hmem) fun hset => h3 hset.2

theorem safe_main (l : Locals) (argv : List (List UInt8)) (openError : Option Int) :
    (main strerror l argv openError).Safe Allowed Possible (ExitCode argv openError) := by
  unfold main
  by_cases hargc : argv.length < 2
  · rw [if_pos hargc]
    exact safe_printAll (safe_exit (exitCode_one fun _ h => absurd h.1 (by omega))) _
  · rw [if_neg hargc]
    have htwo : 2 ≤ argv.length := by omega
    cases openError with
    | some e => exact safe_print (safe_print (safe_exit (exitCode_one (by simp))))
    | none =>
      have hset : argv.getD 1 [] ∈ setCommands → _ := exitCode_set htwo
      have hplain : argv.getD 1 [] ∈ plainCommands → ExitCode argv none 0 := fun hmem => exitCode_zero ⟨htwo, .inl hmem⟩
      refine safe_print ?_
      dsimp only
      split
      · next h => exact safe_setValue _ _ (hset (by rw [h]; decide))
      split
      · next h => exact safe_getValue l (hplain (by rw [h]; decide))
      split
      · next h => exact safe_setString l _ _ (hset (by rw [h]; decide))
      split
      · next h => exact safe_getString l (hplain (by rw [h]; decide))
      split
      · next h => exact safe_reset (hplain (by rw [h]; decide))
      split
      · next h => exact safe_testAll l (hplain (by rw [h]; decide))
      · next h₁ h₂ h₃ h₄ h₅ h₆ =>
        refine safe_print (safe_printAll (safe_exit (exitCode_one fun _ h => ?_)) _)
        have hmem := h.2.imp_right And.left
        simp only [plainCommands, setCommands, List.mem_cons, List.not_mem_nil, or_false] at hmem
        rcases hmem with (h | h | h | h) | (h | h)
        exacts [h₂ h, h₄ h, h₅ h, h₆ h, h₁ h, h₃ h]

end Safe

end KernelModules.Ioctl
