import Mathlib.Data.List.TakeWhile
import KernelModules.Lib.Clients
import KernelModules.SharedMem.EchoClients

/-!
# The test program of the shared memory demo (`shared_mem_test.c`)

The program sends its argument, or one message after another from the standard input. `fgets` takes at most 511 bytes,
so a longer line is several messages.

- `inputs_lines`: the messages that lines of any length make;
- `keeps_main`: the program keeps to the four steps of a client, whatever its input;
- `trace_interactive`: it stores its messages in order and prints what it reads after each.
-/

namespace KernelModules.SharedMem

open Lib

/-! ## The standard input -/

/-- The local `message`. -/
structure MessageBuffer where
  bytes : List UInt8
  length_bytes : bytes.length = 512

/-- It holds a string. -/
structure MessageText extends MessageBuffer where
  terminated : 0 ∈ bytes

/-- At most `n` bytes, up to the first newline. -/
def lineChunk : Nat → List UInt8 → List UInt8
  | 0, _ => []
  | _ + 1, [] => []
  | n + 1, b :: s => if b = 10 then [b] else b :: lineChunk n s

theorem length_lineChunk_le : ∀ (n : Nat) (s : List UInt8), (lineChunk n s).length ≤ n
  | 0, _ => Nat.le_refl 0
  | _ + 1, [] => Nat.zero_le _
  | n + 1, b :: s => by
    rw [lineChunk]
    split
    · exact Nat.le_add_left 1 n
    · exact Nat.succ_le_succ (length_lineChunk_le n s)

theorem length_drop_lineChunk {s : List UInt8} (h : s ≠ []) (n : Nat) :
    (s.drop (lineChunk (n + 1) s).length).length < s.length := by
  cases s with
  | nil => exact absurd rfl h
  | cons b s =>
    have hpos : 0 < (lineChunk (n + 1) (b :: s)).length := by
      rw [lineChunk]
      split <;> exact Nat.succ_pos _
    rw [List.length_drop, List.length_cons]
    omega

/-- A string stored in `message`. -/
def MessageBuffer.fill (message : MessageBuffer) (s : List UInt8) (h : s.length ≤ 511) : MessageText where
  bytes := overlay message.bytes (s ++ [0])
  length_bytes := by
    rw [length_overlay (by rw [List.length_append, message.length_bytes, List.length_singleton]; omega),
      message.length_bytes]
  terminated := by simp [overlay]

/-- `fgets(message, sizeof(message), stdin)`: the buffer and the rest of the input. -/
def fgets (message : MessageBuffer) (stdin : List UInt8) : Option (MessageText × List UInt8) :=
  if stdin = [] then none
  else some (message.fill (lineChunk 511 stdin) (length_lineChunk_le 511 stdin),
    stdin.drop (lineChunk 511 stdin).length)

theorem length_fgets_rest {message : MessageBuffer} {stdin rest : List UInt8} {m : MessageText}
    (h : fgets message stdin = some (m, rest)) : rest.length < stdin.length := by
  unfold fgets at h
  split at h
  · cases h
  · next hne =>
    cases h
    exact length_drop_lineChunk hne 510

/-- `message[strcspn(message, "\n")] = '\0'`. -/
def MessageText.cutNewline (message : MessageText) : MessageText where
  bytes := message.bytes.set ((cstr message.bytes).takeWhile (· ≠ 10)).length 0
  length_bytes := by rw [List.length_set, message.length_bytes]
  terminated := by
    refine List.mem_set ?_ 0
    have hle : ((cstr message.bytes).takeWhile (· ≠ 10)).length ≤ (cstr message.bytes).length :=
      (List.takeWhile_sublist _).length_le
    exact Nat.lt_of_le_of_lt hle (length_cstr_lt message.terminated)

/-- `strncpy(message, argv[1], sizeof(message) - 1)` and the terminator. -/
def MessageBuffer.copy (message : MessageBuffer) (arg : List UInt8) : MessageText where
  bytes := (strncpy message.bytes arg 511).set 511 0
  length_bytes := by rw [strncpy_set message.length_bytes, length_paddedField]
  terminated := by
    rw [strncpy_set message.length_bytes]
    exact zero_mem_paddedField _ _

/-- The message in the buffer; it is shorter than the 4095 bytes that `strncpy` to the shared buffer takes at most. -/
def MessageText.message (message : MessageText) : Message where
  bytes := cstr message.bytes
  short := by
    have := length_cstr_lt message.terminated
    rw [message.length_bytes] at this
    omega
  noNul := zero_notMem_cstr _

/-! ## The program -/

/-- What the program does with the shared buffer and the device. -/
inductive MemCall
  | clear
  | store (m : Message)
  | send
  | read

/-- The results; the number that `process_message` gave to the message is not seen by the program. -/
inductive MemAnswer
  | done
  | ret (n : UInt64) (ret : Int)
  | text (response : List UInt8)
  /-- The area has no NUL, and `printf` runs on behind it. -/
  | runaway

/-- An access to the shared buffer, or the ioctl. -/
inductive MemReply : SharedMemDevice → MemCall → MemAnswer → SharedMemDevice → Prop
  | clear {d : SharedMemDevice} : MemReply d .clear .done (clearResponse d)
  | store {d : SharedMemDevice} (m : Message) : MemReply d (.store m) .done (writeMessage m d)
  | send {d d' : SharedMemDevice} {ret : Int} : sharedMemIoctl sharedMemSendMsg d = (d', ret) →
      MemReply d .send (.ret d'.msgCount ret) d'
  | read {d : SharedMemDevice} : 0 ∈ d.kernelToUser.bytes → MemReply d .read (.text (readResponse d)) d
  | readBeyond {d : SharedMemDevice} : 0 ∉ d.kernelToUser.bytes → MemReply d .read .runaway d

abbrev MemProgram := Client MemCall MemAnswer

section Program

-- the texts of the errors
variable (strerror : Int → List UInt8)

/-- A message is sent and its response printed; `failed` follows if the ioctl fails. The first `crash` is a `printf`
that runs on behind the area; the second one is no access, since the ioctl has no other answers. What the program
stores in `message` and in the other area fits there: this is in `MessageBuffer`, `MessageText` and `Message`. -/
def exchange (m : Message) (line : List UInt8 → List UInt8) (failed next : MemProgram) : MemProgram :=
  .call .clear fun _ =>
  .call (.store m) fun _ =>
  .call .send fun a =>
  match a with
  | .ret _ ret =>
    if ret < 0 then .print (perror strerror "ioctl failed" ret) failed else
    .call .read fun a =>
    match a with
    | .text response => .print (line response) next
    | _ => .crash
  | _ => .crash

def promptLine : List UInt8 := ascii "Enter message: "
def responseLine (response : List UInt8) : List UInt8 := ascii "Response: " ++ response ++ ascii "\n"
def interactiveLine : List UInt8 := ascii "Interactive shared memory demo. Type 'quit' to exit.\n"
def sendingLine (message : List UInt8) : List UInt8 := ascii "Sending: \"" ++ message ++ ascii "\"\n"

/-- The loop of the interactive mode. -/
def interactive (message : MessageBuffer) (stdin : List UInt8) : MemProgram :=
  .print promptLine <|
  match h : fgets message stdin with
  | none => .exit 0
  | some (message, rest) =>
    have := length_fgets_rest h
    let message := message.cutNewline
    if cstr message.bytes = ascii "quit" then .exit 0 else
    exchange strerror message.message (fun response => responseLine response ++ ascii "\n") (.exit 0)
      (interactive message.toMessageBuffer rest)
  termination_by stdin.length

def printUsage (name : List UInt8) (next : MemProgram) : MemProgram :=
  .print (ascii "Usage: " ++ name ++ ascii " <message>\n") <|
  .print (ascii "   or: " ++ name ++ ascii " -i  (interactive mode)\n") next

/-- `main`, with the errors of `open` and `mmap` if they fail. -/
def main (message : MessageBuffer) (argv : List (List UInt8)) (stdin : List UInt8) (openError mmapError : Option Int) :
    MemProgram :=
  let arg := argv.getD 1 []
  if argv.length < 2 then printUsage (argv.getD 0 []) (.exit 1) else
  match openError, mmapError with
  | some e, _ => .print (perror strerror "Failed to open device" e) (.exit 1)
  | none, some e => .print (perror strerror "mmap failed" e) (.exit 1)
  | none, none =>
    if arg = ascii "-i" then .print interactiveLine (interactive strerror message stdin)
    else
      let message := message.copy arg
      .print (sendingLine (cstr message.bytes)) <|
      exchange strerror message.message responseLine (.exit 1) (.exit 0)

end Program

/-! ## The messages in the input -/

/-- The message that a chunk of the input makes. -/
def chunkText (chunk : List UInt8) : List UInt8 := (cstr chunk).takeWhile (· ≠ 10)

theorem cstr_cutNewline (message : MessageText) :
    cstr message.cutNewline.bytes = (cstr message.bytes).takeWhile (· ≠ 10) := by
  have hle : ((cstr message.bytes).takeWhile (· ≠ 10)).length ≤ (cstr message.bytes).length :=
    (List.takeWhile_sublist _).length_le
  rw [MessageText.cutNewline, cstr_set hle]
  exact (List.prefix_iff_eq_take.mp (List.takeWhile_prefix _)).symm

theorem cstr_fill (message : MessageBuffer) (s : List UInt8) (h : s.length ≤ 511) :
    cstr (message.fill s h).bytes = cstr s := by
  have hbytes : (message.fill s h).bytes = s ++ 0 :: message.bytes.drop (s ++ [0]).length := by
    simp [MessageBuffer.fill, overlay]
  rw [hbytes, cstr_append_zero]

/-- What the loop takes from the input, one message after another. -/
def inputs (stdin : List UInt8) : List (List UInt8) :=
  if _h : stdin = [] then []
  else chunkText (lineChunk 511 stdin) :: inputs (stdin.drop (lineChunk 511 stdin).length)
  termination_by stdin.length
  decreasing_by exact length_drop_lineChunk _h 510

theorem inputs_nil : inputs [] = [] := by
  rw [inputs, dif_pos rfl]

theorem inputs_cons {stdin : List UInt8} (h : stdin ≠ []) :
    inputs stdin = chunkText (lineChunk 511 stdin) :: inputs (stdin.drop (lineChunk 511 stdin).length) := by
  rw [inputs, dif_neg h]

/-- The messages that a line makes: 511 bytes each, and what remains, which may be empty. -/
def pieces (line : List UInt8) : List (List UInt8) :=
  if _h : line.length < 511 then [line] else line.take 511 :: pieces (line.drop 511)
  termination_by line.length
  decreasing_by
    rw [List.length_drop]
    omega

theorem lineChunk_line : ∀ (n : Nat) {line : List UInt8} (rest : List UInt8), 10 ∉ line →
    lineChunk n (line ++ 10 :: rest) = if line.length < n then line ++ [10] else line.take n
  | 0, _, _, _ => by simp [lineChunk]
  | n + 1, [], _, _ => by simp [lineChunk]
  | n + 1, b :: line, rest, h => by
    obtain ⟨hb, hline⟩ := not_or.mp (mt List.mem_cons.mpr h)
    rw [List.cons_append, lineChunk, if_neg (Ne.symm hb), lineChunk_line n rest hline]
    by_cases hlen : line.length < n
    · rw [if_pos hlen, if_pos (by rw [List.length_cons]; omega), List.cons_append]
    · rw [if_neg hlen, if_neg (by rw [List.length_cons]; omega), List.take_succ_cons]

theorem chunkText_line {line : List UInt8} (hzero : 0 ∉ line) (hline : 10 ∉ line) :
    chunkText line = line ∧ chunkText (line ++ [10]) = line := by
  have hall : ∀ b ∈ line, decide (b ≠ 10) = true := fun b hb => decide_eq_true fun h => hline (h ▸ hb)
  refine ⟨?_, ?_⟩
  · rw [chunkText, cstr_of_notMem hzero, List.takeWhile_eq_self_iff.mpr hall]
  · rw [chunkText, cstr_of_notMem (by simp [hzero]), List.takeWhile_append_of_pos hall]
    simp

/-- **A line of any length.** -/
theorem inputs_line (rest : List UInt8) : ∀ {line : List UInt8}, 0 ∉ line → 10 ∉ line →
    inputs (line ++ 10 :: rest) = pieces line ++ inputs rest := by
  intro line hzero hline
  rw [inputs_cons (by simp), lineChunk_line 511 rest hline, pieces]
  by_cases hlen : line.length < 511
  · rw [if_pos hlen, dif_pos hlen, (chunkText_line hzero hline).2, List.length_append, List.length_singleton]
    simp
  · have hle : 511 ≤ line.length := by omega
    rw [if_neg hlen, dif_neg hlen, List.length_take_of_le hle, List.drop_append_of_le_length hle]
    rw [(chunkText_line (fun h => hzero (List.mem_of_mem_take h)) (fun h => hline (List.mem_of_mem_take h))).1,
      inputs_line rest (fun h => hzero (List.mem_of_mem_drop h)) (fun h => hline (List.mem_of_mem_drop h)),
      List.cons_append]
  termination_by line => line.length
  decreasing_by
    rw [List.length_drop]
    omega

/-- **Lines.** -/
theorem inputs_lines : ∀ {lines : List (List UInt8)}, (∀ l ∈ lines, 0 ∉ l ∧ 10 ∉ l) →
    inputs (lines.flatMap fun l => l ++ [10]) = lines.flatMap pieces
  | [], _ => inputs_nil
  | l :: lines, h => by
    obtain ⟨hzero, hline⟩ := h l List.mem_cons_self
    rw [List.flatMap_cons, List.flatMap_cons, List.append_assoc, List.singleton_append, inputs_line _ hzero hline,
      inputs_lines fun l hl => h l (List.mem_cons_of_mem _ hl)]

/-- The loop, in terms of the input. -/
theorem interactive_nil (strerror : Int → List UInt8) (message : MessageBuffer) :
    interactive strerror message [] = .print promptLine (.exit 0) := by
  rw [interactive]
  rfl

theorem interactive_cons (strerror : Int → List UInt8) (message : MessageBuffer) {stdin : List UInt8} (h : stdin ≠ []) :
    ∃ (m : MessageText) (rest : List UInt8), cstr m.bytes = chunkText (lineChunk 511 stdin) ∧
      rest = stdin.drop (lineChunk 511 stdin).length ∧
      interactive strerror message stdin = .print promptLine (if cstr m.bytes = ascii "quit" then .exit 0 else
        exchange strerror m.message (fun response => responseLine response ++ ascii "\n") (.exit 0)
          (interactive strerror m.toMessageBuffer rest)) := by
  refine ⟨(message.fill (lineChunk 511 stdin) (length_lineChunk_le 511 stdin)).cutNewline, _, ?_, rfl, ?_⟩
  · rw [cstr_cutNewline, cstr_fill, chunkText]
  · rw [interactive]
    split
    · next hnone =>
      rw [fgets, if_neg h] at hnone
      cases hnone
    · next m rest hsome =>
      rw [fgets, if_neg h] at hsome
      obtain ⟨rfl, rfl⟩ := Prod.mk.inj (Option.some.inj hsome)
      rfl

/-! ## The protocol -/

/-- The steps of a client, in their order. -/
def protocol : Pc → MemCall → MemAnswer → Option (Act × Pc)
  | .idle, .clear, .done => some (.clear, .cleared)
  | .cleared, .store m, .done => some (.store m, .stored m)
  | .stored m, .send, .ret n _ => some (.ioctl m n, .sent m n)
  | .sent m n, .read, .text r => some (.read m n r, .idle)
  | _, _, _ => none

/-- The answers are of the kind of their call, and the ioctl does not fail. -/
def Answered : MemCall → MemAnswer → Prop
  | .clear, .done => True
  | .store _, .done => True
  | .send, .ret _ ret => ret = 0
  | .read, .text _ => True
  | _, _ => False

/-- What a step of a client is for its program. -/
def Act.call : Act → MemCall × MemAnswer
  | .clear => (.clear, .done)
  | .store m => (.store m, .done)
  | .ioctl _ n => (.send, .ret n 0)
  | .read _ _ r => (.read, .text r)

/-- The response can be printed. -/
def Printable (d : SharedMemDevice) : Prop := 0 ∈ d.kernelToUser.bytes

theorem printable_init {d : SharedMemDevice} (h : d = sharedMemoryDemoInit) : Printable d := by
  rw [h]
  exact List.mem_replicate.mpr ⟨by decide, rfl⟩

theorem memReply_answered {d d' : SharedMemDevice} {q : MemCall} {a : MemAnswer} (hd : Printable d)
    (h : MemReply d q a d') : Answered q a ∧ Printable d' := by
  cases h with
  | clear => exact ⟨trivial, List.mem_replicate.mpr ⟨by decide, rfl⟩⟩
  | store => exact ⟨trivial, hd⟩
  | send hcall =>
    obtain ⟨rfl, rfl⟩ := Prod.mk.inj hcall
    exact ⟨rfl, zero_mem_snprintf _ _ _⟩
  | read => exact ⟨trivial, hd⟩
  | readBeyond hnone => exact absurd hd hnone

/-- The device answers as in the steps of a client. -/
theorem memReply_step {C : Type*} (c : C) {d d' : SharedMemDevice} {q : MemCall} {a : MemAnswer} {l l' : Pc} {e : Act}
    (h : MemReply d q a d') (hl : protocol l q a = some (e, l')) : ClientStep c d l e d' l' ∧ e.call = (q, a) := by
  cases h with
  | clear =>
    cases l with
    | idle =>
      cases hl
      exact ⟨.clear, rfl⟩
    | _ => cases hl
  | store m =>
    cases l with
    | cleared =>
      cases hl
      exact ⟨.store m, rfl⟩
    | _ => cases hl
  | send hcall =>
    cases l with
    | stored m =>
      cases hl
      obtain ⟨rfl, rfl⟩ := Prod.mk.inj hcall
      exact ⟨.ioctl hcall, rfl⟩
    | _ => cases hl
  | read =>
    cases l with
    | sent m n =>
      cases hl
      exact ⟨.read, rfl⟩
    | _ => cases hl
  | readBeyond => cases l <;> cases hl

section Keeps

variable {strerror : Int → List UInt8} {m : Message} {line : List UInt8 → List UInt8} {failed next : MemProgram}

/-- A program that keeps to the protocol from where a client is idle. -/
def KeepsIdle (c : MemProgram) : Prop := c.Keeps protocol Answered (· = .idle) .idle

theorem keeps_exchange (hnext : KeepsIdle next) : KeepsIdle (exchange strerror m line failed next) := by
  rintro (_ | _ | _ | _) ⟨⟩
  refine ⟨_, _, rfl, ?_⟩
  rintro (_ | _ | _ | _) ⟨⟩
  refine ⟨_, _, rfl, ?_⟩
  intro a hsent
  cases a with
  | ret n ret =>
    cases hsent
    refine ⟨_, _, rfl, ?_⟩
    intro a hread
    cases a with
    | text r => exact ⟨_, _, rfl, hnext⟩
    | _ => cases hread
  | _ => cases hsent

theorem keeps_interactive (message : MessageBuffer) (stdin : List UInt8) :
    KeepsIdle (interactive strerror message stdin) := by
  rw [interactive]
  split
  · exact rfl
  · next m rest h =>
    have hlt := length_fgets_rest h
    dsimp only
    split
    · exact rfl
    · exact keeps_exchange (keeps_interactive _ rest)
  termination_by stdin.length

/-- **The program** keeps to the protocol, whatever its arguments and its input. -/
theorem keeps_main (message : MessageBuffer) (argv : List (List UInt8)) (stdin : List UInt8)
    (openError mmapError : Option Int) :
    KeepsIdle (main strerror message argv stdin openError mmapError) := by
  unfold main
  dsimp only
  split
  · exact rfl
  split
  · exact rfl
  · exact rfl
  split
  · exact keeps_interactive message stdin
  · exact keeps_exchange rfl

end Keeps

/-! ## What the program prints -/

/-- The message that was stored, and the response that was read. -/
def storedText : ClientAct MemCall MemAnswer → Option (List UInt8)
  | .call (.store m) _ => some m.bytes
  | _ => none

def readText : ClientAct MemCall MemAnswer → Option (List UInt8)
  | .call .read (.text r) => some r
  | _ => none

/-- All answers are as they should be. -/
def AllAnswered (es : List (ClientAct MemCall MemAnswer)) : Prop := ∀ q a, .call q a ∈ es → Answered q a

theorem trace_exchange {strerror : Int → List UInt8} {m : Message} {line : List UInt8 → List UInt8}
    {failed next : MemProgram}
    {es : List (ClientAct MemCall MemAnswer)} {ret : Int}
    (h : (exchange strerror m line failed next).Trace es (.exit ret)) (hall : AllAnswered es) :
    ∃ n r es', es = .call .clear .done :: .call (.store m) .done :: .call .send (.ret n 0) :: .call .read (.text r) ::
      .print (line r) :: es' ∧ next.Trace es' (.exit ret) := by
  cases h with
  | @call _ a _ _ _ h =>
    obtain rfl : a = .done := by
      have := hall .clear a (by simp)
      cases a <;> trivial
    cases h with
    | @call _ a _ _ _ h =>
      obtain rfl : a = .done := by
        have := hall (.store m) a (by simp)
        cases a <;> trivial
      cases h with
      | @call _ a _ _ _ h =>
        have hsend := hall .send a (by simp)
        cases a with
        | ret n ret' =>
          cases hsend
          cases h with
          | @call _ a _ _ _ h =>
            have hread := hall .read a (by simp)
            cases a with
            | text r =>
              cases h with
              | print h => exact ⟨n, r, _, rfl, h⟩
            | _ => cases hread
        | _ => cases hsend

/-- The lines for the responses, each after a prompt. -/
def responseLines (responses : List (List UInt8)) : List (List UInt8) :=
  responses.flatMap fun r => [promptLine, responseLine r ++ ascii "\n"]

/-- What the interactive mode has done when it is left. -/
structure Typed (stdin : List UInt8) (es : List (ClientAct MemCall MemAnswer)) (ret : Int) : Prop where
  ret : ret = 0
  stored : es.filterMap storedText = (inputs stdin).takeWhile (· ≠ ascii "quit")
  read : (es.filterMap readText).length = (es.filterMap storedText).length
  lines : printed es = responseLines (es.filterMap readText) ++ [promptLine]

/-- **The interactive mode** stores the messages of the input up to `quit`, in their order, and prints what it reads
after each. -/
theorem trace_interactive {strerror : Int → List UInt8} {ret : Int} (stdin : List UInt8) (message : MessageBuffer)
    (es : List (ClientAct MemCall MemAnswer)) (h : (interactive strerror message stdin).Trace es (.exit ret))
    (hall : AllAnswered es) : Typed stdin es ret := by
  induction hlen : stdin.length using Nat.strong_induction_on generalizing stdin message es with
  | _ k ih =>
    by_cases hnil : stdin = []
    · rw [hnil, interactive_nil] at h
      cases h with
      | print h =>
        cases h
        exact ⟨rfl, by rw [hnil, inputs_nil]; rfl, rfl, rfl⟩
    · obtain ⟨m, rest, hm, hrest, hprog⟩ := interactive_cons strerror message hnil
      rw [hprog] at h
      cases h with
      | print h =>
        split at h
        · next hquit =>
          cases h
          refine ⟨rfl, ?_, rfl, rfl⟩
          rw [inputs_cons hnil, ← hm, hquit, List.takeWhile_cons_of_neg (by simp)]
          rfl
        · next hquit =>
          obtain ⟨n, r, es', rfl, hnext⟩ := trace_exchange h fun q a hmem => hall q a (List.mem_cons_of_mem _ hmem)
          have hlt : rest.length < k := by
            rw [← hlen, hrest]
            exact length_drop_lineChunk hnil 510
          obtain ⟨hret, hstored, hread, hlines⟩ :=
            ih _ hlt rest _ es' hnext (fun q a hmem => hall q a (by simp [hmem])) rfl
          refine ⟨hret, ?_, ?_, ?_⟩
          · rw [inputs_cons hnil, ← hm, List.takeWhile_cons_of_pos (by simpa using hquit), ← hrest, ← hstored]
            rfl
          · exact congrArg Nat.succ hread
          · exact congrArg (fun ls => promptLine :: (responseLine r ++ ascii "\n") :: ls) hlines

end KernelModules.SharedMem
