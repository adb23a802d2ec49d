import KernelModules.SharedMem.SharedMemTest

/-!
# Runs of the shared memory test program

- `shared_mem_test_refines`: however many programs run, with whatever arguments and inputs, their accesses are a run of
  the clients of `EchoClients`, and what each of them prints is what it reads;
- `shared_mem_test_echoes`: a program that is alone gets the echo of every line that is typed.
-/

namespace KernelModules.SharedMem

open Lib

universe u

/-- A run of the program: the library's texts, its stack, its arguments and its input, and the errors of `open` and
`mmap`. -/
structure TestStart where
  strerror : Int → List UInt8
  message : MessageBuffer
  argv : List (List UInt8)
  stdin : List UInt8
  openError : Option Int
  mmapError : Option Int

def TestStart.prog (r : TestStart) : MemProgram := main r.strerror r.message r.argv r.stdin r.openError r.mmapError

/-- Any number of programs over the device as it was loaded. -/
def sharedMemTests {P : Type u} [DecidableEq P] (start : P → TestStart) : System (Threads P SharedMemDevice MemProgram)
    (P × ClientAct MemCall MemAnswer) := clients (· = sharedMemoryDemoInit) MemReply fun p => (start p).prog

section Runs

variable {P : Type u} [DecidableEq P] {start : P → TestStart} {tr : List (P × ClientAct MemCall MemAnswer)}
  {t : Threads P SharedMemDevice MemProgram}

theorem run_refines (h : (sharedMemTests start).Run tr t) : Printable t.shared ∧
    ∃ tr' t', (echoClients P).Run tr' t' ∧ t'.shared = t.shared ∧ tr'.map (fun e => (e.1, e.2.call)) = callsOf tr ∧
      ∀ p, (t.pc p).Keeps protocol Answered (· = .idle) (t'.pc p) := by
  have hprog (p : P) : ((start p).prog).Keeps protocol Answered (· = .idle) .idle := keeps_main _ _ _ _ _
  exact run_keeps hprog h printable_init memReply_answered fun c => memReply_step c

theorem run_answered (h : (sharedMemTests start).Run tr t) (p : P) : AllAnswered (System.labelsOf p tr) := by
  intro q a hmem
  obtain ⟨pre, post, rfl⟩ := List.append_of_mem (System.mem_labelsOf.mp hmem)
  obtain ⟨t₁, t₂, hrun, ⟨g, c, hstep, -⟩, -⟩ := h.cut
  generalize t₁.pc (p, ClientAct.call q a).1 = c₁ at hstep
  cases hstep with
  | call hreply => exact (memReply_answered (run_refines hrun).1 hreply).1

theorem run_ne_crash (h : (sharedMemTests start).Run tr t) (p : P) : t.pc p ≠ .crash := by
  obtain ⟨-, -, t', -, -, -, hkeeps⟩ := run_refines h
  intro hcrash
  have hp := hkeeps p
  rw [hcrash] at hp
  exact hp

theorem memReply_live (d : SharedMemDevice) (q : MemCall) : ∃ a d', MemReply d q a d' := by
  cases q with
  | clear => exact ⟨_, _, .clear⟩
  | store m => exact ⟨_, _, .store m⟩
  | send => exact ⟨_, _, .send rfl⟩
  | read =>
    by_cases hzero : 0 ∈ d.kernelToUser.bytes
    · exact ⟨_, _, .read hzero⟩
    · exact ⟨_, _, .readBeyond hzero⟩

/-- Every program can finish on its own. -/
theorem run_exit (h : (sharedMemTests start).Run tr t) (p : P) :
    ∃ tr' t', (sharedMemTests start).Path t tr' t' ∧ (∀ e ∈ tr', e.1 = p) ∧ ∃ ret, t'.pc p = .exit ret := by
  obtain ⟨tr', t', hpath, hown, hcrash | hexit⟩ := path_end memReply_live p t
  · exact absurd hcrash (run_ne_crash (h.extend hpath) p)
  · exact ⟨tr', t', hpath, hown, hexit⟩

end Runs

/-- The program is in the interactive mode. -/
def TestStart.Interactive (r : TestStart) : Prop :=
  2 ≤ r.argv.length ∧ r.argv.getD 1 [] = ascii "-i" ∧ r.openError = none ∧ r.mmapError = none

theorem TestStart.Interactive.prog {r : TestStart} (h : r.Interactive) :
    r.prog = .print interactiveLine (interactive r.strerror r.message r.stdin) := by
  obtain ⟨hargc, harg, hopen, hmmap⟩ := h
  rw [TestStart.prog, hopen, hmmap]
  unfold main
  dsimp only
  rw [if_neg (by omega), harg, if_pos rfl]

/-- A program in the interactive mode that has been left. -/
theorem interactive_typed {P : Type u} [DecidableEq P] {start : P → TestStart}
    {tr : List (P × ClientAct MemCall MemAnswer)}
    {t : Threads P SharedMemDevice MemProgram} (h : (sharedMemTests start).Run tr t) {p : P}
    (hp : (start p).Interactive)
    {ret : Int} (hret : t.pc p = .exit ret) :
    ∃ es, System.labelsOf p tr = .print interactiveLine :: es ∧ Typed (start p).stdin es ret := by
  have htrace := run_trace h p
  have hall := run_answered h p
  rw [hret, hp.prog] at htrace
  generalize System.labelsOf p tr = labels at htrace hall
  cases htrace with
  | print htrace => exact ⟨_, rfl, trace_interactive _ _ _ htrace fun q a hmem =>
    hall q a (List.mem_cons_of_mem _ hmem)⟩

/-- **Refinement.** However the accesses and ioctls of any number of programs interleave, with any arguments and
inputs, they are a run of the clients that clear, store, send and read. No program crashes, and each can always finish
without the others. One that was in the interactive mode and has exited, has exited with 0, has stored the messages of
its input up to `quit`, one after another, and has printed the response that it read after each of them. -/
theorem shared_mem_test_refines {P : Type u} [DecidableEq P] (start : P → TestStart)
    (tr : List (P × ClientAct MemCall MemAnswer)) (t : Threads P SharedMemDevice MemProgram)
    (h : (sharedMemTests start).Run tr t) :
    (∃ tr' t', (echoClients P).Run tr' t' ∧ t'.shared = t.shared ∧ tr'.map (fun e => (e.1, e.2.call)) = callsOf tr) ∧
    ∀ p, t.pc p ≠ .crash ∧
      (∃ tr' t', (sharedMemTests start).Path t tr' t' ∧ (∀ e ∈ tr', e.1 = p) ∧ ∃ ret, t'.pc p = .exit ret) ∧
      ((start p).Interactive → ∀ ret, t.pc p = .exit ret → ret = 0 ∧
        (System.labelsOf p tr).filterMap storedText = (inputs (start p).stdin).takeWhile (· ≠ ascii "quit") ∧
        ((System.labelsOf p tr).filterMap readText).length = ((System.labelsOf p tr).filterMap storedText).length ∧
        printed (System.labelsOf p tr) =
          interactiveLine :: (responseLines ((System.labelsOf p tr).filterMap readText) ++ [promptLine])) := by
  obtain ⟨-, tr', t', hrun, hshared, hlabels, -⟩ := run_refines h
  refine ⟨⟨tr', t', hrun, hshared, hlabels⟩, fun p => ⟨run_ne_crash h p, run_exit h p, fun hp ret hret => ?_⟩⟩
  obtain ⟨es, hes, htyped⟩ := interactive_typed h hp hret
  rw [hes]
  exact ⟨htyped.ret, htyped.stored, htyped.read, congrArg (List.cons interactiveLine) htyped.lines⟩

/-- Two programs, one with a message and one in the interactive mode. -/
def twoStarts (p : Bool) : TestStart where
  strerror _ := []
  message := ⟨List.replicate 512 0, List.length_replicate⟩
  argv := [ascii "./shared_mem_test", if p then ascii "-i" else ascii "hello"]
  stdin := ascii "first\nsecond\nquit\n"
  openError := none
  mmapError := none

theorem twoStarts_interactive : (twoStarts true).Interactive := ⟨by decide, by decide, rfl, rfl⟩

/-- The interactive one can finish, and has then stored the two lines before `quit`. -/
theorem shared_mem_test_refines_two : ∃ tr t, (sharedMemTests twoStarts).Run tr t ∧ t.pc true = .exit 0 ∧
    (System.labelsOf true tr).filterMap storedText = [ascii "first", ascii "second"] := by
  have hnil : (sharedMemTests twoStarts).Run [] ⟨sharedMemoryDemoInit, fun p => (twoStarts p).prog⟩ :=
    .nil ⟨rfl, fun _ => rfl⟩
  obtain ⟨tr, t, hpath, -, ret, hret⟩ := ((shared_mem_test_refines twoStarts [] _ hnil).2 true).2.1
  have hrun : (sharedMemTests twoStarts).Run ([] ++ tr) t := hnil.extend hpath
  obtain ⟨rfl, hstored, -⟩ := ((shared_mem_test_refines twoStarts _ t hrun).2 true).2.2 twoStarts_interactive ret hret
  have hlines : (twoStarts true).stdin = [ascii "first", ascii "second", ascii "quit"].flatMap fun l => l ++ [10] :=
    by decide
  rw [hlines, inputs_lines (by decide)] at hstored
  refine ⟨_, t, hrun, hret, hstored.trans ?_⟩
  simp +decide [pieces]

/-! ## A program alone -/

def Act.stored : Act → Option (List UInt8)
  | .store m => some m.bytes
  | _ => none

def Act.response : Act → Option (List UInt8)
  | .read _ _ r => some r
  | _ => none

/-- The messages stored and the responses read in some steps. -/
def storedIn (tr : List (Unit × Act)) : List (List UInt8) := tr.filterMap fun e => e.2.stored

def readIn (tr : List (Unit × Act)) : List (List UInt8) := tr.filterMap fun e => e.2.response

theorem storedIn_snoc (tr : List (Unit × Act)) (e : Unit × Act) :
    storedIn (tr ++ [e]) = storedIn tr ++ e.2.stored.toList :=
  System.filterMap_snoc _ _ _

theorem readIn_snoc (tr : List (Unit × Act)) (e : Unit × Act) : readIn (tr ++ [e]) = readIn tr ++ e.2.response.toList :=
  System.filterMap_snoc _ _ _

/-- The echoes of messages from the first one on. -/
def echoes (messages : List (List UInt8)) : List (List UInt8) :=
  messages.zipIdx.map fun x => echo (UInt64.ofNat (x.2 + 1)) x.1

theorem echoes_snoc (messages : List (List UInt8)) (m : List UInt8) :
    echoes (messages ++ [m]) = echoes messages ++ [echo (UInt64.ofNat (messages.length + 1)) m] := by
  simp [echoes, List.zipIdx_append]

/-- How far a client that is alone has come. -/
def Served (stored read : List (List UInt8)) (d : SharedMemDevice) : Pc → Prop
  | .idle => read = echoes stored ∧ d.msgCount = UInt64.ofNat stored.length
  | .cleared => read = echoes stored ∧ d.msgCount = UInt64.ofNat stored.length
  | .stored m => ∃ before, stored = before ++ [m.bytes] ∧ read = echoes before ∧
      d.msgCount = UInt64.ofNat before.length ∧
      cstr d.userToKernel.bytes = m.bytes
  | .sent m _ => ∃ before, stored = before ++ [m.bytes] ∧ read = echoes before ∧
      d.msgCount = UInt64.ofNat (before.length + 1) ∧ readResponse d = echo (UInt64.ofNat (before.length + 1)) m.bytes

/-- **A step** of a client that is alone. -/
theorem clientStep_served {tr : List (Unit × Act)} {d d' : SharedMemDevice} {l l' : Pc} {act : Act}
    (h : ClientStep () d l act d' l') (hd : Served (storedIn tr) (readIn tr) d l) :
    Served (storedIn (tr ++ [((), act)])) (readIn (tr ++ [((), act)])) d' l' := by
  rw [storedIn_snoc, readIn_snoc]
  cases h with
  | clear =>
    rw [show Act.clear.stored = none from rfl, show Act.clear.response = none from rfl, Option.toList_none,
      List.append_nil, List.append_nil]
    exact hd
  | store m => exact ⟨_, rfl, (List.append_nil _).trans hd.1, hd.2, cstr_writeMessage m d⟩
  | @ioctl _ m hcall =>
    obtain rfl : processMessage d = d' := congrArg Prod.fst hcall
    obtain ⟨before, hstored, hread, hcount, hrequest⟩ := hd
    have hnumber : d.msgCount + 1 = UInt64.ofNat (before.length + 1) := by rw [hcount, UInt64.ofNat_add]; rfl
    refine ⟨before, (List.append_nil _).trans hstored, (List.append_nil _).trans hread, hnumber, ?_⟩
    rw [processMessage_response (by rw [hrequest]; exact m.short), hrequest, ← hnumber]
  | read =>
    obtain ⟨before, hstored, hread, hcount, hresponse⟩ := hd
    refine ⟨?_, ?_⟩
    · rw [hread, hstored]
      simp [Act.stored, Act.response, echoes_snoc, hresponse]
    · rw [hstored]
      simpa [Act.stored] using hcount

theorem run_served {tr : List (Unit × Act)} {s : Threads Unit SharedMemDevice Pc} (h : (echoClients Unit).Run tr s) :
    Served (storedIn tr) (readIn tr) s.shared (s.pc ()) := by
  refine System.Run.history (P := fun tr s => Served (storedIn tr) (readIn tr) s.shared (s.pc ())) ?_ ?_ h
  · rintro ⟨d, pc⟩ ⟨rfl, hpc⟩
    rw [hpc ()]
    exact ⟨rfl, rfl⟩
  · rintro tr s ⟨c, act⟩ s' - ih ⟨d', l', hstep, rfl⟩
    simp only [Function.update_self]
    exact clientStep_served hstep ih

/-- The steps of a program alone, as those of its protocol. -/
theorem stored_of_calls {tr : List (Unit × ClientAct MemCall MemAnswer)} {tr' : List (Unit × Act)}
    (h : tr'.map (fun e => (e.1, e.2.call)) = callsOf tr) :
    storedIn tr' = (System.labelsOf () tr).filterMap storedText ∧
      readIn tr' = (System.labelsOf () tr).filterMap readText := by
  have hcalls {B : Type} {f : ClientAct MemCall MemAnswer → Option B} (hf : ∀ line, f (.print line) = none) :
      tr'.filterMap (fun e => f (.call e.2.call.1 e.2.call.2)) = (System.labelsOf () tr).filterMap f := by
    rw [System.labelsOf, List.filterMap_filterMap]
    have := filterMap_callsOf hf tr
    rw [← h, List.filterMap_map] at this
    exact this
  refine ⟨?_, ?_⟩
  · rw [← hcalls (f := storedText) fun _ => rfl, storedIn]
    refine congrFun (congrArg List.filterMap (funext fun e => ?_)) tr'
    rcases e with ⟨_, _ | _ | _ | _⟩ <;> rfl
  · rw [← hcalls (f := readText) fun _ => rfl, readIn]
    refine congrFun (congrArg List.filterMap (funext fun e => ?_)) tr'
    rcases e with ⟨_, _ | _ | _ | _⟩ <;> rfl

/-- **Echoes.** A program that is alone, in the interactive mode, with lines of any length typed, can finish. When it
has exited, with 0, it has printed the echoes of the lines up to `quit`, numbered from 1. A line of 511 bytes or more
has several echoes, one for each piece. -/
theorem shared_mem_test_echoes (start : TestStart) (hstart : start.Interactive) (lines : List (List UInt8))
    (hlines : ∀ l ∈ lines, 0 ∉ l ∧ 10 ∉ l) (hstdin : start.stdin = lines.flatMap fun l => l ++ [10]) :
    (∃ tr t, (sharedMemTests fun _ : Unit => start).Run tr t ∧ t.pc () = .exit 0) ∧
    ∀ tr t ret, (sharedMemTests fun _ : Unit => start).Run tr t → t.pc () = .exit ret →
      ret = 0 ∧ printed (System.labelsOf () tr) = interactiveLine ::
        (responseLines (echoes ((lines.flatMap pieces).takeWhile (· ≠ ascii "quit"))) ++ [promptLine]) := by
  refine ⟨?_, fun tr t ret h hret => ?_⟩
  · have hnil : (sharedMemTests fun _ : Unit => start).Run [] ⟨sharedMemoryDemoInit, fun _ => start.prog⟩ :=
      .nil ⟨rfl, fun _ => rfl⟩
    obtain ⟨tr, t, hpath, -, ret, hret⟩ := run_exit hnil ()
    obtain ⟨es, -, htyped⟩ := interactive_typed (hnil.extend hpath) hstart hret
    exact ⟨_, t, hnil.extend hpath, htyped.ret ▸ hret⟩
  · obtain ⟨-, tr', t', hrun, -, hlabels, hkeeps⟩ := run_refines h
    obtain ⟨es, hes, htyped⟩ := interactive_typed h hstart hret
    obtain ⟨hstored, hread⟩ := stored_of_calls hlabels
    -- it exits only where its client is idle, so every message has been read back
    have hidle : t'.pc () = .idle := by
      have hkeep := hkeeps ()
      rw [hret] at hkeep
      exact hkeep
    have hserved := run_served hrun
    rw [hidle, hstored, hread, hes] at hserved
    have hechoes : es.filterMap readText = echoes (es.filterMap storedText) := hserved.1
    refine ⟨htyped.ret, ?_⟩
    rw [← inputs_lines hlines, ← hstdin, ← htyped.stored, hes, ← hechoes]
    exact congrArg (List.cons interactiveLine) htyped.lines

theorem shared_mem_test_echoes_typed : ∃ tr t, (sharedMemTests fun _ : Unit => twoStarts true).Run tr t ∧
    printed (System.labelsOf () tr) = [interactiveLine,
      promptLine, responseLine (ascii "Echo #1: first") ++ ascii "\n",
      promptLine, responseLine (ascii "Echo #2: second") ++ ascii "\n", promptLine] := by
  obtain ⟨⟨tr, t, hrun, hret⟩, hprinted⟩ := shared_mem_test_echoes (twoStarts true) twoStarts_interactive
    [ascii "first", ascii "second", ascii "quit"] (by decide) (by decide)
  refine ⟨tr, t, hrun, (hprinted tr t 0 hrun hret).2.trans ?_⟩
  have hpieces : ([ascii "first", ascii "second", ascii "quit"].flatMap pieces).takeWhile (· ≠ ascii "quit") =
      [ascii "first", ascii "second"] := by simp +decide [pieces]
  rw [hpieces]
  decide

end KernelModules.SharedMem
