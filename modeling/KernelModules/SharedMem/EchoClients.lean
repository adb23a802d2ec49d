import KernelModules.Lib.Numbering
import KernelModules.Lib.Threads
import KernelModules.SharedMem.SharedMemoryDemo

/-!
# Clients of the shared memory demo

Any number of clients go through the four steps of `shared_mem_test.c`, again and again: clear the response, store a
message, issue the ioctl, read the response. The mutex makes the ioctl one step; nothing holds the four together.

- `Mailbox` is what the two areas are for: the last message stored, and the last response with its number unless it was
  cleared. The device shows it after every run (`run_shows`);
- the ioctls are numbered 1, 2, 3, … (`run_numbers`);
- a client reads the echo of its own message exactly if the message was still there at its ioctl and the response still
  there at its read (`shared_mem_echo`).
-/

namespace KernelModules.SharedMem

open Lib

universe u

/-! ## The protocol -/

/-- Where a client is. After the ioctl, `n` is the number `process_message` gave it. -/
inductive Pc
  | idle
  | cleared
  | stored (m : Message)
  | sent (m : Message) (n : UInt64)

inductive Act
  | clear
  | store (m : Message)
  | ioctl (m : Message) (n : UInt64)
  | read (m : Message) (n : UInt64) (response : List UInt8)

variable {C : Type u}

/-- One step of client `c`. -/
inductive ClientStep (c : C) : SharedMemDevice → Pc → Act → SharedMemDevice → Pc → Prop
  | clear {d : SharedMemDevice} : ClientStep c d .idle .clear (clearResponse d) .cleared
  | store {d : SharedMemDevice} (m : Message) : ClientStep c d .cleared (.store m) (writeMessage m d) (.stored m)
  | ioctl {d d' : SharedMemDevice} {m : Message} : sharedMemIoctl sharedMemSendMsg d = (d', 0) →
      ClientStep c d (.stored m) (.ioctl m d'.msgCount) d' (.sent m d'.msgCount)
  | read {d : SharedMemDevice} {m : Message} {n : UInt64} :
      ClientStep c d (.sent m n) (.read m n (readResponse d)) d .idle

/-- Any number of clients that have mapped the buffer. -/
def echoClients (C : Type u) [DecidableEq C] : System (Threads C SharedMemDevice Pc) (C × Act) :=
  interleave (fun d => d = sharedMemoryDemoInit) (fun l => l = .idle) ClientStep

/-! ## The mailbox -/

/-- The message to be sent, and the number and the message of the response. -/
structure Mailbox where
  request : Message
  response : Option (UInt64 × Message)

def Mailbox.empty : Mailbox := ⟨⟨[], by decide, by decide⟩, none⟩

def Mailbox.apply (b : Mailbox) : Act → Mailbox
  | .clear => { b with response := none }
  | .store m => { b with request := m }
  | .ioctl _ n => { b with response := some (n, b.request) }
  | .read _ _ _ => b

/-- The mailbox after some labels. -/
def Mailbox.after (b : Mailbox) (tr : List (C × Act)) : Mailbox := tr.foldl (fun b e => b.apply e.2) b

def mailbox (tr : List (C × Act)) : Mailbox := Mailbox.empty.after tr

/-- What a client reads from a mailbox. -/
def Mailbox.text (b : Mailbox) : List UInt8 :=
  match b.response with
  | none => []
  | some (n, m) => echo n m.bytes

/-- The areas of the device hold the mailbox. -/
structure Shows (d : SharedMemDevice) (b : Mailbox) : Prop where
  request : cstr d.userToKernel.bytes = b.request.bytes
  response : readResponse d = b.text

theorem Mailbox.after_snoc (b : Mailbox) (tr : List (C × Act)) (e : C × Act) :
    b.after (tr ++ [e]) = (b.after tr).apply e.2 := by
  simp only [Mailbox.after, List.foldl_append, List.foldl_cons, List.foldl_nil]

theorem processMessage_msgCount (d : SharedMemDevice) : (processMessage d).msgCount = d.msgCount + 1 := rfl

/-- **One step** does to the areas what its label does to the mailbox. -/
theorem clientStep_shows {c : C} {d d' : SharedMemDevice} {l l' : Pc} {act : Act} {b : Mailbox}
    (h : ClientStep c d l act d' l') (hd : Shows d b) : Shows d' (b.apply act) := by
  cases h with
  | clear => exact ⟨hd.request, cstr_zeroed⟩
  | store m => exact ⟨cstr_writeMessage m d, hd.response⟩
  | ioctl hcall =>
    obtain rfl : processMessage d = d' := congrArg Prod.fst hcall
    have hshort : (cstr d.userToKernel.bytes).length ≤ 511 := by
      rw [hd.request]
      exact b.request.short
    refine ⟨?_, ?_⟩
    · rw [processMessage_request (Nat.le_trans hshort (by decide))]
      exact hd.request
    · rw [processMessage_response hshort, hd.request]
      rfl
  | read => exact hd

/-! ## The numbers -/

def Act.number : Act → Option UInt64
  | .ioctl _ n => some n
  | _ => none

/-- The numbers of the ioctls, in their order. -/
def numbers (tr : List (C × Act)) : List UInt64 := tr.filterMap fun e => e.2.number

theorem numbers_append (tr tr' : List (C × Act)) : numbers (tr ++ tr') = numbers tr ++ numbers tr' :=
  List.filterMap_append

/-- Only an ioctl moves `msg_count`. -/
theorem clientStep_number {c : C} {d d' : SharedMemDevice} {l l' : Pc} {act : Act} (h : ClientStep c d l act d' l') :
    (act.number = none ∧ d'.msgCount = d.msgCount) ∨
      (act.number = some d'.msgCount ∧ d'.msgCount = d.msgCount + 1) := by
  cases h with
  | ioctl hcall =>
    obtain rfl : processMessage d = _ := congrArg Prod.fst hcall
    exact .inr ⟨rfl, processMessage_msgCount d⟩
  | _ => exact .inl ⟨rfl, rfl⟩

/-! ## The client's own ioctl -/

/-- What a client did before: it stored the message it is about to send; or it sent it, and did nothing since. -/
def Pc.Tied (tr : List (C × Act)) (c : C) : Pc → Prop
  | .stored m => (c, .store m) ∈ tr
  | .sent m n => ∃ before mid, tr = before ++ (c, .ioctl m n) :: mid ∧ (c, .store m) ∈ before ∧ ∀ e ∈ mid, e.1 ≠ c
  | _ => True

/-- Steps of others do not untie a client. -/
theorem Pc.Tied.snoc {tr : List (C × Act)} {c : C} {l : Pc} {e : C × Act} (h : l.Tied tr c) (he : e.1 ≠ c) :
    l.Tied (tr ++ [e]) c := by
  cases l with
  | idle => trivial
  | cleared => trivial
  | stored m => exact List.mem_append_left _ h
  | sent m n =>
    obtain ⟨before, mid, rfl, hstore, hmid⟩ := h
    refine ⟨before, mid ++ [e], by simp, hstore, fun x hx => ?_⟩
    rcases List.mem_append.mp hx with hx | hx
    · exact hmid x hx
    · rw [List.mem_singleton.mp hx]
      exact he

theorem clientStep_tied {tr : List (C × Act)} {c : C} {d d' : SharedMemDevice} {l l' : Pc} {act : Act}
    (h : ClientStep c d l act d' l') (hl : l.Tied tr c) : l'.Tied (tr ++ [(c, act)]) c := by
  cases h with
  | clear => trivial
  | store m => exact List.mem_append_right _ (List.mem_singleton_self _)
  | ioctl _ => exact ⟨tr, [], rfl, hl, fun _ hx => (by cases hx)⟩
  | read => trivial

/-! ## The response a client reads -/

/-- The steps that change the response area. -/
def Act.answers : Act → Bool
  | .clear => true
  | .ioctl _ _ => true
  | _ => false

/-- A step that does not touch the response area leaves the response. -/
theorem Mailbox.apply_quiet {b : Mailbox} {act : Act} (h : act.answers = false) :
    (b.apply act).response = b.response := by
  cases act with
  | clear | ioctl => cases h
  | store | read => rfl

theorem Mailbox.after_quiet {b : Mailbox} : ∀ {tr : List (C × Act)}, (∀ e ∈ tr, e.2.answers = false) →
    (b.after tr).response = b.response
  | [], _ => rfl
  | e :: tr, h => by
    have htail := after_quiet (b := b.apply e.2) fun x hx => h x (List.mem_cons_of_mem _ hx)
    exact htail.trans (apply_quiet (h e List.mem_cons_self))

/-- Once something touched the response, it is cleared or has the number of an ioctl since. -/
theorem Mailbox.after_touched (b : Mailbox) {tr : List (C × Act)} (h : ¬∀ e ∈ tr, e.2.answers = false) :
    (b.after tr).response = none ∨ ∃ n m, n ∈ numbers tr ∧ (b.after tr).response = some (n, m) := by
  induction tr using List.reverseRecOn with
  | nil => exact absurd (fun _ he => (by cases he)) h
  | append_singleton tr e ih =>
    obtain ⟨c, act⟩ := e
    rw [after_snoc, numbers_append]
    by_cases hact : act.answers = false
    · -- the last step is quiet, so the response was touched before
      have hbefore : ¬∀ e ∈ tr, e.2.answers = false := fun hquiet => h fun e he => by
        rcases List.mem_append.mp he with he | he
        · exact hquiet e he
        · rw [List.mem_singleton.mp he]
          exact hact
      rw [apply_quiet hact]
      rcases ih hbefore with hnone | ⟨n, m, hn, hsome⟩
      · exact .inl hnone
      · exact .inr ⟨n, m, List.mem_append_left _ hn, hsome⟩
    · cases act with
      | clear => exact .inl rfl
      | ioctl m n => exact .inr ⟨n, _, List.mem_append_right _ (List.mem_singleton_self _), rfl⟩
      | store | read => exact absurd rfl hact

/-- The mailbox after an ioctl and what followed it. -/
theorem mailbox_ioctl (before mid : List (C × Act)) (c : C) (m : Message) (n : UInt64) :
    mailbox (before ++ (c, .ioctl m n) :: mid) =
      Mailbox.after ⟨(mailbox before).request, some (n, (mailbox before).request)⟩ mid := by
  simp only [mailbox, Mailbox.after, List.foldl_append, List.foldl_cons]
  rfl

/-- **Own response.** A response with the number and the message of an ioctl is there exactly if this message was the
request and nothing touched the response since. -/
theorem text_eq_echo_iff {before mid : List (C × Act)} {c : C} {m : Message} {n : UInt64}
    (hnodup : (numbers (before ++ (c, .ioctl m n) :: mid)).Nodup) :
    (mailbox (before ++ (c, .ioctl m n) :: mid)).text = echo n m.bytes ↔
      (mailbox before).request = m ∧ ∀ e ∈ mid, e.2.answers = false := by
  have hfresh : n ∉ numbers mid := by
    rw [numbers_append, List.nodup_append] at hnodup
    exact (List.nodup_cons.mp hnodup.2.1).1
  rw [mailbox_ioctl, Mailbox.text]
  by_cases hquiet : ∀ e ∈ mid, e.2.answers = false
  · rw [Mailbox.after_quiet hquiet]
    refine ⟨fun heq => ⟨Message.ext (echo_inj heq).2, hquiet⟩, fun ⟨hreq, _⟩ => ?_⟩
    rw [hreq]
  · refine ⟨fun heq => ?_, fun h => absurd h.2 hquiet⟩
    rcases Mailbox.after_touched ⟨(mailbox before).request, some (n, (mailbox before).request)⟩ hquiet with
      hnone | ⟨k, m', hk, hsome⟩
    · rw [hnone] at heq
      exact absurd heq.symm (echo_ne_nil n m.bytes)
    · -- the response is that of a later ioctl, whose number is another one
      rw [hsome] at heq
      have hkn : k = n := (echo_inj heq).1
      exact absurd (hkn ▸ hk) hfresh

/-! ## Runs -/

section Runs

variable [DecidableEq C] {tr : List (C × Act)} {s : Threads C SharedMemDevice Pc}

/-- **Every run** leaves the areas as the mailbox says. -/
theorem run_shows (h : (echoClients C).Run tr s) : Shows s.shared (mailbox tr) := by
  refine System.Run.history (P := fun tr s => Shows s.shared (mailbox tr)) ?_ ?_ h
  · rintro ⟨d, pc⟩ ⟨rfl, -⟩
    exact ⟨cstr_zeroed, cstr_zeroed⟩
  · rintro tr s ⟨c, act⟩ s' - ih ⟨d', l', hstep, rfl⟩
    rw [mailbox, Mailbox.after_snoc]
    exact clientStep_shows hstep ih

theorem echoClients_numbered :
    (echoClients C).Numbered (fun e => e.2.number) fun s => s.shared.msgCount where
  init := by
    rintro ⟨d, pc⟩ ⟨rfl, -⟩
    rfl
  step := by
    rintro tr s ⟨c, act⟩ s' - ⟨d', l', hstep, rfl⟩
    exact clientStep_number hstep

theorem run_tied (h : (echoClients C).Run tr s) (c : C) : (s.pc c).Tied tr c := by
  refine System.Run.history (P := fun tr s => ∀ c, (s.pc c).Tied tr c) ?_ ?_ h c
  · intro s hs c
    rw [hs.2 c]
    trivial
  · rintro tr s ⟨c, act⟩ s' - ih ⟨d', l', hstep, rfl⟩
    exact (Function.forall_update_iff s.pc _).mpr
      ⟨clientStep_tied hstep (ih c), fun q hq => (ih q).snoc (Ne.symm hq)⟩

/-- A client reads what the mailbox says, after its own ioctl. -/
theorem run_read (pre post : List (C × Act)) {c : C} {m : Message} {n : UInt64} {r : List UInt8}
    (h : (echoClients C).Run (pre ++ (c, Act.read m n r) :: post) s) :
    r = (mailbox pre).text ∧
      ∃ before mid, pre = before ++ (c, Act.ioctl m n) :: mid ∧ (c, Act.store m) ∈ before ∧ ∀ e ∈ mid, e.1 ≠ c := by
  obtain ⟨s₁, s₂, hrun, ⟨d', l', hstep, -⟩, -⟩ := h.cut
  have htied := run_tied hrun c
  have hshows := (run_shows hrun).response
  simp only at hstep
  generalize s₁.pc c = l at hstep htied
  cases hstep with
  | read => exact ⟨hshows, htied⟩

/-- **The echo.** In every run with fewer than 2^64 ioctls these have different numbers. A client that reads has
stored its message and then issued its ioctl; it reads `"Echo #n: "` and its own message, with the number of this
ioctl, exactly if at the ioctl its message was the last one stored, and from there to the read nobody cleared the
response or issued an ioctl. -/
theorem shared_mem_echo (tr : List (C × Act)) (s : Threads C SharedMemDevice Pc) (h : (echoClients C).Run tr s)
    (hlt : (numbers tr).length < 2 ^ 64) :
    (numbers tr).Nodup ∧
    ∀ pre post c m n r, tr = pre ++ (c, .read m n r) :: post →
      ∃ before mid, pre = before ++ (c, .ioctl m n) :: mid ∧ (c, .store m) ∈ before ∧ (∀ e ∈ mid, e.1 ≠ c) ∧
        (r = echo n m.bytes ↔ (mailbox before).request = m ∧ ∀ e ∈ mid, e.2.answers = false) := by
  have hnodup : (numbers tr).Nodup := System.Run.numbered_nodup echoClients_numbered h hlt
  refine ⟨hnodup, ?_⟩
  rintro pre post c m n r rfl
  obtain ⟨hr, before, mid, rfl, hstore, hmid⟩ := run_read pre post h
  rw [numbers_append] at hnodup
  refine ⟨before, mid, rfl, hstore, hmid, ?_⟩
  rw [hr]
  exact text_eq_echo_iff (List.nodup_append.mp hnodup).1

end Runs

/-- A client that has stored its message issues the ioctl and reads at once. -/
theorem path_send_read [DecidableEq C] {d : SharedMemDevice} {pc : C → Pc} {c : C} {m : Message}
    (h : pc c = .stored m) :
    ∃ n r s, (echoClients C).Path ⟨d, pc⟩ [(c, Act.ioctl m n), (c, Act.read m n r)] s := by
  let d' := processMessage d
  refine ⟨d'.msgCount, readResponse d', _,
    .cons ⟨d', .sent m d'.msgCount, ?_, rfl⟩ (.single ⟨d', .idle, ?_, rfl⟩)⟩
  · simp only [h]
    exact .ioctl (sharedMemIoctl_send d)
  · simp only [Function.update_self]
    exact .read

def messageA : Message := ⟨ascii "a", by decide, by decide⟩
def messageB : Message := ⟨ascii "b", by decide, by decide⟩

/-- The second client stores its message between the store and the ioctl of the first one. -/
def storedOver (n : UInt64) (r : List UInt8) : List (Bool × Act) :=
  [(false, .clear), (true, .clear), (false, .store messageA), (true, .store messageB)] ++
    [(false, .ioctl messageA n), (false, .read messageA n r)]

/-- The first client reads the echo of the second client's message. -/
theorem shared_mem_echo_of_other : ∃ n r s, (echoClients Bool).Run (storedOver n r) s ∧ r = echo n messageB.bytes ∧
    r ≠ echo n messageA.bytes := by
  obtain ⟨d, pc, hstored, hpc⟩ : ∃ d pc, (echoClients Bool).Run [(false, Act.clear), (true, Act.clear),
      (false, Act.store messageA), (true, Act.store messageB)] ⟨d, pc⟩ ∧ pc false = .stored messageA :=
    ⟨_, _, ⟨⟨sharedMemoryDemoInit, fun _ => .idle⟩, ⟨rfl, fun _ => rfl⟩,
      .cons ⟨_, _, .clear, rfl⟩ <| .cons ⟨_, _, .clear, rfl⟩ <| .cons ⟨_, _, .store messageA, rfl⟩ <|
      .single ⟨_, _, .store messageB, rfl⟩⟩, rfl⟩
  obtain ⟨n, r, s, hpath⟩ := path_send_read hpc
  have hrun : (echoClients Bool).Run (storedOver n r) s := hstored.extend hpath
  have hr : r = echo n messageB.bytes :=
    (run_read [(false, Act.clear), (true, Act.clear), (false, Act.store messageA), (true, Act.store messageB),
      (false, Act.ioctl messageA n)] [] hrun).1
  refine ⟨n, r, s, hrun, hr, fun hown => ?_⟩
  have hbytes := (echo_inj (hr.symm.trans hown)).2
  exact absurd hbytes (by decide)

/-- A client alone. -/
def oneClient (n : UInt64) (r : List UInt8) : List (Unit × Act) :=
  [((), .clear), ((), .store messageA)] ++ [((), .ioctl messageA n), ((), .read messageA n r)]

theorem shared_mem_echo_oneClient :
    ∃ n r s, (echoClients Unit).Run (oneClient n r) s ∧ r = echo n messageA.bytes := by
  obtain ⟨d, pc, hstored, hpc⟩ : ∃ d pc, (echoClients Unit).Run [((), Act.clear), ((), Act.store messageA)] ⟨d, pc⟩ ∧
      pc () = .stored messageA :=
    ⟨_, _, ⟨⟨sharedMemoryDemoInit, fun _ => .idle⟩, ⟨rfl, fun _ => rfl⟩,
      .cons ⟨_, _, .clear, rfl⟩ <| .single ⟨_, _, .store messageA, rfl⟩⟩, rfl⟩
  obtain ⟨n, r, s, hpath⟩ := path_send_read hpc
  have hrun : (echoClients Unit).Run (oneClient n r) s := hstored.extend hpath
  obtain ⟨before, mid, hpre, -, hmid, hecho⟩ := (shared_mem_echo (oneClient n r) s hrun (show 1 < 2 ^ 64 by decide)).2
    [((), Act.clear), ((), Act.store messageA), ((), Act.ioctl messageA n)] [] () messageA n r rfl
  have hnil : mid = [] := List.eq_nil_iff_forall_not_mem.mpr fun e he => hmid e he rfl
  subst hnil
  have hlast : [((), Act.clear), ((), Act.store messageA)] ++ [((), Act.ioctl messageA n)] =
      before ++ [((), Act.ioctl messageA n)] :=
    hpre
  have hbefore := List.append_cancel_right hlast
  subst hbefore
  exact ⟨n, r, s, hrun, hecho.mpr ⟨rfl, fun e he => (by cases he)⟩⟩

end KernelModules.SharedMem
