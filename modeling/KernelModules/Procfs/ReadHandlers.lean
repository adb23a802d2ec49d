import KernelModules.Locks.DeadlockDemo
import KernelModules.Locks.MutexDemo
import KernelModules.Locks.RwlockDemo
import KernelModules.Locks.SpinlockDemo

/-!
# The read handlers of the proc files

Seven handlers end the same way: a text is printed to an array, `copy_to_user` copies as many bytes as it is long, and
the position is set to its length; a call at a later position returns 0. None of them looks at `count`. A handler is
given by its array, the error it may give up with, and the text it has in the state it is called in; `Reachable` are
those that the runs of the modules give.

- the texts of reachable handlers fit their arrays (`Reachable.fits`), so what is copied is the text (`copied_text`);
- a reader that reads until 0 has the text (`readAll_pieces`);
- a call stores no more than `count` bytes only if the text, or what can be accessed of the user's buffer, is no longer
  than that (`proc_reads_count`).
-/

namespace KernelModules.Procfs

open Lib Locks

/-! ## The code -/

/-- `"Hello from kernel! PID: %d\n"`. -/
def helloText (pid : Int32) : List UInt8 := ascii "Hello from kernel! PID: " ++ ascii (toString pid) ++ ascii "\n"

/-- A handler in a state: the array it prints to, the error it may give up with before, and the text. -/
structure ReadHandler where
  bufferSize : Nat
  early : Option Int
  text : List UInt8

def procRead (pid : Int32) : ReadHandler := ⟨1024, none, helloText pid⟩

def spinlockRead (localData : Int32) (localCount : UInt64) : ReadHandler :=
  ⟨256, some (-eNomem), Spinlock.spinlockText localData localCount⟩

def mutexDemoRead (localData : Int32) (localMsg : List UInt8) (pid : Int32) : ReadHandler :=
  ⟨256, some (-eRestartsys), MutexDemo.mutexText localData (cstr localMsg) pid⟩

def semaphoreDemoRead (myResourceId pid : Int32) (userCount : Int) : ReadHandler :=
  ⟨256, some (-eRestartsys), MutexSem.semaphoreText myResourceId pid.toInt userCount⟩

def statusRead (sharedData : Int32) (sharedMessage : List UInt8) (activeUsers : Int) (resourceIdCounter : Int32) :
    ReadHandler :=
  ⟨256, none, MutexDemo.statusText sharedData (cstr sharedMessage) activeUsers resourceIdCounter⟩

def readerRead (localData : Int32) (localTime : UInt64) : ReadHandler :=
  ⟨128, none, Rwlock.rwlockText localData localTime⟩

def deadlockDemoRead (acquired : Bool) (pid : Int32) : ReadHandler :=
  ⟨128, none, if acquired then acquiredText pid.toInt else failedText⟩

/-- A call: the bytes asked for, those that can be accessed at the user's buffer, and whether the allocation fails or a
signal comes where the handler checks for it. -/
structure ReadCall where
  count : Nat
  room : Nat
  givesUp : Bool

/-- What a call does: the bytes it stores at the user's buffer, the position it leaves, and what it returns. -/
structure ReadResult where
  written : List UInt8
  pos : Int
  ret : Int

/-- Kernel memory from `output` on, after `snprintf(output, size, ...)`. -/
def printed (mem : Nat → UInt8) (size : Nat) (text : List UInt8) (i : Nat) : UInt8 :=
  ((text.take (size - 1) ++ [0])[i]?).getD (mem i)

/-- `copy_to_user(buffer, output, len)` and what follows; `count` is not looked at. -/
def ReadHandler.copyOut (h : ReadHandler) (mem : Nat → UInt8) (pos : Int) (c : ReadCall) : ReadResult :=
  let len := h.text.length
  let written := copiedOut (printed mem h.bufferSize h.text) 0 len c.room
  if c.room < len then ⟨written, pos, -eFault⟩ else ⟨written, len, len⟩

/-- The skeleton of the handlers. -/
def ReadHandler.read (h : ReadHandler) (mem : Nat → UInt8) (pos : Int) (c : ReadCall) : ReadResult :=
  if pos > 0 then ⟨[], pos, 0⟩
  else match c.givesUp, h.early with
    | true, some e => ⟨[], pos, e⟩
    | _, _ => h.copyOut mem pos c

/-- One call after another, each with the kernel memory it finds, while the text stays the same. -/
def ReadHandler.readAll (h : ReadHandler) : Int → List ((Nat → UInt8) × ReadCall) → List ReadResult
  | _, [] => []
  | pos, (mem, c) :: cs => h.read mem pos c :: h.readAll (h.read mem pos c).pos cs

/-- What a reader has of the calls that returned some bytes. -/
def pieces (rs : List ReadResult) : List UInt8 := rs.flatMap fun r => if r.ret > 0 then r.written else []

/-! ## Reachable handlers -/

/-- The handlers in the states of their modules: a process of a run is where the text is printed. -/
inductive Reachable : ReadHandler → Prop
  | procRead (pid : Int32) : Reachable (procRead pid)
  | spinlockRead {P : Type} [DecidableEq P] {tr : List (P × Spinlock.Act)}
      {s : Threads P (Spinlock.Shared P) Spinlock.Pc} {p : P} {localData : Int32} {localCount : UInt64} :
      (Spinlock.spinlockDemo P).Run tr s → s.pc p = .copying localData localCount →
      Reachable (spinlockRead localData localCount)
  | mutexDemoRead {P : Type} [DecidableEq P] {pid : P → Int32} {tr : List (P × MutexDemo.Act)}
      {s : Threads P (MutexDemo.Shared P) MutexDemo.Pc} {p : P} {localData : Int32} {localMsg : List UInt8} :
      (MutexDemo.mutexDemo pid).Run tr s → s.pc p = .sleeping localData localMsg →
      Reachable (mutexDemoRead localData localMsg (pid p))
  | semaphoreDemoRead {P : Type} [DecidableEq P] {pid : P → Int32} {tr : List (P × MutexSem.Act)}
      {s : Threads P (MutexSem.Pool P) MutexSem.Pc} {p : P} {userCount : Int} {id : Int32} :
      (MutexSem.semaphoreDemo fun p => (pid p).toInt).Run tr s → s.pc p = .inUse userCount id →
      Reachable (semaphoreDemoRead id (pid p) userCount)
  /-- The two halves of the module share nothing, so any two states of them can meet. -/
  | statusRead {P Q : Type} [DecidableEq P] [DecidableEq Q] {pid : P → Int32} {qid : Q → Int32}
      {tr : List (P × MutexDemo.Act)} {s : Threads P (MutexDemo.Shared P) MutexDemo.Pc}
      {tr' : List (Q × MutexSem.Act)} {s' : Threads Q (MutexSem.Pool Q) MutexSem.Pc} :
      (MutexDemo.mutexDemo pid).Run tr s → (MutexSem.semaphoreDemo fun q => (qid q).toInt).Run tr' s' →
      Reachable (statusRead s.shared.sharedData s.shared.sharedMessage s'.shared.activeUsers
        s'.shared.resourceIdCounter)
  | readerRead {P : Type} [DecidableEq P] {loader : P} {tr : List (P × Rwlock.Act)}
      {s : Threads P (Rwlock.Shared P) Rwlock.Pc} {p : P} {localData : Int32} {localTime : UInt64} :
      (Rwlock.rwlockDemo loader).Run tr s → s.pc p = .copying localData localTime →
      Reachable (readerRead localData localTime)
  | acquired {P : Type} [DecidableEq P] {pid : P → Int32} {tr : List (P × Act)}
      {s : Threads P (Resource → Option P) Pc} {p : P} :
      (deadlockDemo fun p => (pid p).toInt).Run tr s → s.pc p = .critical → Reachable (deadlockDemoRead true (pid p))
  | failed {P : Type} [DecidableEq P] {pid : P → Int32} {tr : List (P × Act)}
      {s : Threads P (Resource → Option P) Pc} {p : P} :
      (deadlockDemo fun p => (pid p).toInt).Run tr s → s.pc p = .busy → Reachable (deadlockDemoRead false (pid p))

theorem length_decimal_uint64 (n : UInt64) : (decimal n.toNat).length ≤ 20 :=
  length_decimal_le (by decide) (lt_of_lt_of_le n.toNat_lt (by decide))

theorem fits_helloText (pid : Int32) : Fits 1024 (helloText pid) := by
  have hpid := length_toString_int32 pid
  have h₁ : (ascii "Hello from kernel! PID: ").length = 24 := rfl
  have h₂ : (ascii "\n").length = 1 := rfl
  simp only [Fits, helloText, List.length_append, h₁, h₂]
  omega

theorem fits_spinlockText (data : Int32) (count : UInt64) : Fits 256 (Spinlock.spinlockText data count) := by
  have hdata := length_toString_int32 data
  have hcount := length_decimal_uint64 count
  have h₁ : (ascii "Shared data: ").length = 13 := rfl
  have h₂ : (ascii "\nOperations: ").length = 13 := rfl
  have h₃ : (ascii "\n").length = 1 := rfl
  simp only [Fits, Spinlock.spinlockText, List.length_append, h₁, h₂, h₃]
  omega

theorem fits_rwlockText (data : Int32) (time : UInt64) : Fits 128 (Rwlock.rwlockText data time) := by
  have hdata := length_toString_int32 data
  have htime := length_decimal_uint64 time
  have h₁ : (ascii "Data: ").length = 6 := rfl
  have h₂ : (ascii " (updated at jiffies: ").length = 22 := rfl
  have h₃ : (ascii ")\n").length = 2 := rfl
  simp only [Fits, Rwlock.rwlockText, List.length_append, h₁, h₂, h₃]
  omega

theorem fits_acquiredText (pid : Int32) : Fits 128 (acquiredText pid.toInt) := by
  have hpid : (ascii (toString pid.toInt)).length ≤ 11 := length_toString_int32 pid
  have h₁ : (ascii "Successfully acquired both resources (PID: ").length = 43 := rfl
  have h₂ : (ascii ")\n").length = 2 := rfl
  simp only [Fits, acquiredText, List.length_append, h₁, h₂]
  omega

theorem fits_failedText : Fits 128 failedText := ⟨by decide, by decide⟩

/-- **Every reachable handler** has a text that fits its array. -/
theorem Reachable.fits {h : ReadHandler} (hr : Reachable h) : Fits h.bufferSize h.text := by
  cases hr with
  | procRead pid => exact fits_helloText pid
  | spinlockRead => exact fits_spinlockText _ _
  | @mutexDemoRead _ _ pid _ _ p _ _ hrun hpc =>
    have hshaped := (MutexDemo.run_shaped hrun).2 p
    rw [hpc] at hshaped
    exact MutexDemo.fits_mutexText hshaped
  | @semaphoreDemoRead _ _ pid _ _ p _ _ hrun hpc =>
    have hreports := (MutexSem.run_accounted hrun).reports p
    rw [hpc] at hreports
    exact MutexDemo.fits_semaphoreText (by have := hreports.1; omega) hreports.2
  | statusRead hrun hrun' =>
    obtain ⟨n, k, -, htotal, hactive, hkn⟩ := (MutexSem.run_accounted hrun').users_le
    exact MutexDemo.fits_statusText (MutexDemo.run_shaped hrun).1.length (by omega) (by omega)
  | readerRead => exact fits_rwlockText _ _
  | acquired => exact fits_acquiredText _
  | failed => exact fits_failedText

theorem Reachable.early {h : ReadHandler} (hr : Reachable h) {e : Int} (he : h.early = some e) : e < 0 := by
  cases hr with
  | spinlockRead | mutexDemoRead | semaphoreDemoRead =>
    obtain rfl := Option.some.inj he
    decide
  | _ => cases he

/-! ## One call -/

section OneCall

variable {h : ReadHandler} {mem : Nat → UInt8} {pos : Int} {c : ReadCall}

/-- A text that fits its array is copied as it is. -/
theorem copied_text (hfits : Fits h.bufferSize h.text) (hroom : h.text.length ≤ c.room) :
    copiedOut (printed mem h.bufferSize h.text) 0 h.text.length c.room = h.text := by
  have htake : h.text.take (h.bufferSize - 1) = h.text := List.take_of_length_le (by have := hfits.2; omega)
  rw [copiedOut, Nat.min_eq_left hroom]
  rw [slice_eq_map]
  refine List.ext_getElem (by simp) fun i hi hi' => ?_
  simp [printed, htake, List.getElem?_append_left hi', hi']

/-- A call that is not behind the text fails and leaves the position, or returns the text. -/
theorem read_cases (hfits : Fits h.bufferSize h.text) (hearly : ∀ e, h.early = some e → e < 0) (hpos : ¬pos > 0)
    (mem : Nat → UInt8) (c : ReadCall) :
    ((h.read mem pos c).pos = pos ∧ (h.read mem pos c).ret < 0) ∨
      h.read mem pos c = ⟨h.text, h.text.length, h.text.length⟩ := by
  rw [ReadHandler.read, if_neg hpos]
  split
  · rename_i e _ he
    exact .inl ⟨rfl, hearly e he⟩
  · rw [ReadHandler.copyOut]
    split
    · exact .inl ⟨rfl, (by decide : -eFault < 0)⟩
    · rename_i hroom
      exact .inr (by rw [copied_text hfits (by omega)])

/-- **The user's buffer.** A call stores and returns at most `count` bytes exactly if it is at the end, gives up, or the
text, or what can be accessed of the buffer, is no longer than `count`. -/
theorem proc_reads_count (hearly : ∀ e, h.early = some e → e < 0) :
    ((h.read mem pos c).written.length ≤ c.count ∧ (h.read mem pos c).ret ≤ c.count) ↔
      pos > 0 ∨ (c.givesUp = true ∧ h.early ≠ none) ∨ min h.text.length c.room ≤ c.count := by
  have hlen : (copiedOut (printed mem h.bufferSize h.text) 0 h.text.length c.room).length = min h.text.length c.room :=
    length_copiedOut _ _ _ _
  rw [ReadHandler.read]
  split
  · rename_i hpos
    exact iff_of_true ⟨Nat.zero_le _, Int.natCast_nonneg _⟩ (.inl hpos)
  · rename_i hpos
    split
    · rename_i e hup he
      have := hearly e he
      exact iff_of_true ⟨Nat.zero_le _, by dsimp only; omega⟩ (.inr (.inl ⟨hup, by simp [he]⟩))
    · rename_i hnot
      have hgo : ¬(c.givesUp = true ∧ h.early ≠ none) := by
        rintro ⟨hup, hearly⟩
        obtain ⟨e, he⟩ := Option.ne_none_iff_exists'.mp hearly
        exact hnot e hup he
      rw [or_iff_right hpos, or_iff_right hgo, ReadHandler.copyOut]
      split
      · rename_i hroom
        rw [Nat.min_eq_right hroom.le] at hlen ⊢
        dsimp only
        rw [hlen]
        refine and_iff_left ?_
        have : (0 : Int) ≤ eFault := by decide
        omega
      · rename_i hroom
        rw [Nat.min_eq_left (Nat.le_of_not_lt hroom)] at hlen ⊢
        dsimp only
        rw [hlen, Nat.cast_le, and_self]

end OneCall

/-! ## One call after another -/

section Calls

variable {h : ReadHandler} {cs : List ((Nat → UInt8) × ReadCall)} {pre post : List ReadResult} {r : ReadResult}

/-- Behind the text the next call returns 0. -/
theorem readAll_end {pos : Int} (hpos : pos > 0) (hall : h.readAll pos cs = pre ++ r :: post)
    (hpre : ∀ q ∈ pre, q.ret ≠ 0) : pre = [] := by
  cases cs with
  | nil => simp [ReadHandler.readAll] at hall
  | cons call cs =>
    cases pre with
    | nil => rfl
    | cons q pre =>
      rw [ReadHandler.readAll, ReadHandler.read, if_pos hpos, List.cons_append] at hall
      obtain ⟨rfl, -⟩ := List.cons.inj hall
      exact absurd rfl (hpre _ List.mem_cons_self)

/-- **A reader that reads until 0** has the text, whatever calls failed on the way. -/
theorem readAll_pieces (hfits : Fits h.bufferSize h.text) (hearly : ∀ e, h.early = some e → e < 0)
    (hall : h.readAll 0 cs = pre ++ r :: post) (hr : r.ret = 0) (hpre : ∀ q ∈ pre, q.ret ≠ 0) :
      pieces pre = h.text := by
  -- as long as calls fail the position stays 0; the first that succeeds returns the whole text
  have hlen : (0 : Int) < h.text.length := Int.natCast_pos.mpr hfits.1
  induction cs generalizing pre with
  | nil => simp [ReadHandler.readAll] at hall
  | cons call cs ih =>
    obtain ⟨mem, c⟩ := call
    rw [ReadHandler.readAll] at hall
    have hcases := read_cases hfits hearly (by decide : ¬(0 : Int) > 0) mem c
    cases pre with
    | nil =>
      obtain ⟨rfl, -⟩ := List.cons.inj hall
      rcases hcases with ⟨-, hret⟩ | hread
      · omega
      · rw [hread] at hr
        exact absurd hr hlen.ne'
    | cons q pre =>
      obtain ⟨rfl, hrest⟩ := List.cons.inj hall
      have hpre' : ∀ q ∈ pre, q.ret ≠ 0 := fun q hq => hpre q (List.mem_cons_of_mem _ hq)
      rcases hcases with ⟨hpos, hret⟩ | hread
      · rw [hpos] at hrest
        have hnone : pieces (h.read mem 0 c :: pre) = pieces pre := by
          simp only [pieces, List.flatMap_cons, if_neg (not_lt.mpr hret.le), List.nil_append]
        rw [hnone]
        exact ih hrest hpre'
      · rw [hread] at hrest ⊢
        have hend : pre = [] := readAll_end hlen hrest hpre'
        simp [hend, pieces]

end Calls

/-- **The read handlers.** In every reachable state a call stores and returns at most `count` bytes exactly if it is
behind the text, gives up, or the text, or what can be accessed of the buffer, is no longer than `count`. What a
reader gets before the first 0 is the text, and a call after a successful one returns 0. -/
theorem proc_reads (h : ReadHandler) (hr : Reachable h) :
    (∀ mem pos c, ((h.read mem pos c).written.length ≤ c.count ∧ (h.read mem pos c).ret ≤ c.count) ↔
      pos > 0 ∨ (c.givesUp = true ∧ h.early ≠ none) ∨ min h.text.length c.room ≤ c.count) ∧
    (∀ cs pre r post, h.readAll 0 cs = pre ++ r :: post → r.ret = 0 → (∀ q ∈ pre, q.ret ≠ 0) → pieces pre = h.text) ∧
    ∀ mem c mem' c', (h.read mem 0 c).ret > 0 → (h.read mem' (h.read mem 0 c).pos c').ret = 0 := by
  have hearly : ∀ e, h.early = some e → e < 0 := fun e he => hr.early he
  refine ⟨fun mem pos c => proc_reads_count hearly, fun cs pre r post => readAll_pieces hr.fits hearly, ?_⟩
  intro mem c mem' c' hret
  rcases read_cases hr.fits hearly (by decide : ¬(0 : Int) > 0) mem c with ⟨-, hneg⟩ | hread
  · omega
  · rw [hread] at hret ⊢
    rw [ReadHandler.read, if_pos hret]

/-- A buffer of 26 bytes holds the greeting of process 1, and the text is there after two calls. -/
theorem proc_reads_hello : Reachable (procRead 1) ∧
    ((procRead 1).read (fun _ => 0) 0 ⟨26, 26, false⟩).written.length ≤ 26 ∧
    pieces [(procRead 1).read (fun _ => 0) 0 ⟨26, 26, false⟩] = ascii "Hello from kernel! PID: 1\n" := by
  obtain ⟨hcount, htext, -⟩ := proc_reads (procRead 1) (.procRead 1)
  refine ⟨.procRead 1, ((hcount (fun _ => 0) 0 ⟨26, 26, false⟩).mpr (.inr (.inr (by decide)))).1, ?_⟩
  exact htext [(fun _ => 0, ⟨26, 26, false⟩), (fun _ => 0, ⟨26, 26, false⟩)] _ ⟨[], 26, 0⟩ [] rfl rfl (by decide)

/-- Asked for one byte, the handler stores and returns all 26. -/
theorem proc_reads_overrun : Reachable (procRead 1) ∧
    ((procRead 1).read (fun _ => 0) 0 ⟨1, 4096, false⟩).written.length = 26 ∧
    ((procRead 1).read (fun _ => 0) 0 ⟨1, 4096, false⟩).ret = 26 :=
  ⟨.procRead 1, by decide, by decide⟩

end KernelModules.Procfs
