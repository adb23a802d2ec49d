import KernelModules.Lib.CString
import KernelModules.Lib.Increments

/-!
# A threaded interrupt and its statistics

`my_interrupt` runs in hard interrupts and, called directly, in writes of 1 and 2 to the proc file;
`my_threaded_interrupt` runs in the IRQ thread, which hard interrupts wake, and in writes of 2. The handlers count
themselves in `primary_handler_count` and `thread_handler_count`, which are atomic, in `shared_counter` under
`shared_data_mutex`, and in `irq_counter`, which is neither.

- every run of the threaded handler is paid for by an interrupt (`move_credit`), so it has the fewer runs (`Account`);
- `shared_counter` and `shared_message` follow the mutex (`Consistent`);
- `irq_counter` is incremented in two halves (`move_follows`), so it agrees with the interrupts exactly if no two
  increments overlap (`threaded_irq_statistics`).
-/

namespace KernelModules.Irq.ThreadedIrq

open Lib Lib.Increments

universe u

/-! ## The code -/

def messageSize : Nat := 256

def initialMessage : List UInt8 := ascii "Initial message"

def threadMessage (localCounter : Int32) : List UInt8 :=
  ascii "Processed by thread handler #" ++ ascii (toString localCounter)

/-- The module's data, and what the kernel keeps of the IRQ thread. -/
structure Shared (P : Type u) where
  irqCounter : Int32
  primaryHandlerCount : Int32
  threadHandlerCount : Int32
  sharedDataMutex : Option P
  sharedMessage : List UInt8
  sharedCounter : Int32
  /-- The thread was woken and has not started on it. -/
  runThread : Bool
  /-- The thread is in `my_threaded_interrupt`. -/
  threadBusy : Bool

/-- Who called `my_interrupt`. -/
inductive Caller
  | hardware
  /-- A write of 1, or of 2, of so many bytes. -/
  | write (full : Bool) (count : Nat)

/-- Places of `my_threaded_interrupt`. -/
inductive Stage
  | count
  | lock
  | load
  /-- `shared_counter` is read and not yet stored. -/
  | store (v : Int32)
  /-- At `local_counter = shared_counter`. -/
  | copy
  | format (localCounter : Int32)
  | unlock
  /-- The allocation, the sleep and the calculation. -/
  | rest

/-- Where a context is. -/
inductive Pc
  | idle
  | entry (w : UserText)
  /-- `my_interrupt`, at `atomic_inc(&primary_handler_count)`. -/
  | primary (c : Caller)
  | load (c : Caller)
  /-- `irq_counter` is read and not yet stored. -/
  | store (c : Caller) (v : Int32)
  /-- `my_interrupt` has returned `IRQ_WAKE_THREAD`. -/
  | returned (c : Caller)
  /-- In `my_threaded_interrupt`, called by the IRQ thread or by a write of so many bytes. -/
  | threaded (caller : Option Nat) (stage : Stage)
  | done (ret : Int)

inductive Act
  | call (w : UserText)
  | refuse
  | accept
  | irq
  | incPrimary
  | loadIrq
  | storeIrq
  | wake
  | finishPrimary
  | callThreaded
  | startThread
  | incThread
  | lock
  | loadShared
  | storeShared
  | copyShared
  | format
  | unlock
  | finishThreaded

/-- In no handler. -/
def Pc.outside : Pc → Bool
  | .idle => true
  | .done _ => true
  | _ => false

variable {P : Type u}

/-- One step of context `p`. -/
inductive Move (p : P) : Shared P → Pc → Act → Shared P → Pc → Prop
  | call {g : Shared P} {l : Pc} (w : UserText) : l.outside = true → Move p g l (.call w) g (.entry w)
  | refuse {g : Shared P} {w : UserText} {e : Int} : userInt 8 w = .error e → Move p g (.entry w) .refuse g (.done e)
  | invalid {g : Shared P} {w : UserText} {value : Int32} : userInt 8 w = .ok value → value ≠ 1 → value ≠ 2 →
      Move p g (.entry w) .refuse g (.done (-eInval))
  | writeOne {g : Shared P} {w : UserText} : userInt 8 w = .ok 1 →
      Move p g (.entry w) .accept g (.primary (.write false w.count))
  | writeTwo {g : Shared P} {w : UserText} : userInt 8 w = .ok 2 →
      Move p g (.entry w) .accept g (.primary (.write true w.count))
  /-- A hard interrupt. -/
  | irq {g : Shared P} {l : Pc} : l.outside = true → Move p g l .irq g (.primary .hardware)
  | incPrimary {g : Shared P} {c : Caller} : Move p g (.primary c) .incPrimary
      { g with primaryHandlerCount := g.primaryHandlerCount + 1 } (.load c)
  | loadIrq {g : Shared P} {c : Caller} : Move p g (.load c) .loadIrq g (.store c g.irqCounter)
  | storeIrq {g : Shared P} {c : Caller} {v : Int32} :
      Move p g (.store c v) .storeIrq { g with irqCounter := v + 1 } (.returned c)
  /-- The kernel wakes the IRQ thread; wake-ups before it starts are one. -/
  | wake {g : Shared P} : Move p g (.returned .hardware) .wake { g with runThread := true } .idle
  | finishPrimary {g : Shared P} {n : Nat} : Move p g (.returned (.write false n)) .finishPrimary g (.done n)
  | callThreaded {g : Shared P} {n : Nat} :
      Move p g (.returned (.write true n)) .callThreaded g (.threaded (some n) .count)
  | startThread {g : Shared P} : g.runThread = true → g.threadBusy = false →
      Move p g .idle .startThread { g with runThread := false, threadBusy := true } (.threaded none .count)
  | incThread {g : Shared P} {k : Option Nat} : Move p g (.threaded k .count) .incThread
      { g with threadHandlerCount := g.threadHandlerCount + 1 } (.threaded k .lock)
  | lock {g : Shared P} {k : Option Nat} : g.sharedDataMutex = none →
      Move p g (.threaded k .lock) .lock { g with sharedDataMutex := some p } (.threaded k .load)
  | loadShared {g : Shared P} {k : Option Nat} :
      Move p g (.threaded k .load) .loadShared g (.threaded k (.store g.sharedCounter))
  | storeShared {g : Shared P} {k : Option Nat} {v : Int32} :
      Move p g (.threaded k (.store v)) .storeShared { g with sharedCounter := v + 1 } (.threaded k .copy)
  | copyShared {g : Shared P} {k : Option Nat} :
      Move p g (.threaded k .copy) .copyShared g (.threaded k (.format g.sharedCounter))
  | format {g : Shared P} {k : Option Nat} {n : Int32} : Move p g (.threaded k (.format n)) .format
      { g with sharedMessage := snprintf g.sharedMessage messageSize (threadMessage n) } (.threaded k .unlock)
  | unlock {g : Shared P} {k : Option Nat} :
      Move p g (.threaded k .unlock) .unlock { g with sharedDataMutex := none } (.threaded k .rest)
  | finishThread {g : Shared P} :
      Move p g (.threaded none .rest) .finishThreaded { g with threadBusy := false } .idle
  | finishWrite {g : Shared P} {n : Nat} : Move p g (.threaded (some n) .rest) .finishThreaded g (.done n)

/-- After `my_init`. -/
def initial : Shared P :=
  ⟨0, 0, 0, none, strcpy (List.replicate messageSize 0) initialMessage, 0, false, false⟩

/-- Any number of contexts after `my_init`. -/
def threadedIrq [DecidableEq P] : System (Threads P (Shared P) Pc) (P × Act) :=
  interleave (fun g => g = initial) (fun l => l = .idle) Move

/-! ## What a context stands for -/

/-- `primary_handler_count` is incremented. -/
def Act.primary : Act → Bool
  | .incPrimary => true
  | _ => false

/-- `thread_handler_count` is incremented. -/
def Act.threaded : Act → Bool
  | .incThread => true
  | _ => false

/-- `shared_counter` is incremented. -/
def Act.shared : Act → Bool
  | .storeShared => true
  | _ => false

/-- The halves of `irq_counter++`. -/
def half : Act → Option Inc
  | .loadIrq => some .load
  | .storeIrq => some .store
  | _ => none

/-- The value of `irq_counter` that is loaded and not yet stored. -/
def Pc.loaded : Pc → Option Int32
  | .store _ v => some v
  | _ => none

/-- An interrupt is counted and `irq_counter` not yet loaded. -/
def Pc.unloaded : Pc → Bool
  | .load _ => true
  | _ => false

/-- An interrupt is counted that no run of the threaded handler has used up. -/
def Pc.credit : Pc → Bool
  | .load _ => true
  | .store _ _ => true
  | .returned _ => true
  | .threaded _ .count => true
  | _ => false

/-- A run of the threaded handler is counted and `shared_counter` not yet incremented. -/
def Pc.uncounted : Pc → Bool
  | .threaded _ .lock => true
  | .threaded _ .load => true
  | .threaded _ (.store _) => true
  | _ => false

/-- The places between `mutex_lock` and `mutex_unlock`. -/
def Pc.holds : Pc → Bool
  | .threaded _ .load => true
  | .threaded _ (.store _) => true
  | .threaded _ .copy => true
  | .threaded _ (.format _) => true
  | .threaded _ .unlock => true
  | _ => false

/-- `shared_counter` is incremented and the message not yet made. -/
def Pc.stale : Pc → Bool
  | .threaded _ .copy => true
  | .threaded _ (.format _) => true
  | _ => false

/-- What the holder of the mutex knows of `shared_counter`, which was incremented `j` times. -/
def Pc.Knows (g : Shared P) (j : Nat) : Pc → Prop
  | .threaded _ (.store v) => v = g.sharedCounter
  | .threaded _ .copy => 0 < j
  | .threaded _ (.format n) => n = g.sharedCounter ∧ 0 < j
  | _ => True

/-- The message after `j` increments. -/
def messageAfter (j : Nat) : List UInt8 := if j = 0 then initialMessage else threadMessage (Int32.ofNat j)

/-! ## One step -/

section OneStep

variable {p : P} {g g' : Shared P} {l l' : Pc} {act : Act}

theorem Pc.outside_spec (h : l.outside = true) :
    l.loaded = none ∧ l.unloaded = false ∧ l.credit = false ∧ l.uncounted = false ∧ l.holds = false := by
  cases l with
  | idle | done => exact ⟨rfl, rfl, rfl, rfl, rfl⟩
  | _ => cases h

theorem Pc.holds_of_stale (h : l.stale = true) : l.holds = true := by
  cases l with
  | threaded k stage =>
    cases stage with
    | copy | format => rfl
    | _ => cases h
  | _ => cases h

/-- Who does not hold the mutex need not know anything. -/
theorem Pc.knows_of_not_holds (g : Shared P) (j : Nat) (h : l.holds = false) : l.Knows g j := by
  cases l with
  | threaded k stage =>
    cases stage with
    | store | copy | format => cases h
    | _ => trivial
  | _ => trivial

theorem move_counts (h : Move p g l act g' l') :
    g'.primaryHandlerCount = g.primaryHandlerCount + Int32.ofNat act.primary.toNat ∧
      g'.threadHandlerCount = g.threadHandlerCount + Int32.ofNat act.threaded.toNat := by
  cases h <;> exact ⟨by simp [Act.primary], by simp [Act.threaded]⟩

/-- An interrupt goes to the threaded handler, to the flag of the IRQ thread, or is lost. -/
theorem move_credit (h : Move p g l act g' l') : l'.credit.toNat + act.threaded.toNat + g'.runThread.toNat ≤
    l.credit.toNat + act.primary.toNat + g.runThread.toNat := by
  cases h with
  | call | irq => simp [Pc.credit, Act.threaded]
  | startThread hrun hbusy => simp [hrun, Pc.credit, Act.threaded, Act.primary]
  | _ => simp [Pc.credit, Act.threaded, Act.primary]

theorem move_mutex (h : Move p g l act g' l') :
    (g'.sharedDataMutex = g.sharedDataMutex ∧ l'.holds = l.holds) ∨
      (g.sharedDataMutex = none ∧ g'.sharedDataMutex = some p ∧ l'.holds = true) ∨
      (l.holds = true ∧ g'.sharedDataMutex = none ∧ l'.holds = false) := by
  cases h with
  | call w hl | irq hl =>
    obtain ⟨-, -, -, -, hholds⟩ := Pc.outside_spec hl
    exact .inl ⟨rfl, hholds.symm⟩
  | lock hfree => exact .inr (.inl ⟨hfree, rfl, rfl⟩)
  | unlock => exact .inr (.inr ⟨rfl, rfl, rfl⟩)
  | _ => exact .inl ⟨rfl, rfl⟩

theorem move_uncounted (h : Move p g l act g' l') :
    l'.uncounted.toNat + act.shared.toNat = l.uncounted.toNat + act.threaded.toNat := by
  cases h with
  | call w hl | irq hl =>
    obtain ⟨-, -, -, huncounted, -⟩ := Pc.outside_spec hl
    rw [huncounted]
    rfl
  | _ => rfl

theorem move_unloaded (h : Move p g l act g' l') :
    l'.unloaded.toNat + (half act == some .load).toNat = l.unloaded.toNat + act.primary.toNat := by
  cases h with
  | call w hl | irq hl =>
    obtain ⟨-, hunloaded, -⟩ := Pc.outside_spec hl
    rw [hunloaded]
    rfl
  | _ => rfl

theorem move_follows (h : Move p g l act g' l') :
    Follows Shared.irqCounter Pc.loaded half (· + 1) g l act g' l' := by
  cases h with
  | call w hl | irq hl => exact ⟨rfl, (Pc.outside_spec hl).1.symm⟩
  | loadIrq => exact ⟨rfl, rfl, rfl⟩
  | storeIrq => exact ⟨rfl, _, rfl, rfl⟩
  | _ => exact ⟨rfl, rfl⟩

theorem Pc.Knows.congr {j : Nat} (hg : g'.sharedCounter = g.sharedCounter) (h : l.Knows g j) : l.Knows g' j := by
  cases l with
  | threaded k stage =>
    cases stage with
    | store v => exact Eq.trans h hg.symm
    | copy => exact h
    | format n => exact ⟨h.1.trans hg.symm, h.2⟩
    | _ => trivial
  | _ => trivial

/-- `shared_counter` and the message change in one place each. -/
theorem move_shared (h : Move p g l act g' l') :
    (g'.sharedCounter = g.sharedCounter ∧ g'.sharedMessage = g.sharedMessage ∧ act.shared = false ∧ l'.stale = l.stale ∧
      ∀ j, l.Knows g j → l'.Knows g' j) ∨
    (∃ k v, l = .threaded k (.store v) ∧ act.shared = true ∧ l' = .threaded k .copy ∧ g'.sharedCounter = v + 1) ∨
    (∃ k n, l = .threaded k (.format n) ∧ act.shared = false ∧ l' = .threaded k .unlock ∧
      g'.sharedCounter = g.sharedCounter ∧
      g'.sharedMessage = snprintf g.sharedMessage messageSize (threadMessage n)) := by
  cases h with
  | call w hl | irq hl =>
    have hstale : l.stale = false := by
      cases l with
      | idle | done => rfl
      | _ => cases hl
    exact .inl ⟨rfl, rfl, rfl, hstale.symm, fun _ _ => trivial⟩
  | storeShared => exact .inr (.inl ⟨_, _, rfl, rfl, rfl, rfl⟩)
  | format => exact .inr (.inr ⟨_, _, rfl, rfl, rfl, rfl, rfl⟩)
  | copyShared => exact .inl ⟨rfl, rfl, rfl, rfl, fun _ h => ⟨rfl, h⟩⟩
  | loadShared => exact .inl ⟨rfl, rfl, rfl, rfl, fun _ _ => rfl⟩
  | _ => exact .inl ⟨rfl, rfl, rfl, rfl, fun _ _ => trivial⟩

/-- The message fits its array. -/
theorem cstr_threadMessage (dst : List UInt8) (n : Int32) :
    cstr (snprintf dst messageSize (threadMessage n)) = threadMessage n := by
  refine cstr_snprintf ?_ ?_
  · have hlen := length_toString_int32 n
    have htext : (ascii "Processed by thread handler #").length = 29 := rfl
    rw [threadMessage, List.length_append, htext, messageSize]
    omega
  · have hzero : 0 ∉ ascii "Processed by thread handler #" := by decide
    have hnum : 0 ∉ ascii (toString n) := zero_notMem_toString_int n.toInt
    rw [threadMessage, List.mem_append]
    exact fun h => h.elim hzero hnum

end OneStep

/-! ## Runs -/

variable [DecidableEq P]

def primaries (tr : List (P × Act)) : Nat := tr.countP fun e => e.2.primary

def threadRuns (tr : List (P × Act)) : Nat := tr.countP fun e => e.2.threaded

def sharedRuns (tr : List (P × Act)) : Nat := tr.countP fun e => e.2.shared

/-- The loads and stores of `irq_counter` in a run. -/
def irqHalves (tr : List (P × Act)) : List (P × Inc) := tr.filterMap (halfOf half)

/-- **The account** after `n` interrupts and `m` runs of the threaded handler. -/
structure Account (n m : Nat) (s : Threads P (Shared P) Pc) : Prop where
  primary : s.shared.primaryHandlerCount = Int32.ofNat n
  thread : s.shared.threadHandlerCount = Int32.ofNat m
  credit : ∃ k, Counts k (fun p => (s.pc p).credit) ∧ m + k + s.shared.runThread.toNat ≤ n
  mutex : Tracks s.shared.sharedDataMutex fun p => (s.pc p).holds

/-- The data under the mutex after `j` increments. -/
structure Consistent (j : Nat) (s : Threads P (Shared P) Pc) : Prop where
  counter : s.shared.sharedCounter = Int32.ofNat j
  knows : ∀ p, (s.pc p).Knows s.shared j
  message : (∀ p, (s.pc p).stale = false) → cstr s.shared.sharedMessage = messageAfter j

section Steps

variable {p : P} {g' : Shared P} {l' : Pc} {act : Act} {n m j : Nat} {s : Threads P (Shared P) Pc}

theorem Account.step (hs : Account n m s) (h : Move p s.shared (s.pc p) act g' l') :
    Account (n + act.primary.toNat) (m + act.threaded.toNat) ⟨g', Function.update s.pc p l'⟩ := by
  obtain ⟨hprimary, hthread⟩ := move_counts h
  obtain ⟨k, hk, hle⟩ := hs.credit
  obtain ⟨k', hk', hkk⟩ := hk.step p l'
  have hcredit := move_credit h
  refine ⟨?_, ?_, ⟨k', hk', ?_⟩, hs.mutex.step (move_mutex h)⟩
  · rw [Int32.ofNat_add, ← hs.primary]
    exact hprimary
  · rw [Int32.ofNat_add, ← hs.thread]
    exact hthread
  · dsimp only
    omega

/-- Only the holder of the mutex touches the counter and the message. -/
theorem Consistent.step (hs : Consistent j s) (hmutex : Tracks s.shared.sharedDataMutex fun q => (s.pc q).holds)
    (h : Move p s.shared (s.pc p) act g' l') :
    Consistent (j + act.shared.toNat) ⟨g', Function.update s.pc p l'⟩ := by
  have hp := hs.knows p
  have hother : (s.pc p).holds = true → ∀ q, q ≠ p → (s.pc q).holds = false := by
    intro hold q hq
    by_contra hholds
    exact hq (hmutex.unique (by simpa using hholds) hold)
  rcases move_shared h with ⟨hcounter, hmessage, hact, hstale, hknows⟩ | ⟨k, v, hl, hact, rfl, hcounter⟩ |
    ⟨k, n, hl, hact, rfl, hcounter, hmessage⟩
  · rw [hact]
    refine ⟨hcounter.trans hs.counter, ?_, fun hnone => ?_⟩
    · exact (Function.forall_update_iff s.pc fun _ l => l.Knows g' j).mpr
        ⟨hknows j hp, fun q _ => (hs.knows q).congr hcounter⟩
    · obtain ⟨hl', hrest⟩ := (Function.forall_update_iff s.pc fun _ l => l.stale = false).mp hnone
      refine (congrArg cstr hmessage).trans (hs.message fun q => ?_)
      by_cases hq : q = p
      · rw [hq, ← hstale, hl']
      · exact hrest q hq
  · rw [hl] at hp
    have hv : v = s.shared.sharedCounter := hp
    rw [hact]
    refine ⟨?_, ?_, fun hnone => ?_⟩
    · rw [Bool.toNat_true, Int32.ofNat_add, ← hs.counter, ← hv]
      exact hcounter
    · refine (Function.forall_update_iff s.pc fun _ l => l.Knows g' (j + 1)).mpr ⟨Nat.succ_pos j, fun q hq => ?_⟩
      exact Pc.knows_of_not_holds g' (j + 1) (hother (by rw [hl]; rfl) q hq)
    · cases ((Function.forall_update_iff s.pc fun _ l => l.stale = false).mp hnone).1
  · rw [hl] at hp
    obtain ⟨hn, hpos⟩ := hp
    rw [hact]
    refine ⟨hcounter.trans hs.counter, ?_, fun _ => ?_⟩
    · exact (Function.forall_update_iff s.pc fun _ l => l.Knows g' j).mpr
        ⟨trivial, fun q _ => (hs.knows q).congr hcounter⟩
    · have hmsg : cstr g'.sharedMessage = threadMessage n := by rw [hmessage, cstr_threadMessage]
      rw [hs.counter] at hn
      rw [Bool.toNat_false, Nat.add_zero, messageAfter, if_neg (Nat.ne_of_gt hpos), ← hn]
      exact hmsg

end Steps

section Runs

variable {tr : List (P × Act)} {s : Threads P (Shared P) Pc}

theorem run_account (h : threadedIrq.Run tr s) : Account (primaries tr) (threadRuns tr) s := by
  refine System.Run.history (P := fun tr s => Account (primaries tr) (threadRuns tr) s) ?_ ?_ h
  · rintro ⟨g, pc⟩ ⟨rfl, hidle⟩
    have hpc : ∀ p, pc p = .idle := hidle
    refine ⟨rfl, rfl, ⟨0, .zero fun p => by simp only [hpc p, Pc.credit], Nat.le_refl 0⟩, fun p => ?_⟩
    simp [hpc p, Pc.holds, initial]
  · rintro tr s ⟨p, act⟩ _ - hs ⟨g', l', hstep, rfl⟩
    simp only [primaries, threadRuns, System.countP_snoc]
    exact hs.step hstep

theorem run_consistent (h : threadedIrq.Run tr s) : Consistent (sharedRuns tr) s := by
  refine System.Run.history (P := fun tr s => Consistent (sharedRuns tr) s) ?_ ?_ h
  · rintro ⟨g, pc⟩ ⟨rfl, hidle⟩
    have hpc : ∀ p, pc p = .idle := hidle
    have hmessage : cstr (strcpy (List.replicate messageSize 0) initialMessage) = messageAfter 0 := by decide
    refine ⟨rfl, fun p => ?_, fun _ => hmessage⟩
    simp only [hpc p, Pc.Knows]
  · rintro tr s ⟨p, act⟩ _ hrun hs ⟨g', l', hstep, rfl⟩
    simp only [sharedRuns, System.countP_snoc]
    exact hs.step (run_account hrun).mutex hstep

/-- **Every run** has one increment of `shared_counter` for each run of the threaded handler, up to those at it. -/
theorem run_sharedRuns (h : threadedIrq.Run tr s) :
    ∃ k, Counts k (fun p => (s.pc p).uncounted) ∧ k + sharedRuns tr = threadRuns tr := by
  have hstart : ∀ l, l = Pc.idle → l.uncounted = false := by
    rintro l rfl
    rfl
  exact interleave_tally Act.threaded Act.shared hstart move_uncounted h

/-- **Every run** has one load of `irq_counter` for each interrupt, up to those at it. -/
theorem run_loads (h : threadedIrq.Run tr s) : ∃ k, Counts k (fun p => (s.pc p).unloaded) ∧
    k + (irqHalves tr).countP (fun e => e.2 == .load) = primaries tr := by
  have hstart : ∀ l, l = Pc.idle → l.unloaded = false := by
    rintro l rfl
    rfl
  obtain ⟨k, hk, hcount⟩ := interleave_tally Act.primary (fun act => half act == some .load) hstart move_unloaded h
  refine ⟨k, hk, ?_⟩
  rw [irqHalves, countP_load_filterMap]
  exact hcount

/-- The increments of `irq_counter` that a run makes. -/
theorem run_increments (h : threadedIrq.Run tr s) : ∃ (t : Threads P Counter (Option Nat)) (ids : List Int32),
    increments.Run (irqHalves tr) t ∧ Agree Shared.irqCounter Pc.loaded (· + 1) 0 ids s t := by
  refine Follows.agree_run ?_ ?_ move_follows h
  · rintro g rfl
    rfl
  · rintro l rfl
    rfl

/-- No handler is in progress. -/
def Quiet (s : Threads P (Shared P) Pc) : Prop := ∀ p, (s.pc p).outside = true

/-- The message for a counter. -/
def messageFor (sharedCounter : Int32) : List UInt8 :=
  if sharedCounter = 0 then initialMessage else threadMessage sharedCounter

/-- The statistics agree. -/
structure Statistics (s : Threads P (Shared P) Pc) : Prop where
  irq : Quiet s → s.shared.irqCounter = s.shared.primaryHandlerCount
  shared : Quiet s → s.shared.sharedCounter = s.shared.threadHandlerCount
  thread : Quiet s → s.shared.threadHandlerCount ≤ s.shared.primaryHandlerCount
  message : s.shared.sharedDataMutex = none → cstr s.shared.sharedMessage = messageFor s.shared.sharedCounter

theorem messageFor_ofNat {j : Nat} (h : j < 2 ^ 31) : messageFor (Int32.ofNat j) = messageAfter j := by
  have hzero : Int32.ofNat j = 0 ↔ j = 0 := by
    constructor
    · exact fun h0 => int32_ofNat_inj (by omega) (by omega) h0
    · rintro rfl
      rfl
  simp only [messageFor, messageAfter, hzero]

/-- **The statistics** agree after fewer than 2^31 interrupts, exactly if, should no handler be in progress, nobody has
loaded `irq_counter` between another's load and store. -/
theorem threaded_irq_statistics (tr : List (P × Act)) (s : Threads P (Shared P) Pc) (h : threadedIrq.Run tr s)
    (hfew : primaries tr < 2 ^ 31) : Statistics s ↔ (Quiet s → ¬Overlap (irqHalves tr)) := by
  have hacc := run_account h
  have hcons := run_consistent h
  obtain ⟨k, hk, hshared⟩ := run_sharedRuns h
  obtain ⟨c, hc, hcredit⟩ := hacc.credit
  obtain ⟨i, hi, hloads⟩ := run_loads h
  obtain ⟨t, ids, hrun, hagree⟩ := run_increments h
  rw [← run_length hrun] at hloads
  have hirq : Quiet s → (s.shared.irqCounter = s.shared.primaryHandlerCount ↔ ¬Overlap (irqHalves tr)) := by
    intro hquiet
    have hi0 : i = 0 := hi.eq_zero fun p => (Pc.outside_spec (hquiet p)).2.1
    have hiff := hagree.counter_eq_iff hrun (by omega) fun p => (Pc.outside_spec (hquiet p)).1
    rw [Int32.zero_add, show t.shared.taken.length = primaries tr by omega] at hiff
    rw [hacc.primary]
    exact hiff
  constructor
  · exact fun hstat hquiet => (hirq hquiet).mp (hstat.irq hquiet)
  · intro hserial
    refine ⟨fun hquiet => (hirq hquiet).mpr (hserial hquiet), fun hquiet => ?_, fun _ => ?_, fun hfree => ?_⟩
    · have hk0 : k = 0 := hk.eq_zero fun p => (Pc.outside_spec (hquiet p)).2.2.2.1
      rw [hcons.counter, hacc.thread, ← hshared, hk0, Nat.zero_add]
    · rw [hacc.thread, hacc.primary, Int32.le_iff_toInt_le, Int32.toInt_ofNat_of_lt (by omega),
        Int32.toInt_ofNat_of_lt hfew]
      omega
    · rw [hcons.counter, messageFor_ofNat (by omega)]
      refine hcons.message fun p => ?_
      by_contra hstale
      have howner := (hacc.mutex p).mpr (Pc.holds_of_stale (by simpa using hstale))
      rw [hfree] at howner
      cases howner

end Runs

/-- A digit and a newline. -/
def digit (b : UInt8) : UserText := ⟨fun i => if i = 0 then b else 10, 2, 2⟩

/-- A write of 2 runs both handlers. -/
def writeTwo : List (Bool × Act) :=
  [(true, .call (digit 50)), (true, .accept), (true, .incPrimary), (true, .loadIrq), (true, .storeIrq),
   (true, .callThreaded), (true, .incThread), (true, .lock), (true, .loadShared), (true, .storeShared),
   (true, .copyShared), (true, .format), (true, .unlock), (true, .finishThreaded)]

theorem threaded_irq_statistics_writeTwo : ∃ s, threadedIrq.Run writeTwo s ∧ Quiet s ∧ Statistics s ∧
    s.shared.irqCounter = 1 ∧ s.shared.sharedCounter = 1 := by
  have hrun : threadedIrq.Run writeTwo _ :=
    ⟨pair initial .idle .idle, ⟨rfl, by rintro (_ | _) <;> rfl⟩,
      .cons (interleave_step_true (.call (digit 50) rfl) _) <| .cons (interleave_step_true (.writeTwo rfl) _) <|
      .cons (interleave_step_true .incPrimary _) <| .cons (interleave_step_true .loadIrq _) <|
      .cons (interleave_step_true .storeIrq _) <| .cons (interleave_step_true .callThreaded _) <|
      .cons (interleave_step_true .incThread _) <| .cons (interleave_step_true (.lock rfl) _) <|
      .cons (interleave_step_true .loadShared _) <| .cons (interleave_step_true .storeShared _) <|
      .cons (interleave_step_true .copyShared _) <| .cons (interleave_step_true .format _) <|
      .cons (interleave_step_true .unlock _) <| .cons (interleave_step_true .finishWrite _) <| .nil _⟩
  have hserial : ¬Overlap (irqHalves writeTwo) := not_overlap_inTurn [true]
  exact ⟨_, hrun, by rintro (_ | _) <;> rfl, (threaded_irq_statistics _ _ hrun (by decide)).mpr fun _ => hserial,
    rfl, rfl⟩

/-- A hard interrupt comes between the load and the store of a write of 1. -/
def interrupted : List (Bool × Act) :=
  [(true, .call (digit 49)), (true, .accept), (true, .incPrimary), (true, .loadIrq),
   (false, .irq), (false, .incPrimary), (false, .loadIrq), (false, .storeIrq), (false, .wake),
   (true, .storeIrq), (true, .finishPrimary)]

/-- Two interrupts are counted as one. -/
theorem threaded_irq_interrupted : ∃ s, threadedIrq.Run interrupted s ∧ Quiet s ∧ s.shared.irqCounter = 1 ∧
    s.shared.primaryHandlerCount = 2 := by
  have hrun : threadedIrq.Run interrupted _ :=
    ⟨pair initial .idle .idle, ⟨rfl, by rintro (_ | _) <;> rfl⟩,
      .cons (interleave_step_true (.call (digit 49) rfl) _) <| .cons (interleave_step_true (.writeOne rfl) _) <|
      .cons (interleave_step_true .incPrimary _) <| .cons (interleave_step_true .loadIrq _) <|
      .cons (interleave_step_false (.irq rfl) _) <| .cons (interleave_step_false .incPrimary _) <|
      .cons (interleave_step_false .loadIrq _) <| .cons (interleave_step_false .storeIrq _) <|
      .cons (interleave_step_false .wake _) <| .cons (interleave_step_true .storeIrq _) <|
      .cons (interleave_step_true .finishPrimary _) <| .nil _⟩
  exact ⟨_, hrun, by rintro (_ | _) <;> rfl, rfl, rfl⟩

end KernelModules.Irq.ThreadedIrq
