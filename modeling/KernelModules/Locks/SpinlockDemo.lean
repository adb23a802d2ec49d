import KernelModules.Lib.CString
import KernelModules.Lib.Numbering
import KernelModules.Lib.Threads

/-!
# Operations under a spinlock

Processes call `spinlock_read` and `spinlock_write`, any number of times each. A call is taken apart into its loads and
stores; the calls that pass their checks go through the critical section, where each takes the next number of
`operation_count`.

- an operation (`Op`) is its process, its number and what it wrote; `ops` are the operations of a run in their order;
- what a process in the critical section knows of the shared variables stays true while it is there (`Knows`), and
  what a reader took along stays true for ever (`Took`): `run_linear`;
- the operations are numbered 1, …, N, and a reader reports the value of the last write before it
  (`spinlock_linearizes`).
-/

namespace KernelModules.Locks.Spinlock

open Lib

universe u

/-! ## The code -/

/-- `data_lock`, `shared_data` and `operation_count`. -/
structure Shared (P : Type u) where
  dataLock : Option P
  sharedData : Int32
  operationCount : UInt64

/-- What a call wants in the critical section: to read, or to write a value and return the length of its text. -/
inductive Job
  | read
  | write (value : Int32) (count : Nat)

/-- The value a job writes. -/
def Job.wrote : Job → Option Int32
  | .read => none
  | .write value _ => some value

/-- Where a process is in `spinlock_read` or `spinlock_write`. -/
inductive Pc
  | idle
  | reading (pos : Int)
  | writing (w : UserText)
  /-- At `spin_lock`. -/
  | atLock (job : Job)
  | locked (job : Job)
  /-- `shared_data` is read into `data`, or written. -/
  | counting (job : Job) (data : Int32)
  /-- In `operation_count++`, with the value loaded. -/
  | adding (job : Job) (data : Int32) (loaded : UInt64)
  /-- The new value is stored. -/
  | numbered (job : Job) (data : Int32)
  /-- It is read again, for `local_count` or the log. -/
  | leaving (job : Job) (data : Int32) (localCount : UInt64)
  /-- A reader at `copy_to_user`. -/
  | copying (data : Int32) (localCount : UInt64)
  | done (ret : Int)

inductive Act
  | read (pos : Int)
  | write (w : UserText)
  | refuse (ret : Int)
  | accept
  | lock
  | loadData
  | storeData (value : Int32)
  | loadCount
  | storeCount (wrote : Option Int32) (number : UInt64)
  | reload
  | log (data : Int32) (count : UInt64)
  | unlock
  | copy (text : List UInt8) (fault : Bool)

/-- `"Shared data: %d\nOperations: %lu\n"`, which fits into the buffer of 256 bytes. -/
def spinlockText (data : Int32) (count : UInt64) : List UInt8 :=
  ascii "Shared data: " ++ ascii (toString data) ++ ascii "\nOperations: " ++ decimal count.toNat ++ ascii "\n"

/-- Not in a call. -/
def Pc.outside : Pc → Bool
  | .idle => true
  | .done _ => true
  | _ => false

variable {P : Type u}

/-- One step of process `p`. -/
inductive SpinStep (p : P) : Shared P → Pc → Act → Shared P → Pc → Prop
  | read {g : Shared P} {l : Pc} (pos : Int) : l.outside = true → SpinStep p g l (.read pos) g (.reading pos)
  | seen {g : Shared P} {pos : Int} : pos > 0 → SpinStep p g (.reading pos) (.refuse 0) g (.done 0)
  | noMemory {g : Shared P} {pos : Int} : ¬pos > 0 →
      SpinStep p g (.reading pos) (.refuse (-eNomem)) g (.done (-eNomem))
  | acceptRead {g : Shared P} {pos : Int} : ¬pos > 0 → SpinStep p g (.reading pos) .accept g (.atLock .read)
  | write {g : Shared P} {l : Pc} (w : UserText) : l.outside = true → SpinStep p g l (.write w) g (.writing w)
  | invalid {g : Shared P} {w : UserText} {e : Int} : userInt 32 w = .error e →
      SpinStep p g (.writing w) (.refuse e) g (.done e)
  | acceptWrite {g : Shared P} {w : UserText} {value : Int32} : userInt 32 w = .ok value →
      SpinStep p g (.writing w) .accept g (.atLock (.write value w.count))
  | lock {g : Shared P} {job : Job} : g.dataLock = none →
      SpinStep p g (.atLock job) .lock { g with dataLock := some p } (.locked job)
  | loadData {g : Shared P} : SpinStep p g (.locked .read) .loadData g (.counting .read g.sharedData)
  | storeData {g : Shared P} {value : Int32} {count : Nat} :
      SpinStep p g (.locked (.write value count)) (.storeData value) { g with sharedData := value }
        (.counting (.write value count) value)
  | loadCount {g : Shared P} {job : Job} {data : Int32} :
      SpinStep p g (.counting job data) .loadCount g (.adding job data g.operationCount)
  | storeCount {g : Shared P} {job : Job} {data : Int32} {loaded : UInt64} :
      SpinStep p g (.adding job data loaded) (.storeCount job.wrote (loaded + 1))
        { g with operationCount := loaded + 1 } (.numbered job data)
  | reload {g : Shared P} {data : Int32} :
      SpinStep p g (.numbered .read data) .reload g (.leaving .read data g.operationCount)
  | log {g : Shared P} {value : Int32} {count : Nat} {data : Int32} :
      SpinStep p g (.numbered (.write value count) data) (.log g.sharedData g.operationCount) g
        (.leaving (.write value count) data g.operationCount)
  | unlockRead {g : Shared P} {data : Int32} {localCount : UInt64} :
      SpinStep p g (.leaving .read data localCount) .unlock { g with dataLock := none } (.copying data localCount)
  | unlockWrite {g : Shared P} {value : Int32} {count : Nat} {data : Int32} {localCount : UInt64} :
      SpinStep p g (.leaving (.write value count) data localCount) .unlock { g with dataLock := none } (.done count)
  | copy {g : Shared P} {data : Int32} {localCount : UInt64} (fault : Bool) :
      SpinStep p g (.copying data localCount) (.copy (spinlockText data localCount) fault) g
        (.done (if fault then -eFault else (spinlockText data localCount).length))

/-- Any number of processes after `spinlock_init`. -/
def spinlockDemo (P : Type u) [DecidableEq P] : System (Threads P (Shared P) Pc) (P × Act) :=
  interleave (fun g => g = ⟨none, 0, 0⟩) (fun l => l = .idle) SpinStep

/-! ## Operations -/

/-- An operation: who made it, its number, and what it wrote. -/
structure Op (P : Type u) where
  process : P
  number : UInt64
  wrote : Option Int32

/-- The operation that a label completes. -/
def opOf : P × Act → Option (Op P)
  | (p, .storeCount wrote number) => some ⟨p, number, wrote⟩
  | _ => none

/-- The operations of a run, in their order. -/
def ops (tr : List (P × Act)) : List (Op P) := tr.filterMap opOf

def numberOf (e : P × Act) : Option UInt64 := (opOf e).map Op.number

theorem filterMap_numberOf (tr : List (P × Act)) : tr.filterMap numberOf = (ops tr).map Op.number := by
  rw [ops, List.map_filterMap]
  rfl

/-- The value that operations leave in `shared_data`. -/
def lastWritten (os : List (Op P)) : Int32 := os.foldl (fun v o => o.wrote.getD v) 0

def Act.isLock : Act → Bool
  | .lock => true
  | _ => false

/-- The calls that entered the critical section. -/
def entered (tr : List (P × Act)) : Nat := tr.countP fun e => e.2.isLock

/-- The places between `spin_lock` and `spin_unlock`. -/
def Pc.holds : Pc → Bool
  | .locked _ => true
  | .counting _ _ => true
  | .adding _ _ _ => true
  | .numbered _ _ => true
  | .leaving _ _ _ => true
  | _ => false

/-- The places there before the number is taken. -/
def Pc.pending : Pc → Bool
  | .locked _ => true
  | .counting _ _ => true
  | .adding _ _ _ => true
  | _ => false

/-- A reader took the value of the writes before its operation. -/
def Took (os : List (Op P)) (p : P) (number : UInt64) (data : Int32) : Prop :=
  ∃ i, os[i]? = some ⟨p, number, none⟩ ∧ data = lastWritten (os.take i)

/-- What process `p` knows of the shared variables, and of its operation if it is a reader that has made it. A writer
that has stored its value and not yet its number is ahead of the operations. -/
def Knows (os : List (Op P)) (g : Shared P) (p : P) : Pc → Prop
  | .locked _ => g.sharedData = lastWritten os
  | .counting job data => g.sharedData = job.wrote.getD (lastWritten os) ∧ data = g.sharedData
  | .adding job data loaded => g.sharedData = job.wrote.getD (lastWritten os) ∧ data = g.sharedData ∧
      loaded = g.operationCount
  | .numbered job data => g.sharedData = lastWritten os ∧ (job.wrote = none → Took os p g.operationCount data)
  | .leaving job data localCount => g.sharedData = lastWritten os ∧ (job.wrote = none → Took os p localCount data)
  | .copying data localCount => Took os p localCount data
  | _ => True

/-- **The order of the operations.** The lock is held by the process in the critical section, every process is right in
what it knows, and a free lock means that the operations are all there is. -/
structure Linear (os : List (Op P)) (s : Threads P (Shared P) Pc) : Prop where
  tracks : Tracks s.shared.dataLock fun p => (s.pc p).holds
  knows : ∀ p, Knows os s.shared p (s.pc p)
  free : s.shared.dataLock = none → s.shared.sharedData = lastWritten os

/-! ## One step -/

theorem ops_snoc (tr : List (P × Act)) (e : P × Act) : ops (tr ++ [e]) = ops tr ++ (opOf e).toList := by
  simp only [ops, List.filterMap_append, List.filterMap_cons, List.filterMap_nil]
  cases opOf e with
  | none => rfl
  | some o => rfl

theorem lastWritten_snoc (os : List (Op P)) (o : Op P) : lastWritten (os ++ [o]) = o.wrote.getD (lastWritten os) := by
  simp only [lastWritten, List.foldl_append, List.foldl_cons, List.foldl_nil]

/-- The value that operations leave is that of the last write among them, or 0. -/
theorem lastWritten_spec (os : List (Op P)) :
    (∃ (j : Nat) (o : Op P), os[j]? = some o ∧ o.wrote = some (lastWritten os) ∧
      ∀ (j' : Nat) (o' : Op P), os[j']? = some o' → o'.wrote ≠ none → j' ≤ j) ∨
    (lastWritten os = 0 ∧ ∀ o ∈ os, o.wrote = none) := by
  induction os using List.reverseRecOn with
  | nil => exact .inr ⟨rfl, fun _ h => (by cases h)⟩
  | append_singleton os o ih =>
    rw [lastWritten_snoc]
    cases hwrote : o.wrote with
    | some v =>
      refine .inl ⟨os.length, o, List.getElem?_concat_length, by rw [hwrote, Option.getD_some], fun j' o' hj' _ => ?_⟩
      obtain ⟨hlt, -⟩ := List.getElem?_eq_some_iff.mp hj'
      rw [List.length_append, List.length_singleton] at hlt
      omega
    | none =>
      rw [Option.getD_none]
      rcases ih with ⟨j, o₁, hj, hv, hlast⟩ | ⟨hzero, hnone⟩
      · obtain ⟨hlt, -⟩ := List.getElem?_eq_some_iff.mp hj
        refine .inl ⟨j, o₁, (List.getElem?_append_left hlt).trans hj, hv, fun j' o' hj' hne => ?_⟩
        by_cases hj'lt : j' < os.length
        · rw [List.getElem?_append_left hj'lt] at hj'
          exact hlast j' o' hj' hne
        · -- behind the others there is only the reader `o`
          rw [List.getElem?_append_right (by omega)] at hj'
          have hmem := List.mem_singleton.mp (List.mem_of_getElem? hj')
          rw [hmem, hwrote] at hne
          exact absurd rfl hne
      · refine .inr ⟨hzero, fun o' ho' => ?_⟩
        rcases List.mem_append.mp ho' with ho' | ho'
        · exact hnone o' ho'
        · rw [List.mem_singleton.mp ho']
          exact hwrote

/-- Later operations do not change what a reader took. -/
theorem Took.append {os : List (Op P)} {p : P} {number : UInt64} {data : Int32} (h : Took os p number data)
    (os' : List (Op P)) : Took (os ++ os') p number data := by
  obtain ⟨i, hi, hdata⟩ := h
  obtain ⟨hlt, -⟩ := List.getElem?_eq_some_iff.mp hi
  refine ⟨i, ?_, ?_⟩
  · rw [List.getElem?_append_left hlt]
    exact hi
  · rw [List.take_append_of_le_length (Nat.le_of_lt hlt)]
    exact hdata

section OneStep

variable {os : List (Op P)} {p : P} {g g' : Shared P} {l l' : Pc} {act : Act}

theorem Pc.outside_holds (h : l.outside = true) : l.holds = false ∧ l.pending = false := by
  cases l with
  | idle => exact ⟨rfl, rfl⟩
  | done ret => exact ⟨rfl, rfl⟩
  | _ => cases h

theorem Pc.holds_of_pending (h : l.pending = true) : l.holds = true := by
  cases l with
  | locked | counting | adding => rfl
  | _ => cases h

/-- A step leaves the lock, takes the free lock, or gives it back. -/
theorem spinStep_lock (h : SpinStep p g l act g' l') :
    (g'.dataLock = g.dataLock ∧ l'.holds = l.holds) ∨ (g.dataLock = none ∧ g'.dataLock = some p ∧ l'.holds = true) ∨
      (l.holds = true ∧ g'.dataLock = none ∧ l'.holds = false) := by
  cases h with
  | read pos hl | write w hl => exact .inl ⟨rfl, (Pc.outside_holds hl).1.symm⟩
  | lock hfree => exact .inr (.inl ⟨hfree, rfl, rfl⟩)
  | unlockRead | unlockWrite => exact .inr (.inr ⟨rfl, rfl, rfl⟩)
  | _ => exact .inl ⟨rfl, rfl⟩

/-- Without the lock a step changes nothing but the lock. -/
theorem spinStep_quiet (h : SpinStep p g l act g' l') (hl : l.holds = false) :
    g'.sharedData = g.sharedData ∧ g'.operationCount = g.operationCount ∧ opOf (p, act) = none := by
  cases h with
  | storeData | storeCount => cases hl
  | _ => exact ⟨rfl, rfl, rfl⟩

/-- `spin_unlock` leaves the value of the operations. -/
theorem spinStep_unlock (h : SpinStep p g l act g' l') (hl : Knows os g p l) (hholds : l.holds = true)
    (hleft : l'.holds = false) : g'.sharedData = lastWritten os ∧ opOf (p, act) = none := by
  cases h with
  | unlockRead | unlockWrite => exact ⟨hl.1, rfl⟩
  | read pos hout | write w hout =>
    rw [(Pc.outside_holds hout).1] at hholds
    cases hholds
  | loadData | storeData | loadCount | storeCount | reload | log => cases hleft
  | _ => cases hholds

/-- The process that makes the step stays right in what it knows. -/
theorem spinStep_knows (h : SpinStep p g l act g' l') (hl : Knows os g p l)
    (hfree : g.dataLock = none → g.sharedData = lastWritten os) : Knows (os ++ (opOf (p, act)).toList) g' p l' := by
  cases h with
  | lock hnone =>
    simp only [opOf, Option.toList_none, List.append_nil]
    exact hfree hnone
  | loadData =>
    simp only [opOf, Option.toList_none, List.append_nil]
    exact ⟨hl, rfl⟩
  | storeData =>
    simp only [opOf, Option.toList_none, List.append_nil]
    exact ⟨rfl, rfl⟩
  | loadCount =>
    simp only [opOf, Option.toList_none, List.append_nil]
    exact ⟨hl.1, hl.2, rfl⟩
  | @storeCount job data loaded =>
    obtain ⟨hdata, rfl, rfl⟩ := hl
    simp only [opOf, Option.toList_some]
    refine ⟨hdata.trans (lastWritten_snoc os ⟨p, g.operationCount + 1, job.wrote⟩).symm, fun hread => ?_⟩
    -- the operation of a reader is the last one, and it took the value of those before
    refine ⟨os.length, ?_, ?_⟩
    · rw [List.getElem?_concat_length, hread]
    · rw [List.take_left, hdata, hread, Option.getD_none]
  | reload | log =>
    simp only [opOf, Option.toList_none, List.append_nil]
    exact hl
  | unlockRead =>
    simp only [opOf, Option.toList_none, List.append_nil]
    exact hl.2 rfl
  | _ => trivial

/-- What a process knows depends on the two variables only. -/
theorem Knows.congr (h : Knows os g p l) (hdata : g'.sharedData = g.sharedData)
    (hcount : g'.operationCount = g.operationCount) : Knows os g' p l := by
  cases l with
  | locked job => exact hdata.trans h
  | counting job data => exact ⟨hdata.trans h.1, h.2.trans hdata.symm⟩
  | adding job data loaded => exact ⟨hdata.trans h.1, h.2.1.trans hdata.symm, h.2.2.trans hcount.symm⟩
  | numbered job data => exact ⟨hdata.trans h.1, fun hread => hcount ▸ h.2 hread⟩
  | leaving job data localCount => exact ⟨hdata.trans h.1, h.2⟩
  | copying data localCount => exact h
  | _ => trivial

/-- Outside the critical section nothing has to be known. -/
theorem Knows.outside (h : Knows os g p l) (hl : l.holds = false) (os' : List (Op P)) : Knows (os ++ os') g' p l := by
  cases l with
  | copying data localCount => exact Took.append h os'
  | locked | counting | adding | numbered | leaving => cases hl
  | _ => trivial

/-- Only the operations move `operation_count`. -/
theorem spinStep_number (h : SpinStep p g l act g' l') (hl : Knows os g p l) :
    (numberOf (p, act) = none ∧ g'.operationCount = g.operationCount) ∨
      (numberOf (p, act) = some g'.operationCount ∧ g'.operationCount = g.operationCount + 1) := by
  cases h with
  | storeCount =>
    obtain ⟨-, -, rfl⟩ := hl
    exact .inr ⟨rfl, rfl⟩
  | _ => exact .inl ⟨rfl, rfl⟩

/-- A call enters with the lock and stays pending until it takes its number. -/
theorem spinStep_pending (h : SpinStep p g l act g' l') :
    act.isLock.toNat + l.pending.toNat = (opOf (p, act)).toList.length + l'.pending.toNat := by
  cases h with
  | read pos hl | write w hl =>
    rw [(Pc.outside_holds hl).2]
    rfl
  | _ => rfl

/-- How a call is rejected before the lock: its position is not 0, or its text is too long, cannot be read or is no
number. -/
def Pc.rejected : Pc → Option Int
  | .reading pos => if pos > 0 then some 0 else none
  | .writing w =>
    match userInt 32 w with
    | .error e => some e
    | .ok _ => none
  | _ => none

/-- A rejected call returns at once. -/
theorem spinStep_rejected {ret : Int} (h : SpinStep p g l act g' l') (hl : l.rejected = some ret) :
    act = .refuse ret ∧ g' = g ∧ l' = .done ret := by
  cases h with
  | seen hpos =>
    simp only [Pc.rejected, if_pos hpos, Option.some.injEq] at hl
    subst hl
    exact ⟨rfl, rfl, rfl⟩
  | invalid herror =>
    simp only [Pc.rejected, herror, Option.some.injEq] at hl
    subst hl
    exact ⟨rfl, rfl, rfl⟩
  | noMemory hpos | acceptRead hpos => simp [Pc.rejected, hpos] at hl
  | acceptWrite hok => simp [Pc.rejected, hok] at hl
  | @read l pos hout | @write l w hout =>
    cases l with
    | idle | done => cases hl
    | _ => cases hout
  | _ => cases hl

/-- Outside the critical section nothing is changed. -/
theorem spinStep_outside (h : SpinStep p g l act g' l') (hl : l.holds = false) (hl' : l'.holds = false) : g' = g := by
  cases h with
  | lock => cases hl'
  | storeData | storeCount | unlockRead | unlockWrite => cases hl
  | _ => rfl

end OneStep

section Runs

variable [DecidableEq P] {tr : List (P × Act)} {s s' : Threads P (Shared P) Pc}

/-- **One step** keeps the order of the operations. -/
theorem step_linear {os : List (Op P)} {e : P × Act} (hs : Linear os s) (h : (spinlockDemo P).step s e s') :
    Linear (os ++ (opOf e).toList) s' := by
  obtain ⟨p, act⟩ := e
  obtain ⟨g', l', hstep, rfl⟩ := h
  refine ⟨hs.tracks.step (spinStep_lock hstep), ?_, fun hfree => ?_⟩
  · refine (Function.forall_update_iff s.pc _).mpr ⟨spinStep_knows hstep (hs.knows p) hs.free, fun q hq => ?_⟩
    cases hqh : (s.pc q).holds with
    | false => exact (hs.knows q).outside hqh _
    | true =>
      -- `q` is in the critical section, so `p` is not
      have hp : (s.pc p).holds = false := by
        cases hph : (s.pc p).holds with
        | false => rfl
        | true => exact absurd (hs.tracks.unique hqh hph) hq
      obtain ⟨hdata, hcount, hop⟩ := spinStep_quiet hstep hp
      rw [hop, Option.toList_none, List.append_nil]
      exact (hs.knows q).congr hdata hcount
  · rcases spinStep_lock hstep with ⟨hsame, -⟩ | ⟨-, htaken, -⟩ | ⟨hph, -, hleft⟩
    · -- the lock was free before, so `p` did not hold it
      have hnone : s.shared.dataLock = none := hsame.symm.trans hfree
      have hp : (s.pc p).holds = false := by
        cases hph : (s.pc p).holds with
        | false => rfl
        | true => cases hnone.symm.trans ((hs.tracks p).mpr hph)
      obtain ⟨hdata, -, hop⟩ := spinStep_quiet hstep hp
      rw [hop, Option.toList_none, List.append_nil]
      exact hdata.trans (hs.free hnone)
    · cases htaken.symm.trans hfree
    · obtain ⟨hdata, hop⟩ := spinStep_unlock hstep (hs.knows p) hph hleft
      rw [hop, Option.toList_none, List.append_nil]
      exact hdata

/-- **Every run** keeps it. -/
theorem run_linear (h : (spinlockDemo P).Run tr s) : Linear (ops tr) s := by
  refine System.Run.history (P := fun tr s => Linear (ops tr) s) ?_ ?_ h
  · rintro ⟨g, pc⟩ ⟨rfl, hidle⟩
    have hpc : ∀ p, pc p = .idle := hidle
    refine ⟨fun p => ?_, fun p => ?_, fun _ => rfl⟩
    · simp [hpc p, Pc.holds]
    · simp only [hpc p, Knows]
  · intro tr s e s' _ ih hstep
    rw [ops_snoc]
    exact step_linear ih hstep

/-! ## The numbers of the operations -/

theorem spinlockDemo_numbered : (spinlockDemo P).Numbered numberOf fun s => s.shared.operationCount where
  init := by
    rintro ⟨g, pc⟩ ⟨rfl, -⟩
    rfl
  step := by
    rintro tr s ⟨p, act⟩ s' hrun ⟨g', l', hstep, rfl⟩
    exact spinStep_number hstep ((run_linear hrun).knows p)

/-- The numbers of fewer than 2^64 operations. -/
theorem run_ops_numbers (h : (spinlockDemo P).Run tr s) (hlt : (ops tr).length < 2 ^ 64) :
    (ops tr).map (fun o => o.number.toNat) = List.range' 1 (ops tr).length := by
  have hnum := System.Run.numbered_toNat spinlockDemo_numbered h
  rw [filterMap_numberOf, List.length_map, List.map_map] at hnum
  exact hnum hlt

/-- The operation at an index has the next number. -/
theorem run_op_number (h : (spinlockDemo P).Run tr s) (hlt : (ops tr).length < 2 ^ 64) {i : Nat} {o : Op P}
    (ho : (ops tr)[i]? = some o) : o.number.toNat = i + 1 := by
  obtain ⟨hi, -⟩ := List.getElem?_eq_some_iff.mp ho
  have hmap := congrArg (fun ns => ns[i]?) (run_ops_numbers h hlt)
  simp only [List.getElem?_map, ho, Option.map_some, List.getElem?_range' hi, Option.some.injEq] at hmap
  omega

/-! ## Calls in the critical section -/

/-- The calls that entered are the operations and the call that has not yet taken its number. -/
theorem run_entered (h : (spinlockDemo P).Run tr s) :
    ∃ n, Counts n (fun p => (s.pc p).pending) ∧ entered tr = (ops tr).length + n := by
  refine System.Run.history (P := fun tr s => ∃ n, Counts n (fun p => (s.pc p).pending) ∧
    entered tr = (ops tr).length + n) ?_ ?_ h
  · rintro ⟨g, pc⟩ ⟨rfl, hidle⟩
    have hpc : ∀ p, pc p = .idle := hidle
    exact ⟨0, .zero fun p => by simp only [hpc p, Pc.pending], rfl⟩
  · rintro tr s ⟨p, act⟩ s' - ⟨n, hn, hentered⟩ ⟨g', l', hstep, rfl⟩
    obtain ⟨m, hm, hmn⟩ := hn.step p l'
    have hpending := spinStep_pending hstep
    have hsnoc : entered (tr ++ [(p, act)]) = entered tr + act.isLock.toNat := by
      simp only [entered, List.countP_append, List.countP_singleton]
      cases act.isLock with
      | true => rfl
      | false => rfl
    refine ⟨m, hm, ?_⟩
    rw [hsnoc, ops_snoc, List.length_append]
    simp only at hpending hmn
    omega

/-! ## What readers report -/

/-- What a reader copies to its user it took from the operations. -/
theorem run_copy (h : (spinlockDemo P).Run tr s) {p : P} {text : List UInt8} {fault : Bool}
    (hmem : (p, .copy text fault) ∈ tr) : ∃ data k, text = spinlockText data k ∧ Took (ops tr) p k data := by
  obtain ⟨pre, post, rfl⟩ := List.append_of_mem hmem
  obtain ⟨s₁, s₂, hrun, ⟨g', l', hstep, -⟩, -⟩ := h.cut
  have hknows := (run_linear hrun).knows p
  simp only at hstep
  generalize s₁.pc p = l at hstep hknows
  cases hstep with
  | copy fault =>
    refine ⟨_, _, rfl, ?_⟩
    rw [ops, List.filterMap_append]
    exact Took.append hknows _

/-- The value of the write with the largest number below `k`, or 0. -/
def Latest (os : List (Op P)) (k : UInt64) (data : Int32) : Prop :=
  (∃ o ∈ os, o.number < k ∧ o.wrote = some data ∧
    ∀ o' ∈ os, o'.wrote ≠ none → o'.number < k → o'.number ≤ o.number) ∨
  (data = 0 ∧ ∀ o ∈ os, o.wrote ≠ none → ¬o.number < k)

/-- What a reader took is the latest value at its number. -/
theorem run_latest (h : (spinlockDemo P).Run tr s) (hlt : (ops tr).length < 2 ^ 64) {p : P} {k : UInt64} {data : Int32}
    (htook : Took (ops tr) p k data) : Latest (ops tr) k data := by
  obtain ⟨i, hi, rfl⟩ := htook
  have hk : k.toNat = i + 1 := run_op_number h hlt hi
  -- the operations below `k` are those before the index
  have hbelow : ∀ {j : Nat} {o : Op P}, (ops tr)[j]? = some o → (o.number < k ↔ j < i) := fun ho => by
    rw [UInt64.lt_iff_toNat_lt, run_op_number h hlt ho, hk]
    omega
  have htake : ∀ {j : Nat}, j < i → ((ops tr).take i)[j]? = (ops tr)[j]? := fun hj => List.getElem?_take_of_lt hj
  rcases lastWritten_spec ((ops tr).take i) with ⟨j, o, ho, hwrote, hlast⟩ | ⟨hzero, hnone⟩
  · obtain ⟨hj, -⟩ := List.getElem?_eq_some_iff.mp ho
    rw [List.length_take] at hj
    have hji : j < i := by omega
    rw [htake hji] at ho
    refine .inl ⟨o, List.mem_of_getElem? ho, (hbelow ho).mpr hji, hwrote, fun o' ho' hne hlt' => ?_⟩
    obtain ⟨j', hj'⟩ := List.mem_iff_getElem?.mp ho'
    have hj'i := (hbelow hj').mp hlt'
    have hle := hlast j' o' ((htake hj'i).trans hj') hne
    rw [UInt64.le_iff_toNat_le, run_op_number h hlt hj', run_op_number h hlt ho]
    omega
  · refine .inr ⟨hzero, fun o ho hne hlt' => ?_⟩
    obtain ⟨j, hj⟩ := List.mem_iff_getElem?.mp ho
    have hji := (hbelow hj).mp hlt'
    exact hne (hnone o (List.mem_of_getElem? ((htake hji).trans hj)))

/-- **The spinlock demo linearizes its operations.** In every run with fewer than 2^64 operations: their numbers are
1, …, N in their order, for the calls that entered the critical section (one may be there that has not yet taken its
number); a reader reports its own number and the value of the write with the largest number below it, or 0; a call that
is rejected before the lock returns at once, and no step outside the critical section changes anything. -/
theorem spinlock_linearizes (tr : List (P × Act)) (s : Threads P (Shared P) Pc) (h : (spinlockDemo P).Run tr s)
    (hlt : (ops tr).length < 2 ^ 64) :
    (ops tr).map (fun o => o.number.toNat) = List.range' 1 (ops tr).length ∧
    (∃ inside : Finset P, (∀ p, p ∈ inside ↔ (s.pc p).pending = true) ∧ inside.card ≤ 1 ∧
      entered tr = (ops tr).length + inside.card) ∧
    (∀ p text fault, (p, .copy text fault) ∈ tr →
      ∃ data k, text = spinlockText data k ∧ ⟨p, k, none⟩ ∈ ops tr ∧ Latest (ops tr) k data) ∧
    (∀ p act s', (spinlockDemo P).step s (p, act) s' →
      (∀ ret, (s.pc p).rejected = some ret → act = .refuse ret ∧ s'.shared = s.shared ∧ s'.pc p = .done ret) ∧
      ((s.pc p).holds = false → (s'.pc p).holds = false → s'.shared = s.shared)) := by
  refine ⟨run_ops_numbers h hlt, ?_, fun p text fault hmem => ?_, ?_⟩
  · obtain ⟨n, ⟨inside, hinside, rfl⟩, hentered⟩ := run_entered h
    refine ⟨inside, hinside, Finset.card_le_one.mpr fun p hp q hq => ?_, hentered⟩
    exact (run_linear h).tracks.unique (Pc.holds_of_pending ((hinside p).mp hp))
      (Pc.holds_of_pending ((hinside q).mp hq))
  · obtain ⟨data, k, rfl, htook⟩ := run_copy h hmem
    have hlatest := run_latest h hlt htook
    obtain ⟨i, hi, -⟩ := htook
    exact ⟨data, k, rfl, List.mem_of_getElem? hi, hlatest⟩
  · rintro p act s' ⟨g', l', hstep, rfl⟩
    simp only [Function.update_self]
    exact ⟨fun ret hret => spinStep_rejected hstep hret, spinStep_outside hstep⟩

end Runs

/-- One process writes 5, then the other one reads. -/
def writeThenRead : List (Bool × Act) :=
  [(false, .write (.ofString "5")), (false, .accept), (false, .lock), (false, .storeData 5), (false, .loadCount),
    (false, .storeCount (some 5) 1), (false, .log 5 1), (false, .unlock),
    (true, .read 0), (true, .accept), (true, .lock), (true, .loadData), (true, .loadCount), (true, .storeCount none 2),
    (true, .reload), (true, .unlock), (true, .copy (spinlockText 5 2) false)]

theorem spinlock_linearizes_writeThenRead : ∃ s, (spinlockDemo Bool).Run writeThenRead s ∧
    (ops writeThenRead).map (fun o => o.number.toNat) = [1, 2] ∧ entered writeThenRead = 2 := by
  have hfive : userInt 32 (.ofString "5") = .ok 5 := rfl
  have hrun : (spinlockDemo Bool).Run writeThenRead _ :=
    ⟨⟨⟨none, 0, 0⟩, fun _ => .idle⟩, ⟨rfl, fun _ => rfl⟩,
      .cons ⟨_, _, .write (.ofString "5") rfl, rfl⟩ <| .cons ⟨_, _, .acceptWrite hfive, rfl⟩ <|
      .cons ⟨_, _, .lock rfl, rfl⟩ <| .cons ⟨_, _, .storeData, rfl⟩ <| .cons ⟨_, _, .loadCount, rfl⟩ <|
      .cons ⟨_, _, .storeCount, rfl⟩ <| .cons ⟨_, _, .log, rfl⟩ <| .cons ⟨_, _, .unlockWrite, rfl⟩ <|
      .cons ⟨_, _, .read 0 rfl, rfl⟩ <| .cons ⟨_, _, .acceptRead (by decide), rfl⟩ <|
      .cons ⟨_, _, .lock rfl, rfl⟩ <| .cons ⟨_, _, .loadData, rfl⟩ <| .cons ⟨_, _, .loadCount, rfl⟩ <|
      .cons ⟨_, _, .storeCount, rfl⟩ <| .cons ⟨_, _, .reload, rfl⟩ <| .cons ⟨_, _, .unlockRead, rfl⟩ <|
      .single ⟨_, _, .copy false, rfl⟩⟩
  have hlin := spinlock_linearizes writeThenRead _ hrun (by decide)
  exact ⟨_, hrun, hlin.1, rfl⟩

end KernelModules.Locks.Spinlock
