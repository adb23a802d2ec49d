import KernelModules.Lib.CString
import KernelModules.Lib.Threads

/-!
# A value and its timestamp under a reader-writer lock

Processes call `reader_read` and `writer_write`; one process, the loader, runs `rw_lock_init`, which creates the two
files and only then sets `last_update`, without the lock. The calls are taken apart into their loads and stores.

- `stamps` are the stores to `last_update` in their order, those of writers with the value they belong to; they
  determine both variables (`lastValue`, `lastTime`);
- what the holders of the lock know of the variables stays true while they hold it (`Knows`, `Seen`): `run_seen`;
- so a reader reports the last value and the last timestamp (`run_copy`), which belong together unless `rw_lock_init`
  came after a writer (`untorn_of_not_initLate`): `rwlock_readers_untorn`.
-/

namespace KernelModules.Locks.Rwlock

open Lib

universe u

/-! ## The code -/

/-- `data_rwlock`, `shared_data`, `last_update`, whether the two files exist, and `jiffies`. -/
structure Shared (P : Type u) where
  dataRwlock : RwLock P
  sharedData : Int32
  lastUpdate : UInt64
  procReadEntry : Bool
  procWriteEntry : Bool
  jiffies : UInt64

/-- Where a process is in `rw_lock_init`, `reader_read` or `writer_write`. -/
inductive Pc
  | idle
  /-- `rw_lock_init` has created the reader's file. -/
  | initReader
  /-- It has created both. -/
  | initWriter
  | loaded (ret : Int)
  | reading (pos : Int)
  /-- At `read_lock`. -/
  | atReadLock
  | readLocked
  /-- `shared_data` is loaded. -/
  | readData (data : Int32)
  /-- So is `last_update`. -/
  | readTime (data : Int32) (time : UInt64)
  /-- At `copy_to_user`. -/
  | copying (data : Int32) (time : UInt64)
  | writing (w : UserText)
  /-- At `write_lock`. -/
  | atWriteLock (value : Int32) (count : Nat)
  | writeLocked (value : Int32) (count : Nat)
  /-- `shared_data` is stored. -/
  | storedData (value : Int32) (count : Nat)
  /-- So is `last_update`. -/
  | storedTime (value : Int32) (count : Nat)
  | done (ret : Int)

inductive Act
  | tick
  | createReader
  | createWriter
  | initFailed
  | initStamp (now : UInt64)
  | read (pos : Int)
  | write (w : UserText)
  | refuse (ret : Int)
  | accept
  | readLock
  | loadData
  | loadTime (data : Int32) (time : UInt64)
  | readUnlock
  | copy (text : List UInt8) (fault : Bool)
  | writeLock
  | storeData (value : Int32)
  | stamp (value : Int32) (now : UInt64)
  | writeUnlock

/-- `"Data: %d (updated at jiffies: %lu)\n"`, which fits into the buffer of 128 bytes. -/
def rwlockText (data : Int32) (time : UInt64) : List UInt8 :=
  ascii "Data: " ++ ascii (toString data) ++ ascii " (updated at jiffies: " ++ decimal time.toNat ++ ascii ")\n"

/-- Not in a call. -/
def Pc.outside : Pc → Bool
  | .idle => true
  | .done _ => true
  | _ => false

variable {P : Type u}

/-- One step of process `p`. -/
inductive RwStep (loader p : P) : Shared P → Pc → Act → Shared P → Pc → Prop
  | tick {g : Shared P} {l : Pc} : RwStep loader p g l .tick { g with jiffies := g.jiffies + 1 } l
  | createReader {g : Shared P} : p = loader →
      RwStep loader p g .idle .createReader { g with procReadEntry := true } .initReader
  | noReader {g : Shared P} : p = loader → RwStep loader p g .idle .initFailed g (.loaded (-eNomem))
  | createWriter {g : Shared P} :
      RwStep loader p g .initReader .createWriter { g with procWriteEntry := true } .initWriter
  | noWriter {g : Shared P} :
      RwStep loader p g .initReader .initFailed { g with procReadEntry := false } (.loaded (-eNomem))
  | initStamp {g : Shared P} :
      RwStep loader p g .initWriter (.initStamp g.jiffies) { g with lastUpdate := g.jiffies } (.loaded 0)
  | read {g : Shared P} {l : Pc} (pos : Int) : g.procReadEntry = true → l.outside = true →
      RwStep loader p g l (.read pos) g (.reading pos)
  | seen {g : Shared P} {pos : Int} : pos > 0 → RwStep loader p g (.reading pos) (.refuse 0) g (.done 0)
  | acceptRead {g : Shared P} {pos : Int} : ¬pos > 0 → RwStep loader p g (.reading pos) .accept g .atReadLock
  | readLock {g : Shared P} : g.dataRwlock.writer = none →
      RwStep loader p g .atReadLock .readLock
        { g with dataRwlock := { g.dataRwlock with readers := g.dataRwlock.readers + 1 } } .readLocked
  | loadData {g : Shared P} : RwStep loader p g .readLocked .loadData g (.readData g.sharedData)
  | loadTime {g : Shared P} {data : Int32} :
      RwStep loader p g (.readData data) (.loadTime data g.lastUpdate) g (.readTime data g.lastUpdate)
  | readUnlock {g : Shared P} {data : Int32} {time : UInt64} :
      RwStep loader p g (.readTime data time) .readUnlock
        { g with dataRwlock := { g.dataRwlock with readers := g.dataRwlock.readers - 1 } } (.copying data time)
  | copy {g : Shared P} {data : Int32} {time : UInt64} (fault : Bool) :
      RwStep loader p g (.copying data time) (.copy (rwlockText data time) fault) g
        (.done (if fault then -eFault else (rwlockText data time).length))
  | write {g : Shared P} {l : Pc} (w : UserText) : g.procWriteEntry = true → l.outside = true →
      RwStep loader p g l (.write w) g (.writing w)
  | invalid {g : Shared P} {w : UserText} {e : Int} : userInt 32 w = .error e →
      RwStep loader p g (.writing w) (.refuse e) g (.done e)
  | acceptWrite {g : Shared P} {w : UserText} {value : Int32} : userInt 32 w = .ok value →
      RwStep loader p g (.writing w) .accept g (.atWriteLock value w.count)
  | writeLock {g : Shared P} {value : Int32} {count : Nat} :
      g.dataRwlock.writer = none → g.dataRwlock.readers = 0 →
      RwStep loader p g (.atWriteLock value count) .writeLock
        { g with dataRwlock := { g.dataRwlock with writer := some p } } (.writeLocked value count)
  | storeData {g : Shared P} {value : Int32} {count : Nat} :
      RwStep loader p g (.writeLocked value count) (.storeData value) { g with sharedData := value }
        (.storedData value count)
  | stamp {g : Shared P} {value : Int32} {count : Nat} :
      RwStep loader p g (.storedData value count) (.stamp value g.jiffies) { g with lastUpdate := g.jiffies }
        (.storedTime value count)
  | writeUnlock {g : Shared P} {value : Int32} {count : Nat} :
      RwStep loader p g (.storedTime value count) .writeUnlock
        { g with dataRwlock := { g.dataRwlock with writer := none } } (.done count)

/-- The loader and any number of other processes; `jiffies` starts anywhere. -/
def rwlockDemo [DecidableEq P] (loader : P) : System (Threads P (Shared P) Pc) (P × Act) :=
  interleave (fun g => ∃ jiffies, g = ⟨⟨none, 0⟩, 0, 0, false, false, jiffies⟩) (fun l => l = .idle) (RwStep loader)

/-! ## Timestamps -/

/-- A store to `last_update`: the value of its writer, or none for `rw_lock_init`; and the time. -/
def stampOf : P × Act → Option (Option Int32 × UInt64)
  | (_, .stamp value now) => some (some value, now)
  | (_, .initStamp now) => some (none, now)
  | _ => none

def stamps (tr : List (P × Act)) : List (Option Int32 × UInt64) := tr.filterMap stampOf

/-- The value of the last writer, or 0. -/
def lastValue (ss : List (Option Int32 × UInt64)) : Int32 := ss.foldl (fun v x => x.1.getD v) 0

/-- The last timestamp, or 0. -/
def lastTime (ss : List (Option Int32 × UInt64)) : UInt64 := ss.foldl (fun _ x => x.2) 0

/-- The places between `read_lock` and `read_unlock`. -/
def Pc.reads : Pc → Bool
  | .readLocked => true
  | .readData _ => true
  | .readTime _ _ => true
  | _ => false

/-- The places between `write_lock` and `write_unlock`. -/
def Pc.writes : Pc → Bool
  | .writeLocked _ _ => true
  | .storedData _ _ => true
  | .storedTime _ _ => true
  | _ => false

/-- A reader has loaded the last value and the last timestamp. -/
def Loaded (tr : List (P × Act)) (p : P) (data : Int32) (time : UInt64) : Prop :=
  ∃ pre post, tr = pre ++ (p, .loadTime data time) :: post ∧ data = lastValue (stamps pre) ∧
    time = lastTime (stamps pre)

/-- What process `p` knows of the value. A writer between its two stores is ahead of the timestamps. -/
def Knows (tr : List (P × Act)) (g : Shared P) (p : P) : Pc → Prop
  | .readData data => data = lastValue (stamps tr)
  | .readTime data time => Loaded tr p data time
  | .copying data time => Loaded tr p data time
  | .writeLocked _ _ => g.sharedData = lastValue (stamps tr)
  | .storedData value _ => g.sharedData = value
  | .storedTime _ _ => g.sharedData = lastValue (stamps tr)
  | _ => True

/-- **What the variables are**: the lock is in order, every process is right in what it knows, `last_update` is the last
timestamp, and without a writer `shared_data` is the last value. -/
structure Seen (tr : List (P × Act)) (s : Threads P (Shared P) Pc) : Prop where
  lock : s.shared.dataRwlock.Guards (fun p => (s.pc p).reads) fun p => (s.pc p).writes
  knows : ∀ p, Knows tr s.shared p (s.pc p)
  time : s.shared.lastUpdate = lastTime (stamps tr)
  free : s.shared.dataRwlock.writer = none → s.shared.sharedData = lastValue (stamps tr)

/-! ## One step -/

theorem stamps_snoc (tr : List (P × Act)) (e : P × Act) : stamps (tr ++ [e]) = stamps tr ++ (stampOf e).toList := by
  simp only [stamps, List.filterMap_append, List.filterMap_cons, List.filterMap_nil]
  cases stampOf e with
  | none => rfl
  | some x => rfl

theorem lastValue_snoc (ss : List (Option Int32 × UInt64)) (x : Option Int32 × UInt64) :
    lastValue (ss ++ [x]) = x.1.getD (lastValue ss) := by
  simp only [lastValue, List.foldl_append, List.foldl_cons, List.foldl_nil]

theorem lastTime_snoc (ss : List (Option Int32 × UInt64)) (x : Option Int32 × UInt64) : lastTime (ss ++ [x]) = x.2 := by
  simp only [lastTime, List.foldl_append, List.foldl_cons, List.foldl_nil]

theorem Loaded.append {tr : List (P × Act)} {p : P} {data : Int32} {time : UInt64} (h : Loaded tr p data time)
    (tr' : List (P × Act)) : Loaded (tr ++ tr') p data time := by
  obtain ⟨pre, post, rfl, hdata, htime⟩ := h
  exact ⟨pre, post ++ tr', by rw [List.append_assoc, List.cons_append], hdata, htime⟩

section OneStep

variable {loader p : P} {g g' : Shared P} {l l' : Pc} {act : Act} {tr : List (P × Act)}

theorem Pc.outside_holds (h : l.outside = true) : l.reads = false ∧ l.writes = false := by
  cases l with
  | idle => exact ⟨rfl, rfl⟩
  | done ret => exact ⟨rfl, rfl⟩
  | _ => cases h

/-- What a step does to the lock. -/
theorem rwStep_lock (h : RwStep loader p g l act g' l') :
    RwLock.Move p g.dataRwlock l.reads l.writes g'.dataRwlock l'.reads l'.writes := by
  cases h with
  | read pos _ hl | write w _ hl =>
    rw [(Pc.outside_holds hl).1, (Pc.outside_holds hl).2]
    exact .keep _ _ _
  | readLock hfree => exact .readLock _ hfree
  | readUnlock => exact .readUnlock _ _
  | writeLock hfree hnone => exact .writeLock _ _ hfree hnone
  | writeUnlock => exact .writeUnlock _ _
  | _ => exact .keep _ _ _

/-- Only a writer that holds the lock changes the value. -/
theorem rwStep_quiet (h : RwStep loader p g l act g' l') (hl : l.writes = false) :
    g'.sharedData = g.sharedData ∧ lastValue (stamps (tr ++ [(p, act)])) = lastValue (stamps tr) ∧
      (g'.dataRwlock.writer = none → g.dataRwlock.writer = none) := by
  rw [stamps_snoc]
  cases h with
  | storeData | stamp | writeUnlock => cases hl
  | initStamp => exact ⟨rfl, lastValue_snoc _ _, id⟩
  | writeLock => exact ⟨rfl, congrArg lastValue (List.append_nil _), fun hnone => (by cases hnone)⟩
  | _ => exact ⟨rfl, congrArg lastValue (List.append_nil _), id⟩

/-- `last_update` is the last timestamp. -/
theorem rwStep_time (h : RwStep loader p g l act g' l') (htime : g.lastUpdate = lastTime (stamps tr)) :
    g'.lastUpdate = lastTime (stamps (tr ++ [(p, act)])) := by
  rw [stamps_snoc]
  cases h with
  | initStamp => rw [stampOf, Option.toList_some, lastTime_snoc]
  | stamp => rw [stampOf, Option.toList_some, lastTime_snoc]
  | _ => exact htime.trans (congrArg lastTime (List.append_nil _).symm)

/-- A writer leaves with its value and its timestamp both stored. -/
theorem rwStep_unlock (h : RwStep loader p g l act g' l') (hl : Knows tr g p l) (hwrites : l.writes = true)
    (howner : g.dataRwlock.writer = some p) (hfree : g'.dataRwlock.writer = none) :
    g'.sharedData = lastValue (stamps (tr ++ [(p, act)])) := by
  rw [stamps_snoc]
  cases h with
  | writeUnlock => exact Eq.trans hl (congrArg lastValue (List.append_nil _).symm)
  | tick | storeData | stamp => cases howner.symm.trans hfree
  | read pos _ hout | write w _ hout =>
    rw [(Pc.outside_holds hout).2] at hwrites
    cases hwrites
  | _ => cases hwrites

/-- What a process knows stays true if the value is not changed. -/
theorem Knows.keep {e : P × Act} (h : Knows tr g p l) (hdata : g'.sharedData = g.sharedData)
    (hvalue : lastValue (stamps (tr ++ [e])) = lastValue (stamps tr)) : Knows (tr ++ [e]) g' p l := by
  cases l with
  | readData data => exact Eq.trans h hvalue.symm
  | readTime data time => exact Loaded.append h [e]
  | copying data time => exact Loaded.append h [e]
  | writeLocked value count => exact hdata.trans (Eq.trans h hvalue.symm)
  | storedData value count => exact hdata.trans h
  | storedTime value count => exact hdata.trans (Eq.trans h hvalue.symm)
  | _ => trivial

/-- A process without the lock knows only what it has loaded. -/
theorem Knows.outside {e : P × Act} (h : Knows tr g p l) (hr : l.reads = false) (hw : l.writes = false) :
    Knows (tr ++ [e]) g' p l := by
  cases l with
  | copying data time => exact Loaded.append h [e]
  | readLocked | readData | readTime => cases hr
  | writeLocked | storedData | storedTime => cases hw
  | _ => trivial

/-- The process that makes the step stays right in what it knows. -/
theorem rwStep_knows (h : RwStep loader p g l act g' l') (hl : Knows tr g p l)
    (hread : l.reads = true → g.sharedData = lastValue (stamps tr)) (htime : g.lastUpdate = lastTime (stamps tr))
    (hfree : g.dataRwlock.writer = none → g.sharedData = lastValue (stamps tr)) :
    Knows (tr ++ [(p, act)]) g' p l' := by
  have hvalue : stampOf (p, act) = none → lastValue (stamps tr) = lastValue (stamps (tr ++ [(p, act)])) :=
    fun hnone => by
    rw [stamps_snoc, hnone, Option.toList_none, List.append_nil]
  cases h with
  | tick => exact hl.keep rfl (hvalue rfl).symm
  | loadData => exact (hread rfl).trans (hvalue rfl)
  | loadTime => exact ⟨tr, [], rfl, hl, htime⟩
  | readUnlock => exact Loaded.append hl _
  | writeLock hnone _ => exact (hfree hnone).trans (hvalue rfl)
  | storeData => exact rfl
  | stamp =>
    refine Eq.trans hl ?_
    rw [stamps_snoc, stampOf, Option.toList_some, lastValue_snoc, Option.getD_some]
  | _ => trivial

end OneStep

/-! ## Pairs that belong together -/

/-- No writer has stored its timestamp. -/
def NoWriter (tr : List (P × Act)) : Prop := ∀ q value now, (q, .stamp value now) ∉ tr

/-- The pair of one writer; or, without a writer, 0 with the timestamp of the load or of `rw_lock_init`. -/
def Untorn (tr : List (P × Act)) (data : Int32) (time : UInt64) : Prop :=
  (∃ q, (q, .stamp data time) ∈ tr) ∨ (NoWriter tr ∧ data = 0 ∧ (time = 0 ∨ ∃ q, (q, .initStamp time) ∈ tr))

/-- `rw_lock_init` has stored its timestamp over that of a writer, and no writer came since. -/
def InitLate (tr : List (P × Act)) : Prop :=
  ∃ before after q now, tr = before ++ (q, .initStamp now) :: after ∧ ¬NoWriter before ∧ NoWriter after

section Pairs

variable {tr : List (P × Act)} {e : P × Act}

theorem NoWriter.snoc (h : NoWriter tr) (he : ∀ value now, e.2 ≠ .stamp value now) : NoWriter (tr ++ [e]) := by
  intro q value now hmem
  rcases List.mem_append.mp hmem with hmem | hmem
  · exact h q value now hmem
  · exact he value now (congrArg Prod.snd (List.mem_singleton.mp hmem)).symm

theorem InitLate.snoc (h : InitLate tr) (he : ∀ value now, e.2 ≠ .stamp value now) : InitLate (tr ++ [e]) := by
  obtain ⟨before, after, q, now, rfl, hbefore, hafter⟩ := h
  exact ⟨before, after ++ [e], q, now, by simp, hbefore, hafter.snoc he⟩

theorem Untorn.snoc {data : Int32} {time : UInt64} (h : Untorn tr data time)
    (he : ∀ value now, e.2 ≠ .stamp value now) :
    Untorn (tr ++ [e]) data time := by
  rcases h with ⟨q, hq⟩ | ⟨hnone, hdata, htime⟩
  · exact .inl ⟨q, List.mem_append_left _ hq⟩
  · refine .inr ⟨hnone.snoc he, hdata, htime.imp_right ?_⟩
    rintro ⟨q, hq⟩
    exact ⟨q, List.mem_append_left _ hq⟩

/-- Without a writer the value is 0. -/
theorem NoWriter.lastValue_eq_zero (h : NoWriter tr) : lastValue (stamps tr) = 0 := by
  induction tr using List.reverseRecOn with
  | nil => rfl
  | append_singleton tr e ih =>
    obtain ⟨q, act⟩ := e
    have htr := ih fun r value now hmem => h r value now (List.mem_append_left _ hmem)
    rw [stamps_snoc]
    cases act with
    | stamp value now => exact absurd (List.mem_append_right _ (List.mem_singleton_self _)) (h q value now)
    | initStamp now => rw [stampOf, Option.toList_some, lastValue_snoc, Option.getD_none, htr]
    | _ => exact (congrArg lastValue (List.append_nil _)).trans htr

/-- A label that stores no timestamp. -/
theorem stampOf_eq_none {q : P} {act : Act} (h : stampOf (q, act) = none) : ∀ value now, act ≠ .stamp value now := by
  rintro value now rfl
  cases h

/-- **The last value and the last timestamp** belong together unless `rw_lock_init` came late. -/
theorem untorn_of_not_initLate (h : ¬InitLate tr) : Untorn tr (lastValue (stamps tr)) (lastTime (stamps tr)) := by
  induction tr using List.reverseRecOn with
  | nil => exact .inr ⟨fun _ _ _ hmem => (by cases hmem), rfl, .inl rfl⟩
  | append_singleton tr e ih =>
    obtain ⟨q, act⟩ := e
    rw [stamps_snoc]
    cases hstamp : stampOf (q, act) with
    | none =>
      have hact := stampOf_eq_none hstamp
      rw [Option.toList_none, List.append_nil]
      exact (ih fun hlate => h (hlate.snoc hact)).snoc hact
    | some x =>
      rw [Option.toList_some, lastValue_snoc, lastTime_snoc]
      cases act with
      | stamp value now =>
        obtain rfl := Option.some.inj hstamp
        exact .inl ⟨q, List.mem_append_right _ (List.mem_singleton_self _)⟩
      | initStamp now =>
        obtain rfl := Option.some.inj hstamp
        -- there is no writer before, or `rw_lock_init` is late here
        have hnone : NoWriter tr := Classical.byContradiction fun hwriter =>
          h ⟨tr, [], q, now, rfl, hwriter, fun _ _ _ hmem => (by cases hmem)⟩
        refine .inr ⟨hnone.snoc fun _ _ hact => (by cases hact), ?_, .inr ⟨q, ?_⟩⟩
        · rw [Option.getD_none, hnone.lastValue_eq_zero]
        · exact List.mem_append_right _ (List.mem_singleton_self _)
      | _ => cases hstamp

/-- With a writer the value is a writer's. -/
theorem stamp_lastValue_mem (h : ¬NoWriter tr) : ∃ q now, (q, .stamp (lastValue (stamps tr)) now) ∈ tr := by
  induction tr using List.reverseRecOn with
  | nil => exact absurd (fun _ _ _ hmem => (by cases hmem)) h
  | append_singleton tr e ih =>
    obtain ⟨q, act⟩ := e
    rw [stamps_snoc]
    cases hstamp : stampOf (q, act) with
    | none =>
      obtain ⟨r, t, hmem⟩ := ih fun hnone => h (hnone.snoc (stampOf_eq_none hstamp))
      rw [Option.toList_none, List.append_nil]
      exact ⟨r, t, List.mem_append_left _ hmem⟩
    | some x =>
      rw [Option.toList_some, lastValue_snoc]
      cases act with
      | stamp value now =>
        obtain rfl := Option.some.inj hstamp
        exact ⟨q, now, List.mem_append_right _ (List.mem_singleton_self _)⟩
      | initStamp now =>
        obtain rfl := Option.some.inj hstamp
        obtain ⟨r, t, hmem⟩ := ih fun hnone => h (hnone.snoc fun _ _ hact => (by cases hact))
        exact ⟨r, t, List.mem_append_left _ hmem⟩
      | _ => cases hstamp

/-- Without a writer since the initialization the timestamp is the initialization's. -/
theorem initStamp_lastTime_mem {before after : List (P × Act)} {q : P} {now : UInt64} (h : NoWriter after) :
    ∃ r, (r, .initStamp (lastTime (stamps (before ++ (q, .initStamp now) :: after)))) ∈
      before ++ (q, .initStamp now) :: after := by
  induction after using List.reverseRecOn with
  | nil =>
    rw [stamps_snoc, stampOf, Option.toList_some, lastTime_snoc]
    exact ⟨q, List.mem_append_right _ (List.mem_singleton_self _)⟩
  | append_singleton after e ih =>
    obtain ⟨r, act⟩ := e
    rw [← List.cons_append, ← List.append_assoc, stamps_snoc]
    cases hstamp : stampOf (r, act) with
    | none =>
      obtain ⟨r', hmem⟩ := ih fun q' value t hmem => h q' value t (List.mem_append_left _ hmem)
      rw [Option.toList_none, List.append_nil]
      exact ⟨r', List.mem_append_left _ hmem⟩
    | some x =>
      rw [Option.toList_some, lastTime_snoc]
      cases act with
      | stamp value t => exact absurd (List.mem_append_right _ (List.mem_singleton_self _)) (h r value t)
      | initStamp t =>
        obtain rfl := Option.some.inj hstamp
        exact ⟨r, List.mem_append_right _ (List.mem_singleton_self _)⟩
      | _ => cases hstamp

/-- **A late initialization** shows its timestamp with the value of a writer. -/
theorem torn_of_initLate (h : InitLate tr) : (∃ q now, (q, .stamp (lastValue (stamps tr)) now) ∈ tr) ∧
    ∃ q, (q, .initStamp (lastTime (stamps tr))) ∈ tr := by
  obtain ⟨before, after, q, now, rfl, hbefore, hafter⟩ := h
  refine ⟨stamp_lastValue_mem fun hnone => hbefore fun r value t hmem => ?_, initStamp_lastTime_mem hafter⟩
  exact hnone r value t (List.mem_append_left _ hmem)

end Pairs

section Runs

variable [DecidableEq P] {loader : P} {tr : List (P × Act)} {s s' : Threads P (Shared P) Pc}

/-- **One step** keeps the variables as seen. -/
theorem step_seen {e : P × Act} (hs : Seen tr s) (h : (rwlockDemo loader).step s e s') : Seen (tr ++ [e]) s' := by
  obtain ⟨p, act⟩ := e
  obtain ⟨g', l', hstep, rfl⟩ := h
  refine ⟨hs.lock.step (rwStep_lock hstep), ?_, rwStep_time hstep hs.time, fun hfree => ?_⟩
  · refine (Function.forall_update_iff s.pc _).mpr ⟨?_, fun q hq => ?_⟩
    · refine rwStep_knows hstep (hs.knows p) (fun hr => hs.free ?_) hs.time hs.free
      -- a reader keeps the writers out
      cases howner : s.shared.dataRwlock.writer with
      | none => rfl
      | some r =>
        have hnot := hs.lock.exclusive ((hs.lock.writer r).mp howner) p
        rw [hr] at hnot
        cases hnot
    · cases hpw : (s.pc p).writes with
      | false =>
        obtain ⟨hdata, hvalue, -⟩ := rwStep_quiet hstep hpw
        exact (hs.knows q).keep hdata hvalue
      | true =>
        refine (hs.knows q).outside (hs.lock.exclusive hpw q) ?_
        cases hqw : (s.pc q).writes with
        | false => rfl
        | true => exact absurd (hs.lock.writer.unique hqw hpw) hq
  · cases hpw : (s.pc p).writes with
    | false =>
      obtain ⟨hdata, hvalue, hwriter⟩ := rwStep_quiet hstep hpw
      exact hdata.trans ((hs.free (hwriter hfree)).trans hvalue.symm)
    | true => exact rwStep_unlock hstep (hs.knows p) hpw ((hs.lock.writer p).mpr hpw) hfree

/-- **Every run** keeps it. -/
theorem run_seen (h : (rwlockDemo loader).Run tr s) : Seen tr s := by
  refine System.Run.history (P := fun tr s => Seen tr s) ?_ (fun tr s e s' _ ih hstep => step_seen ih hstep) h
  rintro ⟨g, pc⟩ ⟨⟨jiffies, rfl⟩, hidle⟩
  have hpc : ∀ p, pc p = .idle := hidle
  refine ⟨.unlocked (fun p => ?_) (fun p => ?_), fun p => ?_, rfl, fun _ => rfl⟩
  · simp only [hpc p, Pc.reads]
  · simp only [hpc p, Pc.writes]
  · simp only [hpc p, Knows]

/-- A reader reports what it has loaded. -/
theorem run_copy (h : (rwlockDemo loader).Run tr s) {p : P} {text : List UInt8} {fault : Bool}
    (hmem : (p, .copy text fault) ∈ tr) : ∃ data time, text = rwlockText data time ∧ Loaded tr p data time := by
  obtain ⟨before, after, rfl⟩ := List.append_of_mem hmem
  obtain ⟨s₁, s₂, hrun, ⟨g', l', hstep, -⟩, -⟩ := h.cut
  have hknows := (run_seen hrun).knows p
  simp only at hstep
  generalize s₁.pc p = l at hstep hknows
  cases hstep with
  | copy fault => exact ⟨_, _, rfl, Loaded.append hknows _⟩

/-- **Readers see untorn pairs** unless `rw_lock_init` comes late. In every interleaving, a pair that is reported was
loaded together. If at the load of `last_update` the initialization had not overwritten a writer's timestamp, it is the
pair of one writer, or 0 with the timestamp of the load or of the initialization when no writer has finished; otherwise
it is the value of a writer with the timestamp of the initialization. -/
theorem rwlock_readers_untorn (loader : P) (tr : List (P × Act)) (s : Threads P (Shared P) Pc)
    (h : (rwlockDemo loader).Run tr s) (p : P) (text : List UInt8) (fault : Bool) (hmem : (p, .copy text fault) ∈ tr) :
    ∃ pre post data time, tr = pre ++ (p, Act.loadTime data time) :: post ∧ text = rwlockText data time ∧
      (¬InitLate pre → Untorn pre data time) ∧
      (InitLate pre → (∃ q now, (q, Act.stamp data now) ∈ pre) ∧ ∃ q, (q, Act.initStamp time) ∈ pre) := by
  obtain ⟨data, time, rfl, pre, post, hcut, rfl, rfl⟩ := run_copy h hmem
  exact ⟨pre, post, _, _, hcut, rfl, untorn_of_not_initLate, torn_of_initLate⟩

end Runs

/-- The loader creates the files; another process writes 5 at jiffies 100. -/
def fiveWritten : List (Bool × Act) :=
  [(false, .createReader), (false, .createWriter), (true, .write (.ofString "5")), (true, .accept), (true, .writeLock),
    (true, .storeData 5), (true, .stamp 5 100), (true, .writeUnlock)]

theorem run_fiveWritten : ∃ pc : Bool → Pc,
    (rwlockDemo false).Run fiveWritten ⟨⟨⟨none, 0⟩, 5, 100, true, true, 100⟩, pc⟩ ∧
    pc false = .initWriter ∧ pc true = .done 1 := by
  have hfive : userInt 32 (.ofString "5") = .ok 5 := rfl
  exact ⟨_, ⟨⟨⟨⟨none, 0⟩, 0, 0, false, false, 100⟩, fun _ => .idle⟩, ⟨⟨100, rfl⟩, fun _ => rfl⟩,
    .cons ⟨_, _, .createReader rfl, rfl⟩ <| .cons ⟨_, _, .createWriter, rfl⟩ <|
    .cons ⟨_, _, .write (.ofString "5") rfl rfl, rfl⟩ <|
    .cons ⟨_, _, .acceptWrite hfive, rfl⟩ <| .cons ⟨_, _, .writeLock rfl rfl, rfl⟩ <| .cons ⟨_, _, .storeData, rfl⟩ <|
    .cons ⟨_, _, .stamp, rfl⟩ <| .single ⟨_, _, .writeUnlock, rfl⟩⟩, rfl, rfl⟩

/-- The labels of a read up to the load of `last_update`, and after it. -/
def readStart : List (Bool × Act) := [(true, .read 0), (true, .accept), (true, .readLock), (true, .loadData)]

def readEnd (data : Int32) (time : UInt64) : List (Bool × Act) :=
  [(true, .readUnlock), (true, .copy (rwlockText data time) false)]

/-- A process reads while nobody interferes. -/
theorem path_read {pc : Bool → Pc} {data : Int32} {time now : UInt64} (h : (pc true).outside = true) :
    ∃ s, (rwlockDemo false).Path ⟨⟨⟨none, 0⟩, data, time, true, true, now⟩, pc⟩
      (readStart ++ (true, Act.loadTime data time) :: readEnd data time) s :=
  ⟨_, .cons ⟨_, _, .read 0 rfl h, rfl⟩ <| .cons ⟨_, _, .acceptRead (by decide), rfl⟩ <|
    .cons ⟨_, _, .readLock rfl, rfl⟩ <|
    .cons ⟨_, _, .loadData, rfl⟩ <| .cons ⟨_, _, .loadTime, rfl⟩ <| .cons ⟨_, _, .readUnlock, rfl⟩ <|
    .single ⟨_, _, .copy false, rfl⟩⟩

/-- The loader goes on one tick after the write. -/
def loaderLate : List (Bool × Act) := [(false, .tick), (false, .initStamp 101)]

/-- A reader then sees the writer's value with the loader's timestamp. -/
theorem rwlock_reader_torn : ∃ pre post s, (rwlockDemo false).Run (pre ++ (true, Act.loadTime 5 101) :: post) s ∧
    (true, Act.copy (rwlockText 5 101) false) ∈ post ∧ ¬Untorn pre 5 101 := by
  obtain ⟨pc, hwritten, hinit, hdone⟩ := run_fiveWritten
  have hpc : pc = Function.update pc false .initWriter := by rw [← hinit, Function.update_eq_self]
  have hlate : (rwlockDemo false).Path ⟨⟨⟨none, 0⟩, 5, 100, true, true, 100⟩, Function.update pc false .initWriter⟩
    loaderLate
      ⟨⟨⟨none, 0⟩, 5, 101, true, true, 101⟩, Function.update pc false (.loaded 0)⟩ :=
    .cons (interleave_step_update .tick pc) (.single (interleave_step_update .initStamp pc))
  rw [← hpc] at hlate
  have hout : (Function.update pc false (.loaded 0) true).outside = true := by
    rw [Function.update_of_ne (by decide), hdone]
    rfl
  obtain ⟨s, hread⟩ := path_read hout
  have hrun := (hwritten.extend hlate).extend hread
  rw [← List.append_assoc] at hrun
  refine ⟨_, readEnd 5 101, s, hrun, List.mem_cons_of_mem _ (List.mem_singleton_self _), ?_⟩
  rintro (⟨q, hq⟩ | ⟨hnone, -⟩)
  · simp [fiveWritten, loaderLate, readStart] at hq
  · exact hnone true 5 100 (by simp [fiveWritten])

/-- A reader that comes before the loader goes on. -/
theorem rwlock_readers_untorn_fiveWritten :
    ∃ s, (rwlockDemo false).Run (fiveWritten ++ (readStart ++ (true, Act.loadTime 5 100) :: readEnd 5 100)) s ∧
      ∃ pre post data time,
        fiveWritten ++ (readStart ++ (true, Act.loadTime 5 100) :: readEnd 5 100) =
          pre ++ (true, Act.loadTime data time) :: post ∧
        rwlockText 5 100 = rwlockText data time ∧ Untorn pre data time := by
  obtain ⟨pc, hwritten, -, hdone⟩ := run_fiveWritten
  have hout : (pc true).outside = true := by
    rw [hdone]
    rfl
  obtain ⟨s, hread⟩ := path_read hout
  have hrun := hwritten.extend hread
  have hmem : (true, Act.copy (rwlockText 5 100) false) ∈
      fiveWritten ++ (readStart ++ (true, Act.loadTime 5 100) :: readEnd 5 100) := by simp [readEnd]
  obtain ⟨pre, post, data, time, hcut, htext, huntorn, -⟩ := rwlock_readers_untorn false _ s hrun true _ false hmem
  refine ⟨s, hrun, pre, post, data, time, hcut, htext, huntorn ?_⟩
  -- the loader has stored no timestamp
  rintro ⟨before, after, q, now, rfl, -⟩
  have hinit : (q, Act.initStamp now) ∈ before ++ (q, Act.initStamp now) :: after ++
    (true, Act.loadTime data time) :: post :=
    List.mem_append_left _ (List.mem_append_right _ List.mem_cons_self)
  rw [← hcut] at hinit
  simp [fiveWritten, readStart, readEnd] at hinit

end KernelModules.Locks.Rwlock
