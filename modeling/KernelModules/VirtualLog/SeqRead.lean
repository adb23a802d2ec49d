import Mathlib.Data.List.Induction
import KernelModules.Lib.Runs
import KernelModules.VirtualLog.Newest

/-!
# Reading the log in passes

One open file reads the log while entries are added. A pass calls `log_seq_start` at the saved position, then
`log_seq_show` and `log_seq_next` in turn, and `log_seq_stop` before an entry that is not shown or at `NULL`; a pass
whose start returns `NULL` is the end of file. Entries are added at any moment.

- `Progress`: what was shown are the records of increasing message numbers, all below the reader's position
  (`step_progress`, `run_progress`);
- the ids shown increase strictly, and without a shift the read shows exactly the log (`virtual_log_reading_ordered`);
- a shift between two passes makes the reader skip an entry (`virtual_log_reading_skips`); a read is complete when the
  log only shifts before the first or after the last entry of the array was shown (`virtual_log_reading_complete`).
-/

namespace KernelModules.VirtualLog

open Lib

/-! ## The reader -/

/-- Where an open file stands. -/
inductive Reader
  /-- No pass is under way; the position is saved. -/
  | idle (pos : Nat)
  /-- The entry at the position is about to be shown. -/
  | pointing (pos : Nat)
  /-- The entry at the position has been shown. -/
  | printed (pos : Nat)
  /-- `log_seq_next` returned `NULL`. -/
  | ended (pos : Nat)

/-- The index of the first entry not yet shown. -/
def Reader.passed : Reader → Nat
  | .idle pos => pos
  | .pointing pos => pos
  | .printed pos => pos + 1
  | .ended pos => pos

/-- What `log_seq_next` returned. -/
def Reader.moved : Nat × Option Nat → Reader
  | (_, some v) => .pointing v
  | (pos, none) => .ended pos

structure State where
  log : Log
  reader : Reader

inductive Event
  | add (jiffies : UInt64) (message : List UInt8)
  | start
  | eof
  | print (e : LogEntry)
  | next
  | stop

inductive Step : State → Event → State → Prop
  | add {l : Log} {r : Reader} (jiffies : UInt64) (message : List UInt8) :
      Step ⟨l, r⟩ (.add jiffies message) ⟨addLogEntry l jiffies message, r⟩
  | start {l : Log} {pos v : Nat} : logSeqStart l pos = some v → Step ⟨l, .idle pos⟩ .start ⟨l, .pointing v⟩
  | eof {l : Log} {pos : Nat} : logSeqStart l pos = none → Step ⟨l, .idle pos⟩ .eof ⟨l, .idle pos⟩
  | print {l : Log} {v : Nat} {e : LogEntry} :
      logSeqShow l v = some e → Step ⟨l, .pointing v⟩ (.print e) ⟨l, .printed v⟩
  | next {l : Log} {v : Nat} : Step ⟨l, .printed v⟩ .next ⟨l, .moved (logSeqNext l v)⟩
  | stop {l : Log} {v : Nat} : Step ⟨l, .pointing v⟩ .stop ⟨l, .idle v⟩
  | stopNull {l : Log} {pos : Nat} : Step ⟨l, .ended pos⟩ .stop ⟨l, .idle pos⟩

/-- One open file reads from the start a log to which `ms` were added before. -/
def reading (ms : List Message) : System State Event where
  init s := s = ⟨addLogEntries .empty ms, .idle 0⟩
  step := Step

/-- The messages added during a read. -/
def added (tr : List Event) : List Message :=
  tr.filterMap fun | .add jiffies message => some (jiffies, message) | _ => none

/-- The entries shown to the reader. -/
def shown (tr : List Event) : List LogEntry := tr.filterMap fun | .print e => some e | _ => none

@[simp] theorem added_append (tr tr' : List Event) : added (tr ++ tr') = added tr ++ added tr' :=
  List.filterMap_append

@[simp] theorem shown_append (tr tr' : List Event) : shown (tr ++ tr') = shown tr ++ shown tr' :=
  List.filterMap_append

/-! ## Message numbers -/

/-- The number of the oldest message in a log to which `n` were added. -/
def oldest (n : Nat) : Nat := n - maxLogEntries

theorem oldest_mono {n n' : Nat} (h : n ≤ n') : oldest n ≤ oldest n' := Nat.sub_le_sub_right h _

section Numbers

variable {l : Log} {ms : List Message} {i : Nat}

theorem Holds.getElem?_entries (h : Holds l ms) : l.entries[i]? = (records ms)[oldest ms.length + i]? := by
  rw [h.shows, getElem?_newest, length_records, oldest]

/-- What `log_seq_show` prints at an occupied index. -/
theorem Holds.logSeqShow_eq (h : Holds l ms) (hi : i < l.logCount) :
    logSeqShow l i = (records ms)[oldest ms.length + i]? := by
  rw [← h.getElem?_entries, Log.entries, List.getElem?_take_of_lt hi]
  rfl

theorem logSeqShow_entries (hi : i < l.entries.length) : logSeqShow l i = some l.entries[i] := by
  have hlt : i < l.logCount := by
    rw [Log.entries, List.length_take] at hi
    omega
  rw [← List.getElem?_eq_getElem, Log.entries, List.getElem?_take_of_lt hlt]
  rfl

/-- Entries keep their records when messages are added. -/
theorem getElem?_records_append {g : Nat} {e : LogEntry} (new : List Message)
    (h : (records ms)[g]? = some e) : (records (ms ++ new))[g]? = some e := by
  have hg : g < ms.length := by
    have := (List.getElem?_eq_some_iff.mp h).1
    rwa [length_records] at this
  rw [getElem?_records, List.getElem?_append_left hg, ← getElem?_records, h]

end Numbers

theorem logSeqStart_some {l : Log} {pos v : Nat} (h : logSeqStart l pos = some v) : v = pos ∧ pos < l.logCount := by
  unfold logSeqStart at h
  split at h
  · cases h
  · cases h
    exact ⟨rfl, by omega⟩

theorem logSeqStart_none {l : Log} {pos : Nat} (h : logSeqStart l pos = none) : l.logCount ≤ pos := by
  unfold logSeqStart at h
  split at h
  · assumption
  · cases h

/-! ## Progress of a read -/

/-- The history of the log at the end of a run. -/
def history (ms : List Message) (tr : List Event) : List Message := ms ++ added tr

/-- The log and the reader's position in it. -/
structure Placed (ms : List Message) (tr : List Event) (s : State) : Prop where
  log : Holds s.log (history ms tr)
  passed : s.reader.passed ≤ s.log.logCount
  pointing : ∀ v, s.reader = .pointing v → v < s.log.logCount

/-- What was shown are the records of the messages `gs`. -/
structure Progress (ms : List Message) (tr : List Event) (s : State) (gs : List Nat) : Prop where
  shown : (shown tr).map some = gs.map fun g => (records (history ms tr))[g]?
  sorted : gs.Pairwise (· < ·)
  below : ∀ g ∈ gs, g < oldest (history ms tr).length + s.reader.passed
  exact : oldest (history ms tr).length = oldest ms.length →
    gs = (List.range s.reader.passed).map fun i => oldest ms.length + i

section Steps

variable {ms : List Message} {tr : List Event} {s s' : State} {e : Event}

/-- A step adds an entry, shows the entry the reader points to, or does neither and keeps the reader's place. -/
theorem step_cases (hs : Step s e s') :
    (∃ m : Message, e = .add m.1 m.2 ∧ s' = ⟨addLogEntry s.log m.1 m.2, s.reader⟩) ∨
    (∃ v x, e = .print x ∧ s.reader = .pointing v ∧ logSeqShow s.log v = some x ∧ s' = ⟨s.log, .printed v⟩) ∨
    (added [e] = [] ∧ shown [e] = [] ∧ s'.log = s.log ∧ s'.reader.passed = s.reader.passed ∧
      ∀ v, s'.reader = .pointing v → v < s.log.logCount) := by
  cases hs with
  | add jiffies message => exact .inl ⟨(jiffies, message), rfl, rfl⟩
  | print hshow => exact .inr (.inl ⟨_, _, rfl, rfl, hshow, rfl⟩)
  | start hstart =>
    obtain ⟨rfl, hlt⟩ := logSeqStart_some hstart
    refine .inr (.inr ⟨rfl, rfl, rfl, rfl, ?_⟩)
    rintro v ⟨⟩
    exact hlt
  | eof => exact .inr (.inr ⟨rfl, rfl, rfl, rfl, fun v hv => by cases hv⟩)
  | @next l v =>
    refine .inr (.inr ⟨rfl, rfl, rfl, ?_⟩)
    unfold logSeqNext
    split
    · exact ⟨rfl, fun v hv => by cases hv⟩
    · refine ⟨rfl, ?_⟩
      rintro v ⟨⟩
      exact Nat.lt_of_not_le ‹_›
  | stop => exact .inr (.inr ⟨rfl, rfl, rfl, rfl, fun v hv => by cases hv⟩)
  | stopNull => exact .inr (.inr ⟨rfl, rfl, rfl, rfl, fun v hv => by cases hv⟩)

theorem history_add (ms : List Message) (tr : List Event) (m : Message) :
    history ms (tr ++ [.add m.1 m.2]) = history ms tr ++ [m] := by simp [history, added]

theorem history_silent (ms : List Message) (tr : List Event) (h : added [e] = []) :
    history ms (tr ++ [e]) = history ms tr := by rw [history, history, added_append, h, List.append_nil]

/-- An entry added leaves the shown ones alone. -/
theorem shown_add (tr : List Event) (m : Message) : shown (tr ++ [.add m.1 m.2]) = shown tr := by
  simp [shown]

/-- A step keeps the reader within the log. -/
theorem step_placed (h : Placed ms tr s) (hs : Step s e s') : Placed ms (tr ++ [e]) s' := by
  obtain ⟨hlog, hpassed, hpoint⟩ := h
  obtain ⟨m, rfl, rfl⟩ | ⟨v, x, rfl, hv, hx, rfl⟩ | ⟨ha, hsh, hl, hp, hnew⟩ := step_cases hs
  · have hnext := hlog.add m
    have hgrow : s.log.logCount ≤ (addLogEntry s.log m.1 m.2).logCount := by
      rw [hnext.count, hlog.count, List.length_append, List.length_singleton]
      omega
    rw [← history_add] at hnext
    exact ⟨hnext, Nat.le_trans hpassed hgrow, fun v hv => Nat.lt_of_lt_of_le (hpoint v hv) hgrow⟩
  · refine ⟨?_, hpoint v hv, fun v hv => by cases hv⟩
    rw [history_silent ms tr rfl]
    exact hlog
  · refine ⟨?_, by rw [hp, hl]; exact hpassed, by rw [hl]; exact hnew⟩
    rw [history_silent ms tr ha, hl]
    exact hlog

/-- What was shown stays a record of the longer history. -/
theorem shown_stable {gs : List Nat} {H : List Message} {xs : List LogEntry}
    (h : xs.map some = gs.map fun g => (records H)[g]?) (m : Message) :
    xs.map some = gs.map fun g => (records (H ++ [m]))[g]? := by
  rw [h]
  apply List.map_congr_left
  intro g hg
  have hmem : (records H)[g]? ∈ xs.map some := by
    rw [h]
    exact List.mem_map_of_mem hg
  obtain ⟨x, _, hx⟩ := List.mem_map.mp hmem
  rw [← hx, getElem?_records_append [m] hx.symm]

/-- **One step** shows at most the record of one message, whose number is above all those shown. -/
theorem step_progress {gs : List Nat} (h : Placed ms tr s) (hp : Progress ms tr s gs) (hs : Step s e s') :
    ∃ gs', Progress ms (tr ++ [e]) s' gs' := by
  obtain ⟨hshown, hsorted, hbelow, hexact⟩ := hp
  obtain ⟨m, rfl, rfl⟩ | ⟨v, x, rfl, hv, hx, rfl⟩ | ⟨ha, hsh, hl, hpass, hnew⟩ := step_cases hs
  · have hle : oldest (history ms tr).length ≤ oldest (history ms tr ++ [m]).length := by
      rw [List.length_append]
      exact oldest_mono (Nat.le_add_right _ _)
    have hfirst : oldest ms.length ≤ oldest (history ms tr).length := by
      rw [history, List.length_append]
      exact oldest_mono (Nat.le_add_right _ _)
    refine ⟨gs, ?_, hsorted, fun g hg => ?_, fun heq => ?_⟩
    · rw [shown_add, history_add]
      exact shown_stable hshown m
    · rw [history_add]
      exact Nat.lt_of_lt_of_le (hbelow g hg) (Nat.add_le_add_right hle _)
    · rw [history_add] at heq
      exact hexact (Nat.le_antisymm (heq ▸ hle) hfirst)
  · -- the entry shown is the record of the first message not yet passed
    have hpassed : s.reader.passed = v := by rw [hv]; rfl
    rw [h.log.logSeqShow_eq (h.pointing v hv)] at hx
    refine ⟨gs ++ [oldest (history ms tr).length + v], ?_, ?_, ?_, ?_⟩
    · rw [history_silent ms tr rfl, shown_append, List.map_append, List.map_append, hshown]
      rw [List.map_singleton, hx]
      rfl
    · rw [List.pairwise_append]
      refine ⟨hsorted, List.pairwise_singleton _ _, fun g hg g' hg' => ?_⟩
      rw [List.mem_singleton.mp hg', ← hpassed]
      exact hbelow g hg
    · rw [history_silent ms tr rfl]
      intro g hg
      rcases List.mem_append.mp hg with hg | hg
      · have := hbelow g hg
        rw [hpassed] at this
        exact Nat.lt_succ_of_lt this
      · rw [List.mem_singleton.mp hg]
        exact Nat.lt_succ_self _
    · rw [history_silent ms tr rfl]
      intro heq
      rw [hexact heq, heq, hpassed, Reader.passed, List.range_succ, List.map_append, List.map_singleton]
  · refine ⟨gs, ?_, hsorted, ?_, ?_⟩
    · rw [history_silent ms tr ha, shown_append, hsh, List.append_nil]
      exact hshown
    · rw [history_silent ms tr ha, hpass]
      exact hbelow
    · rw [history_silent ms tr ha, hpass]
      exact hexact

/-- **A whole read**: the reader stays within the log and what it was shown are records of increasing numbers. -/
theorem run_progress (h : (reading ms).Run tr s) : Placed ms tr s ∧ ∃ gs, Progress ms tr s gs := by
  refine System.Run.history (P := fun tr s => Placed ms tr s ∧ ∃ gs, Progress ms tr s gs) ?_ ?_ h
  · rintro s rfl
    refine ⟨⟨?_, Nat.zero_le _, fun v hv => by cases hv⟩, [], ⟨rfl, List.Pairwise.nil, ?_, fun _ => rfl⟩⟩
    swap
    · rintro g ⟨⟩
    rw [history, added, List.filterMap_nil, List.append_nil]
    exact addLogEntries_holds ms
  · rintro tr s e s' - ⟨hplaced, gs, hp⟩ hs
    exact ⟨step_placed hplaced hs, step_progress hplaced hp hs⟩

/-- At the end of file the reader has passed the whole log. -/
theorem passed_of_eof (h : Placed ms tr s) (hs : Step s .eof s') : s'.reader.passed = s'.log.logCount := by
  have hpassed := h.passed
  cases hs with
  | eof hnull => exact Nat.le_antisymm hpassed (logSeqStart_none hnull)

end Steps

/-! ## Order -/

/-- No entry is added while the log is full. -/
def NoShift (ms : List Message) (tr : List Event) : Prop :=
  ∀ pre jiffies message post, tr = pre ++ .add jiffies message :: post →
    (addLogEntries .empty (history ms pre)).logCount < maxLogEntries

theorem NoShift.init {ms : List Message} {tr : List Event} {e : Event} (h : NoShift ms (tr ++ [e])) :
    NoShift ms tr := by
  rintro pre jiffies message post rfl
  exact h pre jiffies message (post ++ [e]) (by rw [List.append_assoc, List.cons_append])

/-- Without a shift the oldest message stays. -/
theorem NoShift.oldest_eq {ms : List Message} {tr : List Event} (h : NoShift ms tr) :
    oldest (history ms tr).length = oldest ms.length := by
  induction tr using List.reverseRecOn with
  | nil => rw [history, added, List.filterMap_nil, List.append_nil]
  | append_singleton tr e ih =>
    cases e with
    | add jiffies message =>
      have hfree := h tr jiffies message [] rfl
      rw [(addLogEntries_holds _).count] at hfree
      have hlast := ih h.init
      rw [history_add ms tr (jiffies, message), List.length_append, List.length_singleton]
      unfold oldest at hlast ⊢
      omega
    | _ => rw [history_silent ms tr rfl, ih h.init]

/-- The records from one number on, listed by their numbers. -/
theorem map_some_drop {xs : List LogEntry} {k n : Nat} (h : k + n = xs.length) :
    (xs.drop k).map some = (List.range n).map fun i => xs[k + i]? := by
  apply List.ext_getElem?
  intro i
  rw [List.getElem?_map, List.getElem?_drop, List.getElem?_map]
  by_cases hi : i < n
  · rw [List.getElem?_range hi, Option.map_some, List.getElem?_eq_getElem (by omega), Option.map_some]
  · rw [List.getElem?_eq_none (by omega), List.getElem?_eq_none (by rw [List.length_range]; omega)]
    rfl

/-- The ids of records are their numbers plus one. -/
theorem ids_of_numbers {H : List Message} {xs : List LogEntry} {gs : List Nat} (hn : H.length < 2 ^ 31)
    (h : xs.map some = gs.map fun g => (records H)[g]?) :
    xs.map (fun e => e.entryId.toInt) = gs.map fun g => ((g + 1 : Nat) : Int) := by
  apply List.ext_getElem?
  intro i
  have hi := congrArg (fun l => l[i]?) h
  simp only [List.getElem?_map, getElem?_records] at hi ⊢
  cases hx : xs[i]? with
  | none =>
    rw [hx] at hi
    rw [Option.map_eq_none_iff.mp hi.symm]
    rfl
  | some x =>
    rw [hx] at hi
    obtain ⟨g, hg, hrec⟩ := Option.map_eq_some_iff.mp hi.symm
    obtain ⟨m, hm, rfl⟩ := Option.map_eq_some_iff.mp hrec
    have hlt := (List.getElem?_eq_some_iff.mp hm).1
    rw [hg, Option.map_some, Option.map_some, toInt_entryId (Nat.lt_of_le_of_lt hlt hn)]

/-- **Reading in order.** Whatever is added during the read, the ids shown increase strictly; and if nothing is added
while the log is full, a read to the end of file has shown exactly the entries of the log. -/
theorem virtual_log_reading_ordered (ms : List Message) (tr : List Event) (s : State) (h : (reading ms).Run tr s)
    (hn : (ms ++ added tr).length < 2 ^ 31) :
    ((shown tr).map fun e => e.entryId.toInt).Pairwise (· < ·) ∧
      (∀ tr', tr = tr' ++ [.eof] → NoShift ms tr → shown tr = s.log.logBuffer.take s.log.logCount) := by
  obtain ⟨hplaced, gs, hp⟩ := run_progress h
  refine ⟨?_, ?_⟩
  · rw [ids_of_numbers hn hp.shown, List.pairwise_map]
    exact hp.sorted.imp fun {a b} hab => by omega
  · rintro tr' rfl hno
    obtain ⟨s₁, s₂, hrun, hstep, hnil⟩ := System.Run.cut h
    have hpassed := passed_of_eof (run_progress hrun).1 hstep
    cases hnil
    -- the numbers shown are those of the whole log
    have hcount := hplaced.log.count
    have hall : oldest (history ms (tr' ++ [.eof])).length + s.reader.passed =
        (records (history ms (tr' ++ [.eof]))).length := by
      rw [length_records, hpassed, hcount, oldest]
      omega
    have hentries : s.log.entries.map some = (shown (tr' ++ [.eof])).map some := by
      rw [hp.shown, hp.exact hno.oldest_eq, List.map_map, hplaced.log.shows, newest, length_records,
        ← oldest, map_some_drop hall, hno.oldest_eq]
      rfl
    exact ((List.map_inj_right fun _ _ => Option.some.inj).mp hentries).symm

/-! ## Reads to the end of file -/

section ToEnd

variable (ms : List Message) {l : Log}

/-- A pass that is not stopped shows the rest of the log. -/
theorem read_pass (hle : l.logCount ≤ l.logBuffer.length) {n v : Nat} (hv : v + n + 1 = l.logCount) : ∃ tr,
    (reading ms).Path ⟨l, .pointing v⟩ tr ⟨l, .ended l.logCount⟩ ∧ shown tr = l.entries.drop v ∧ added tr = [] := by
  induction n generalizing v with
  | zero =>
    have hlt : v < l.entries.length := by rw [Log.entries, List.length_take]; omega
    have hlast : v + 1 = l.entries.length := by rw [Log.entries, List.length_take]; omega
    have hend : Reader.moved (logSeqNext l v) = .ended l.logCount := by
      rw [logSeqNext, if_pos (by omega), ← hv]
      rfl
    refine ⟨[.print l.entries[v], .next], .cons (.print (logSeqShow_entries hlt)) (.cons ?_ (.nil _)), ?_, rfl⟩
    · rw [← hend]; exact .next
    · rw [List.drop_eq_getElem_cons hlt, hlast, List.drop_length]
      rfl
  | succ n ih =>
    have hlt : v < l.entries.length := by rw [Log.entries, List.length_take]; omega
    have hmove : Reader.moved (logSeqNext l v) = .pointing (v + 1) := by
      rw [logSeqNext, if_neg (by omega)]
      rfl
    obtain ⟨tr, hpath, hshown, hadded⟩ := @ih (v + 1) (by omega)
    refine ⟨.print l.entries[v] :: .next :: tr, .cons (.print (logSeqShow_entries hlt)) (.cons ?_ hpath), ?_, hadded⟩
    · rw [← hmove]; exact .next
    · rw [List.drop_eq_getElem_cons hlt, ← hshown]
      rfl

/-- From every position the rest of the log can be read to the end of file. -/
theorem read_to_eof {H : List Message} (h : Holds l H) {pos : Nat} (hpos : pos ≤ l.logCount) :
    ∃ tr, (reading ms).Path ⟨l, .idle pos⟩ (tr ++ [.eof]) ⟨l, .idle l.logCount⟩ ∧ shown tr = l.entries.drop pos ∧
      added tr = [] := by
  have heof : (reading ms).Path ⟨l, .idle l.logCount⟩ [.eof] ⟨l, .idle l.logCount⟩ :=
    .single (.eof (if_pos (Nat.le_refl _)))
  have hle : l.logCount ≤ l.logBuffer.length := by rw [h.size, h.count]; exact Nat.min_le_right _ _
  by_cases hend : pos = l.logCount
  · refine ⟨[], by rw [hend]; exact heof, ?_, rfl⟩
    rw [hend, Log.entries, List.drop_of_length_le (by rw [List.length_take]; omega)]
    rfl
  · obtain ⟨tr, hpath, hshown, hadded⟩ := @read_pass ms l hle (l.logCount - pos - 1) pos (by omega)
    refine ⟨.start :: (tr ++ [.stop]), ?_, ?_, ?_⟩
    · have hstop := hpath.append (System.Path.single Step.stopNull)
      exact .cons (.start (if_neg (by omega))) (hstop.append heof)
    · simpa [shown] using hshown
    · simpa [added] using hadded

end ToEnd

theorem virtual_log_reading_ordered_initial : ∃ tr s, (reading (initialHistory fun _ => 0)).Run tr s ∧
    ((shown tr).map fun e => e.entryId.toInt).Pairwise (· < ·) ∧ shown tr = s.log.logBuffer.take s.log.logCount ∧
    s.log.logCount = 5 := by
  have hlog := addLogEntries_holds (initialHistory fun _ => 0)
  obtain ⟨tr, hpath, -, hadded⟩ := read_to_eof (initialHistory fun _ => 0) hlog (Nat.zero_le _)
  have hnone : added (tr ++ [.eof]) = [] := by rw [added_append, hadded]; rfl
  have hno : NoShift (initialHistory fun _ => 0) (tr ++ [.eof]) := by
    intro pre jiffies message post htr
    rw [htr, added_append] at hnone
    simp [added] at hnone
  obtain ⟨hsorted, hall⟩ := virtual_log_reading_ordered _ _ _ ⟨_, rfl, hpath⟩ (by rw [hnone]; decide)
  exact ⟨_, _, ⟨_, rfl, hpath⟩, hsorted, hall tr rfl hno, hlog.count⟩

/-! ## Completeness -/

/-- Entry number `g` of a log to which `n` messages were added, if it is there. -/
def Log.numbered (l : Log) (n g : Nat) : Option LogEntry :=
  if n - l.logCount ≤ g then l.entries[g - (n - l.logCount)]? else none

theorem Holds.numbered_iff {l : Log} {ms : List Message} (h : Holds l ms) {g : Nat} {e : LogEntry} :
    l.numbered ms.length g = some e ↔ oldest ms.length ≤ g ∧ (records ms)[g]? = some e := by
  have hcount : ms.length - l.logCount = oldest ms.length := by
    rw [h.count, oldest]
    omega
  unfold Log.numbered
  rw [hcount]
  by_cases hg : oldest ms.length ≤ g
  · rw [if_pos hg, h.getElem?_entries, Nat.add_sub_of_le hg]
    simp [hg]
  · simp [hg]

/-- The log is not full, or the reader has shown none or all of the array. -/
def Settled (s : State) : Event → Prop
  | .add _ _ => s.log.logCount < maxLogEntries ∨ s.reader.passed = 0 ∨ s.log.logCount ≤ s.reader.passed
  | _ => True

/-- Reads during which entries are added at settled moments only. -/
def settledReading (ms : List Message) : System State Event := (reading ms).restrict Settled

/-- The messages from before the read that the reader has passed were shown. -/
def Covered (ms : List Message) (tr : List Event) (s : State) : Prop :=
  ∀ g, oldest (history ms tr).length ≤ g → g < oldest (history ms tr).length + s.reader.passed → g < ms.length →
    ∃ e ∈ shown tr, (records (history ms tr))[g]? = some e

section Completeness

variable {ms : List Message} {tr : List Event} {s s' : State} {e : Event}

/-- A step at a settled moment passes no entry that is not shown. -/
theorem step_covered (h : Placed ms tr s) (hc : Covered ms tr s) (hs : Step s e s') (hsettled : Settled s e) :
    Covered ms (tr ++ [e]) s' := by
  obtain ⟨m, rfl, rfl⟩ | ⟨v, x, rfl, hv, hx, rfl⟩ | ⟨ha, hsh, hl, hpass, hnew⟩ := step_cases hs
  · intro g hge hlt hold
    rw [history_add, List.length_append, List.length_singleton] at hge hlt
    have hcount := h.log.count
    have hlen : ms.length ≤ (history ms tr).length := by rw [history, List.length_append]; omega
    have hin : oldest (history ms tr).length ≤ g ∧ g < oldest (history ms tr).length + s.reader.passed := by
      simp only [oldest] at hge hlt ⊢
      rcases hsettled with hfree | hnone | hall
      · omega
      · omega
      · omega
    obtain ⟨x, hx, hrec⟩ := hc g hin.1 hin.2 hold
    refine ⟨x, by rw [shown_add]; exact hx, ?_⟩
    rw [history_add]
    exact getElem?_records_append [m] hrec
  · have hpassed : s.reader.passed = v := by rw [hv]; rfl
    rw [h.log.logSeqShow_eq (h.pointing v hv)] at hx
    intro g hge hlt hold
    rw [history_silent ms tr rfl] at hge hlt ⊢
    rw [shown_append]
    by_cases hg : g < oldest (history ms tr).length + v
    · obtain ⟨y, hy, hrec⟩ := hc g hge (by rw [hpassed]; exact hg) hold
      exact ⟨y, List.mem_append_left _ hy, hrec⟩
    · have hthis : g = oldest (history ms tr).length + v :=
        Nat.le_antisymm (Nat.le_of_lt_succ hlt) (Nat.le_of_not_lt hg)
      exact ⟨x, List.mem_append_right _ (List.mem_singleton.mpr rfl), by rw [hthis]; exact hx⟩
  · intro g hge hlt hold
    rw [history_silent ms tr ha] at hge hlt ⊢
    rw [hpass] at hlt
    rw [shown_append, hsh, List.append_nil]
    exact hc g hge hlt hold

theorem run_covered (h : (settledReading ms).Run tr s) : Covered ms tr s := by
  refine System.Run.history (P := fun tr s => Covered ms tr s) ?_ ?_ h
  · rintro s rfl g hge hlt -
    exact absurd hge (Nat.not_le_of_lt hlt)
  · rintro tr s e s' hrun hc ⟨hs, hsettled⟩
    exact step_covered (run_progress hrun.of_restrict).1 hc hs hsettled

/-- **Complete reads.** When the log shifts only at settled moments, every entry that was in the log when the read began
and is there at the end of file has been shown. -/
theorem virtual_log_reading_complete (ms : List Message) (tr : List Event) (s : State)
    (h : (settledReading ms).Run (tr ++ [.eof]) s) (g : Nat) (e : LogEntry)
    (hbegin : (addLogEntries .empty ms).numbered ms.length g = some e)
    (hend : s.log.numbered (ms ++ added tr).length g = some e) : e ∈ shown tr := by
  have heof : added [Event.eof] = [] := rfl
  obtain ⟨s₁, s₂, hrun, hstep, hnil⟩ := System.Run.cut h.of_restrict
  have hpassed := passed_of_eof (run_progress hrun).1 hstep
  cases hnil
  have hlog := (run_progress h.of_restrict).1.log
  rw [history_silent ms tr heof] at hlog
  obtain ⟨-, hold⟩ := (addLogEntries_holds ms).numbered_iff.mp hbegin
  obtain ⟨hge, hrec⟩ := hlog.numbered_iff.mp hend
  have hbefore : g < ms.length := by
    have := (List.getElem?_eq_some_iff.mp hold).1
    rwa [length_records] at this
  have hcovered := run_covered h g
  rw [history_silent ms tr heof, shown_append] at hcovered
  have hcount := hlog.count
  obtain ⟨x, hx, hxrec⟩ := hcovered hge (by
    rw [hpassed, hcount, oldest, history, List.length_append]
    omega) hbefore
  rw [hrec] at hxrec
  obtain rfl := Option.some.inj hxrec
  simpa [shown] using hx

end Completeness

/-- Two passes over a log of one entry, the second after another one was added. -/
def twoPasses : List Event :=
  [.start, .print (record 0 (0, [])), .next, .stop, .add 0 [], .start, .print (record 1 (0, [])), .next, .stop]

theorem virtual_log_reading_complete_twoPasses : ∃ s, (settledReading [(0, [])]).Run (twoPasses ++ [.eof]) s ∧
    record 0 (0, []) ∈ shown twoPasses := by
  have hone := addLogEntries_holds [(0, [])]
  have htwo := addLogEntries_holds [(0, []), (0, [])]
  have hrun : (settledReading [(0, [])]).Run (twoPasses ++ [.eof]) ⟨addLogEntries .empty [(0, []), (0, [])], .idle 2⟩ :=
    ⟨_, rfl, .cons ⟨.start rfl, trivial⟩ <| .cons ⟨.print (hone.logSeqShow_eq Nat.one_pos), trivial⟩ <|
      .cons ⟨.next, trivial⟩ <| .cons ⟨.stopNull, trivial⟩ <| .cons ⟨.add 0 [], .inl (by decide)⟩ <|
      .cons ⟨.start rfl, trivial⟩ <| .cons ⟨.print (htwo.logSeqShow_eq (Nat.lt_succ_self 1)), trivial⟩ <|
      .cons ⟨.next, trivial⟩ <| .cons ⟨.stopNull, trivial⟩ <| .cons ⟨.eof rfl, trivial⟩ <| .nil _⟩
  exact ⟨_, hrun, virtual_log_reading_complete [(0, [])] twoPasses _ hrun 0 _
    (hone.numbered_iff.mpr ⟨Nat.le_refl _, rfl⟩) (htwo.numbered_iff.mpr ⟨Nat.le_refl _, rfl⟩)⟩

/-! ## The skipped entry -/

/-- The number of a record can be read off its id. -/
theorem number_unique {H : List Message} (hn : H.length < 2 ^ 31) {g g' : Nat} {e : LogEntry}
    (h : (records H)[g]? = some e) (h' : (records H)[g']? = some e) : g = g' := by
  rw [getElem?_records] at h h'
  obtain ⟨m, hm, rfl⟩ := Option.map_eq_some_iff.mp h
  obtain ⟨m', hm', heq⟩ := Option.map_eq_some_iff.mp h'
  have hid : (record g' m').entryId.toInt = (record g m).entryId.toInt := by rw [heq]
  rw [toInt_entryId (Nat.lt_of_le_of_lt (List.getElem?_eq_some_iff.mp hm).1 hn),
    toInt_entryId (Nat.lt_of_le_of_lt (List.getElem?_eq_some_iff.mp hm').1 hn)] at hid
  omega

/-- A pass over the first entry only. -/
theorem read_first (ms : List Message) {l : Log} {x : LogEntry} (hcount : 1 < l.logCount)
    (hx : logSeqShow l 0 = some x) :
    (reading ms).Path ⟨l, .idle 0⟩ [.start, .print x, .next, .stop] ⟨l, .idle 1⟩ := by
  have hmove : Reader.moved (logSeqNext l 0) = .pointing 1 := by
    rw [logSeqNext, if_neg (by omega)]
    rfl
  have hnext : Step ⟨l, .printed 0⟩ .next ⟨l, .pointing 1⟩ := by rw [← hmove]; exact .next
  exact .cons (.start (if_neg (by omega))) (.cons (.print hx) (.cons hnext (.single .stop)))

/-- The first entry of a full log is read, an entry is added, the rest is read: the second entry is never shown. -/
theorem full_log_skips (H : List Message) (m : Message) (hfull : maxLogEntries ≤ H.length)
    (hn : (H ++ [m]).length < 2 ^ 31) : ∃ tr s e, (reading H).Run (tr ++ [.eof]) s ∧ added tr = [m] ∧
      (addLogEntries .empty H).numbered H.length (oldest H.length + 1) = some e ∧
      s.log.numbered (H ++ [m]).length (oldest H.length + 1) = some e ∧ e ∉ shown tr := by
  have hlog := addLogEntries_holds H
  have hlog' := hlog.add m
  have hcount : (addLogEntries .empty H).logCount = 100 := hlog.count.trans (Nat.min_eq_right hfull)
  have hcount' : 1 ≤ (addLogEntry (addLogEntries .empty H) m.1 m.2).logCount := by
    rw [hlog'.count, List.length_append, List.length_singleton, maxLogEntries]
    omega
  have hold : oldest H.length + 1 < H.length := by
    unfold oldest maxLogEntries at *
    omega
  have hold' : oldest (H ++ [m]).length = oldest H.length + 1 := by
    rw [List.length_append, List.length_singleton, oldest, oldest]
    omega
  obtain ⟨x, hx⟩ : ∃ x, (records H)[oldest H.length + 0]? = some x :=
    ⟨_, List.getElem?_eq_getElem (by rw [length_records]; omega)⟩
  obtain ⟨e, he⟩ : ∃ e, (records H)[oldest H.length + 1]? = some e :=
    ⟨_, List.getElem?_eq_getElem (by rw [length_records]; exact hold)⟩
  have hx' := getElem?_records_append [m] hx
  have he' := getElem?_records_append [m] he
  have hfirst := read_first H (by rw [hcount]; decide) ((hlog.logSeqShow_eq (by rw [hcount]; decide)).trans hx)
  obtain ⟨tr, hpath, hshown, hadded⟩ := read_to_eof H hlog' hcount'
  refine ⟨[.start, .print x, .next, .stop] ++ .add m.1 m.2 :: tr, _, e,
    ⟨_, rfl, hfirst.append (.cons (.add m.1 m.2) hpath)⟩,
    ?_, hlog.numbered_iff.mpr ⟨Nat.le_succ _, he⟩, hlog'.numbered_iff.mpr ⟨Nat.le_of_eq hold', he'⟩, ?_⟩
  · show m :: added tr = [m]
    rw [hadded]
  · show e ∉ x :: shown tr
    rw [hshown]
    intro hmem
    rcases List.mem_cons.mp hmem with rfl | hmem
    · -- the first entry has a smaller number
      have := number_unique hn he' hx'
      omega
    · obtain ⟨i, hi⟩ := List.mem_iff_getElem?.mp hmem
      rw [List.getElem?_drop, hlog'.getElem?_entries, hold'] at hi
      have := number_unique hn he' hi
      omega

/-- A history that fills the log. -/
def fullHistory : List Message := initialHistory (fun _ => 0) ++ List.replicate 95 (0, ascii "a")

/-- A read of a full log that skips an entry which is in the log all the time. -/
theorem virtual_log_reading_skips : ∃ tr s g e, (reading fullHistory).Run (tr ++ [.eof]) s ∧
    (addLogEntries .empty fullHistory).numbered fullHistory.length g = some e ∧
    s.log.numbered (fullHistory ++ added tr).length g = some e ∧ e ∉ shown tr := by
  obtain ⟨tr, s, e, hrun, hadded, hbegin, hend, hnot⟩ := full_log_skips fullHistory (0, []) (by decide) (by decide)
  exact ⟨tr, s, _, e, hrun, hbegin, by rw [hadded]; exact hend, hnot⟩

end KernelModules.VirtualLog
