import KernelModules.Lib.Threads
import KernelModules.VirtualLog.Newest

/-!
# The accesses of `add_log_entry`

`log_proc_write` takes no lock, so several calls of `add_log_entry` can be in progress at once. Here the calls are
interleaved access by access: `log_count` is read again for every field of the new entry, and once more for its
increment.

- `addStep_vars`: what a call does to the variables when it is alone, step by step;
- `Vars.add_log`: in the end it has done what `addLogEntry` does;
- `virtual_log_serial`: if a call begins only when no other is in progress, all writes are inside `log_buffer`, and
  the log is that of the calls one after another.
-/

namespace KernelModules.VirtualLog

open Lib

universe u

/-! ## The code -/

/-- `log_count`, `next_id` and the memory from `log_buffer` on. The array has 100 elements; what follows belongs to
others. -/
structure Vars where
  logCount : Int32
  nextId : Int32
  logBuffer : Int → LogEntry

/-- An element is changed. -/
def Vars.modify (g : Vars) (i : Int) (f : LogEntry → LogEntry) : Vars :=
  { g with logBuffer := Function.update g.logBuffer i (f (g.logBuffer i)) }

/-- The two branches of `add_log_entry`. -/
inductive Branch
  | append
  | overwrite

/-- The index in the assignments of a branch. The first branch reads `log_count` for it. -/
def Branch.slot : Branch → Vars → Int
  | .append, g => g.logCount.toInt
  | .overwrite, _ => 99

/-- The assignments that fill an element, in their order. -/
inductive Field
  | timestamp
  | entryId (id : Int32)
  | message
  | terminator

def Field.assign (m : Message) : Field → LogEntry → LogEntry
  | .timestamp, e => { e with timestamp := m.1 }
  | .entryId id, e => { e with entryId := id }
  | .message, e => { e with message := strncpy e.message m.2 (messageSize - 1) }
  | .terminator, e => { e with message := e.message.set (messageSize - 1) 0 }

/-- Where a process is in `add_log_entry`: what it does next. -/
inductive Pc
  | idle
  | test (m : Message)
  | shift (m : Message) (k : Nat)
  | index (b : Branch) (m : Message) (f : Field)
  | assign (b : Branch) (m : Message) (f : Field) (slot : Int)
  | loadId (b : Branch) (m : Message)
  | storeId (b : Branch) (m : Message) (id : Int32)
  | loadCount
  | storeCount (v : Int32)

/-- What follows an assignment. -/
def Branch.after (b : Branch) (m : Message) : Field → Pc
  | .timestamp => .loadId b m
  | .entryId _ => .index b m .message
  | .message => .index b m .terminator
  | .terminator => match b with
    | .append => .loadCount
    | .overwrite => .idle

inductive Act
  | call (m : Message)
  /-- An access to `log_count` or `next_id`. -/
  | counter
  /-- A write to `log_buffer[slot]`. -/
  | write (slot : Int)

/-- One access of `add_log_entry`. `memmove` moves one element, `strncpy` fills a message. In the assignment of the id,
`next_id++` comes before the index. -/
inductive AddStep : Vars → Pc → Act → Vars → Pc → Prop
  | call {g : Vars} (m : Message) : AddStep g .idle (.call m) g (.test m)
  | room {g : Vars} {m : Message} : g.logCount < 100 → AddStep g (.test m) .counter g (.index .append m .timestamp)
  | full {g : Vars} {m : Message} : ¬g.logCount < 100 → AddStep g (.test m) .counter g (.shift m 0)
  | shift {g : Vars} {m : Message} {k : Nat} : k < 98 →
      AddStep g (.shift m k) (.write k) (g.modify k fun _ => g.logBuffer (k + 1)) (.shift m (k + 1))
  | shiftLast {g : Vars} {m : Message} : AddStep g (.shift m 98) (.write 98)
      (g.modify 98 fun _ => g.logBuffer 99) (.index .overwrite m .timestamp)
  | index {g : Vars} {b : Branch} {m : Message} {f : Field} :
      AddStep g (.index b m f) .counter g (.assign b m f (b.slot g))
  | assign {g : Vars} {b : Branch} {m : Message} {f : Field} {slot : Int} :
      AddStep g (.assign b m f slot) (.write slot) (g.modify slot (f.assign m)) (b.after m f)
  | loadId {g : Vars} {b : Branch} {m : Message} : AddStep g (.loadId b m) .counter g (.storeId b m g.nextId)
  | storeId {g : Vars} {b : Branch} {m : Message} {id : Int32} :
      AddStep g (.storeId b m id) .counter { g with nextId := id + 1 } (.index b m (.entryId id))
  | loadCount {g : Vars} : AddStep g .loadCount .counter g (.storeCount g.logCount)
  | storeCount {g : Vars} {v : Int32} : AddStep g (.storeCount v) .counter { g with logCount := v + 1 } .idle

/-- What a reader would find. -/
def Vars.log (g : Vars) : Log where
  logBuffer := (List.range maxLogEntries).map fun i : Nat => g.logBuffer i
  logCount := g.logCount.toInt.toNat
  nextId := g.nextId

/-- The variables after `pos_demo_init`. -/
def Loaded (clock : Nat → UInt64) (g : Vars) : Prop := g.logCount = 5 ∧ g.log = posDemoInit clock

/-- Any number of writers. -/
def logWriters (P : Type u) [DecidableEq P] (clock : Nat → UInt64) : System (Threads P Vars Pc) (P × Act) :=
  interleave (Loaded clock) (· = .idle) fun _ => AddStep

/-- The same with a lock around `add_log_entry`: a call begins only when no other is in progress. -/
def serialWriters (P : Type u) [DecidableEq P] (clock : Nat → UInt64) : System (Threads P Vars Pc) (P × Act) :=
  (logWriters P clock).restrict fun s e => ∀ m, e.2 = .call m → ∀ q, s.pc q = .idle

/-- The elements written. -/
def Act.written : Act → Option Int
  | .write slot => some slot
  | _ => none

def writes {P : Type u} (tr : List (P × Act)) : List Int := tr.filterMap fun e => e.2.written

theorem writes_append {P : Type u} (tr tr' : List (P × Act)) : writes (tr ++ tr') = writes tr ++ writes tr' :=
  List.filterMap_append

/-- An element that was written was written by a step. -/
theorem run_write {S : Type*} {P : Type u} {M : System S (P × Act)} {tr : List (P × Act)} {s : S} (h : M.Run tr s)
    {i : Int}
    (hi : i ∈ writes tr) : ∃ pre p s₁ s₂, M.Run pre s₁ ∧ M.step s₁ (p, .write i) s₂ := by
  obtain ⟨⟨p, act⟩, hmem, hact⟩ := List.mem_filterMap.mp hi
  obtain ⟨pre, post, rfl⟩ := List.append_of_mem hmem
  obtain ⟨s₁, s₂, hrun, hstep, -⟩ := h.cut
  cases act with
  | write slot =>
    cases hact
    exact ⟨pre, p, s₁, s₂, hrun, hstep⟩
  | _ => cases hact

/-- The messages given to `add_log_entry`. -/
def Act.message : Act → Option Message
  | .call m => some m
  | _ => none

def calls {P : Type u} (tr : List (P × Act)) : List Message := tr.filterMap fun e => e.2.message

theorem calls_snoc {P : Type u} (tr : List (P × Act)) (e : P × Act) :
    calls (tr ++ [e]) = calls tr ++ e.2.message.toList :=
  System.filterMap_snoc _ _ _

theorem lt_hundred_iff (c : Int32) : c < 100 ↔ c.toInt < 100 := Int32.lt_iff_toInt_lt

theorem toInt_add_one {v : Int32} (h0 : 0 ≤ v.toInt) (h : v.toInt ≤ 100) : (v + 1).toInt = v.toInt + 1 := by
  have hone : (1 : Int32).toInt = 1 := rfl
  rw [Int32.toInt_add, hone]
  exact Int.bmod_eq_of_le (by omega) (by omega)

/-! ## One call at a time -/

section Alone

variable {g : Vars} {m : Message}

/-- The elements below `k` have moved down. -/
def Vars.moved (g : Vars) (k : Nat) : Vars :=
  { g with logBuffer := fun i => if 0 ≤ i ∧ i < k then g.logBuffer (i + 1) else g.logBuffer i }

/-- The branch is taken. -/
def Branch.Taken (g : Vars) : Branch → Prop
  | .append => g.logCount < 100
  | .overwrite => ¬g.logCount < 100

/-- The variables before an element is filled. -/
def Branch.begun (g : Vars) : Branch → Vars
  | .append => g
  | .overwrite => g.moved 99

/-- The variables while it is filled. -/
def Branch.filling (b : Branch) (g : Vars) (nextId : Int32) (f : LogEntry → LogEntry) : Vars :=
  { (b.begun g).modify (b.slot g) f with nextId := nextId }

/-- What the assignments before a field have done to the element, and to `next_id`. -/
def Field.before (m : Message) (id : Int32) : Field → LogEntry → LogEntry
  | .timestamp => fun e => e
  | .entryId _ => Field.timestamp.assign m
  | .message => (Field.entryId id).assign m ∘ Field.timestamp.assign m
  | .terminator => Field.message.assign m ∘ (Field.entryId id).assign m ∘ Field.timestamp.assign m

def Field.idBefore (id : Int32) : Field → Int32
  | .timestamp => id
  | _ => id + 1

/-- The id that is assigned is the one that was loaded. -/
def Field.Fresh (id : Int32) : Field → Prop
  | .entryId i => i = id
  | _ => True

/-- The element is filled. -/
def Branch.complete (b : Branch) (g : Vars) (m : Message) : Vars := b.filling g (g.nextId + 1) (·.fill m.1 g.nextId m.2)

/-- The variables `g'` in the middle of a call for `m` that found them as `g`. -/
def Pc.vars (g : Vars) (m : Message) (g' : Vars) : Pc → Prop
  | .idle => False
  | .test m' => m' = m ∧ g' = g
  | .shift m' k => m' = m ∧ Branch.overwrite.Taken g ∧ k ≤ 98 ∧ g' = g.moved k
  | .index b m' f => m' = m ∧ b.Taken g ∧ f.Fresh g.nextId ∧
    g' = b.filling g (f.idBefore g.nextId) (f.before m g.nextId)
  | .assign b m' f slot => m' = m ∧ b.Taken g ∧ f.Fresh g.nextId ∧ slot = b.slot g ∧
      g' = b.filling g (f.idBefore g.nextId) (f.before m g.nextId)
  | .loadId b m' => m' = m ∧ b.Taken g ∧ g' = b.filling g g.nextId (Field.timestamp.assign m)
  | .storeId b m' id => m' = m ∧ b.Taken g ∧ id = g.nextId ∧ g' = b.filling g g.nextId (Field.timestamp.assign m)
  | .loadCount => Branch.append.Taken g ∧ g' = Branch.append.complete g m
  | .storeCount v => Branch.append.Taken g ∧ v = g.logCount ∧ g' = Branch.append.complete g m

/-- The variables after a call. -/
def Vars.add (g : Vars) (m : Message) : Vars :=
  if g.logCount < 100 then { Branch.append.complete g m with logCount := g.logCount + 1 }
  else Branch.overwrite.complete g m

theorem Branch.slot_filling (b : Branch) (g : Vars) (nextId : Int32) (f : LogEntry → LogEntry) :
    b.slot (b.filling g nextId f) = b.slot g := by
  cases b with
  | append => rfl
  | overwrite => rfl

/-- One more assignment. -/
theorem Branch.filling_modify (b : Branch) (g : Vars) (nextId : Int32) (f f' : LogEntry → LogEntry) :
    (b.filling g nextId f).modify (b.slot g) f' = b.filling g nextId (f' ∘ f) := by
  simp only [filling, Vars.modify, Function.update_self, Function.update_idem, Function.comp_apply]

theorem Branch.filling_id (b : Branch) (g : Vars) : b.filling g g.nextId id = b.begun g := by
  cases b <;> simp [filling, begun, Vars.modify, Vars.moved]

theorem Vars.moved_zero (g : Vars) : g.moved 0 = g := by
  have hnone : ∀ i : Int, ¬(0 ≤ i ∧ i < (0 : Nat)) := fun i => by omega
  simp only [moved, hnone, if_false]

/-- One more element is moved. -/
theorem Vars.moved_succ (g : Vars) (k : Nat) :
    (g.moved k).modify k (fun _ => (g.moved k).logBuffer (k + 1)) = g.moved (k + 1) := by
  have hbuffer : Function.update (g.moved k).logBuffer k ((g.moved k).logBuffer (k + 1)) =
      (g.moved (k + 1)).logBuffer := by
    funext i
    by_cases hi : i = k
    · subst hi
      rw [Function.update_self]
      simp only [moved]
      rw [if_neg (by omega), if_pos (by omega)]
    · rw [Function.update_of_ne hi]
      simp only [moved]
      by_cases hlt : 0 ≤ i ∧ i < k
      · rw [if_pos hlt, if_pos (by omega)]
      · rw [if_neg hlt, if_neg (by omega)]
  simp only [modify, hbuffer]
  rfl

/-- An assignment leads on, or ends the call. -/
theorem after_vars {b : Branch} {f : Field} (hb : b.Taken g) (hf : f.Fresh g.nextId) :
    (b.after m f).vars g m (b.filling g (f.idBefore g.nextId) (f.assign m ∘ f.before m g.nextId)) ∨
      (b.after m f = .idle ∧ b.filling g (f.idBefore g.nextId) (f.assign m ∘ f.before m g.nextId) = g.add m) := by
  cases f with
  | timestamp => exact .inl ⟨rfl, hb, rfl⟩
  | entryId i =>
    cases hf
    exact .inl ⟨rfl, hb, trivial, rfl⟩
  | message => exact .inl ⟨rfl, hb, trivial, rfl⟩
  | terminator =>
    cases b with
    | append => exact .inl ⟨hb, rfl⟩
    | overwrite =>
      exact .inr ⟨rfl, (if_neg hb).symm⟩

/-- **A step** of a call that is alone. -/
theorem addStep_vars {g' g'' : Vars} {l l' : Pc} {act : Act} (h : AddStep g' l act g'' l') (hl : l.vars g m g') :
    l'.vars g m g'' ∨ (l' = .idle ∧ g'' = g.add m) := by
  cases h with
  | call => cases hl
  | room hroom =>
    obtain ⟨rfl, rfl⟩ := hl
    exact .inl ⟨rfl, hroom, trivial, (Branch.append.filling_id g').symm⟩
  | full hfull =>
    obtain ⟨rfl, rfl⟩ := hl
    exact .inl ⟨rfl, hfull, by decide, g'.moved_zero.symm⟩
  | shift hk =>
    obtain ⟨rfl, hfull, -, rfl⟩ := hl
    exact .inl ⟨rfl, hfull, hk, g.moved_succ _⟩
  | shiftLast =>
    obtain ⟨rfl, hfull, -, rfl⟩ := hl
    exact .inl ⟨rfl, hfull, trivial, (g.moved_succ 98).trans (Branch.overwrite.filling_id g).symm⟩
  | index =>
    obtain ⟨rfl, hb, hf, rfl⟩ := hl
    exact .inl ⟨rfl, hb, hf, Branch.slot_filling .., rfl⟩
  | assign =>
    obtain ⟨rfl, hb, hf, rfl, rfl⟩ := hl
    rw [Branch.filling_modify]
    exact after_vars hb hf
  | loadId =>
    obtain ⟨rfl, hb, rfl⟩ := hl
    exact .inl ⟨rfl, hb, rfl, rfl⟩
  | storeId =>
    obtain ⟨rfl, hb, rfl, rfl⟩ := hl
    exact .inl ⟨rfl, hb, rfl, rfl⟩
  | loadCount =>
    obtain ⟨hb, rfl⟩ := hl
    exact .inl ⟨hb, rfl, rfl⟩
  | storeCount =>
    obtain ⟨hb, rfl, rfl⟩ := hl
    exact .inr ⟨rfl, (if_pos hb).symm⟩

/-- A write moves an element down or is an assignment. -/
theorem addStep_written {g' g'' : Vars} {l l' : Pc} {i : Int} (h : AddStep g' l (.write i) g'' l') :
    (0 ≤ i ∧ i ≤ 98) ∨ ∃ b m f, l = .assign b m f i := by
  generalize hact : Act.write i = act at h
  cases h with
  | shift hk =>
    cases hact
    exact .inl ⟨by omega, by omega⟩
  | shiftLast =>
    cases hact
    exact .inl ⟨by decide, by decide⟩
  | assign =>
    cases hact
    exact .inr ⟨_, _, _, rfl⟩
  | _ => cases hact

/-- The elements that a call that is alone writes. -/
theorem addStep_inside {g' g'' : Vars} {l l' : Pc} {i : Int} (h : AddStep g' l (.write i) g'' l') (hl : l.vars g m g')
    (h0 : 0 ≤ g.logCount.toInt) : 0 ≤ i ∧ i < 100 := by
  rcases addStep_written h with hi | ⟨b, _, _, rfl⟩
  · omega
  · obtain ⟨-, hb, -, rfl, -⟩ := hl
    cases b with
    | append => exact ⟨h0, (lt_hundred_iff _).mp hb⟩
    | overwrite => exact (show (0 : Int) ≤ 99 ∧ (99 : Int) < 100 by decide)

/-- A call keeps the count between 0 and 100. -/
theorem Vars.add_logCount (h0 : 0 ≤ g.logCount.toInt) (h : g.logCount.toInt ≤ 100) :
    0 ≤ (g.add m).logCount.toInt ∧ (g.add m).logCount.toInt ≤ 100 := by
  unfold add
  split
  · next hroom =>
    rw [lt_hundred_iff] at hroom
    rw [toInt_add_one h0 h]
    omega
  · exact ⟨h0, h⟩

/-- An element inside the array is changed. -/
theorem Vars.log_modify {i : Nat} (hi : i < maxLogEntries) (f : LogEntry → LogEntry) :
    (g.modify i f).log.logBuffer = g.log.logBuffer.set i (f (g.log.logBuffer.getD i .zero)) := by
  refine List.ext_getElem (by simp [log]) fun k hk _ => ?_
  simp only [log, List.length_map, List.length_range] at hk
  by_cases hki : k = i
  · subst hki
    simp [log, modify, hi]
  · have hne : (k : Int) ≠ i := fun h => hki (Int.ofNat_inj.mp h)
    simp [log, modify, hne, Ne.symm hki]

theorem Vars.log_moved : (g.moved 99).log.logBuffer = shiftDown g.log.logBuffer := by
  refine List.ext_getElem (by simp [log, shiftDown, maxLogEntries]) fun k hk _ => ?_
  simp only [log, List.length_map, List.length_range] at hk
  by_cases hlast : k < 99
  · simp [log, moved, shiftDown, hlast, maxLogEntries]
  · obtain rfl : k = 99 := by
      have : k < 100 := hk
      omega
    simp [log, moved, shiftDown, maxLogEntries]

/-- **A call that is alone** is `addLogEntry`. -/
theorem Vars.add_log (h0 : 0 ≤ g.logCount.toInt) (h : g.logCount.toInt ≤ 100) :
    (g.add m).log = addLogEntry g.log m.1 m.2 := by
  by_cases hroom : g.logCount < 100
  · have hlt : g.logCount.toInt < 100 := (lt_hundred_iff _).mp hroom
    have hcast : (g.log.logCount : Int) = g.logCount.toInt := Int.toNat_of_nonneg h0
    have hslot : g.log.logCount < maxLogEntries := by
      show g.logCount.toInt.toNat < 100
      omega
    have hbuffer := log_modify (g := g) hslot fun e => e.fill m.1 g.nextId m.2
    rw [hcast] at hbuffer
    have hcount : (g.logCount + 1).toInt.toNat = g.logCount.toInt.toNat + 1 := by
      rw [toInt_add_one h0 h]
      omega
    rw [add, if_pos hroom, addLogEntry, if_pos hslot]
    exact congr (congrArg₂ Log.mk hbuffer hcount) rfl
  · have hfull : ¬g.log.logCount < maxLogEntries := by
      rw [lt_hundred_iff] at hroom
      show ¬g.logCount.toInt.toNat < 100
      omega
    have hbuffer := log_modify (g := g.moved 99) (i := 99) (by decide) fun e => e.fill m.1 g.nextId m.2
    rw [log_moved] at hbuffer
    rw [add, if_neg hroom, addLogEntry, if_neg hfull]
    exact congr (congrArg₂ Log.mk hbuffer rfl) rfl

end Alone

/-! ## Runs with a lock -/

section Serial

variable {P : Type u} [DecidableEq P] {clock : Nat → UInt64} {tr : List (P × Act)} {s : Threads P Vars Pc}

/-- The variables hold the calls so far. -/
structure Logged (clock : Nat → UInt64) (ms : List Message) (g : Vars) : Prop where
  nonneg : 0 ≤ g.logCount.toInt
  count : g.logCount.toInt ≤ 100
  log : g.log = addLogEntries (posDemoInit clock) ms

theorem addLogEntries_append (l : Log) (ms ms' : List Message) :
    addLogEntries l (ms ++ ms') = addLogEntries (addLogEntries l ms) ms' := by
  induction ms generalizing l with
  | nil => rfl
  | cons m ms ih => exact ih _

theorem Logged.add {ms : List Message} {g : Vars} (h : Logged clock ms g) (m : Message) :
    Logged clock (ms ++ [m]) (g.add m) where
  nonneg := (Vars.add_logCount h.nonneg h.count).1
  count := (Vars.add_logCount h.nonneg h.count).2
  log := by
    rw [Vars.add_log h.nonneg h.count, h.log, addLogEntries_append]
    rfl

/-- No call is in progress, or one. -/
inductive Serial (clock : Nat → UInt64) (ms : List Message) (s : Threads P Vars Pc) : Prop
  | none : (∀ p, s.pc p = .idle) → Logged clock ms s.shared → Serial clock ms s
  | one {p : P} {before : List Message} {m : Message} {g : Vars} : ms = before ++ [m] → Logged clock before g →
      (s.pc p).vars g m s.shared → (∀ q, q ≠ p → s.pc q = .idle) → Serial clock ms s

/-- Only the beginning of a call is a call. -/
theorem addStep_message {g g' : Vars} {l l' : Pc} {act : Act} (h : AddStep g l act g' l') (hl : l ≠ .idle) :
    act.message = Option.none := by
  cases h with
  | call => exact absurd rfl hl
  | _ => rfl

theorem vars_ne_idle {g g' : Vars} {m : Message} {l : Pc} (h : l.vars g m g') : l ≠ .idle := by
  rintro rfl
  exact h

/-- **A step** of one process while the others are idle. -/
theorem Serial.step {ms : List Message} {p : P} {act : Act} {g' : Vars} {l' : Pc} (h : Serial clock ms s)
    (hstep : AddStep s.shared (s.pc p) act g' l') (hlock : ∀ m, act = .call m → ∀ q, s.pc q = .idle) :
    Serial clock (ms ++ act.message.toList) ⟨g', Function.update s.pc p l'⟩ := by
  cases h with
  | none hidle hlogged =>
    rw [hidle p] at hstep
    cases hstep with
    | call m =>
      refine .one (p := p) rfl hlogged ?_ fun q hq => ?_
      · simp only [Function.update_self]
        exact ⟨rfl, rfl⟩
      · simp only [Function.update_of_ne hq, hidle q]
  | @one q before m g hms hlogged hvars hothers =>
    by_cases hq : p = q
    · subst hq
      rw [addStep_message hstep (vars_ne_idle hvars), Option.toList_none, List.append_nil]
      rcases addStep_vars hstep hvars with hvars' | ⟨rfl, rfl⟩
      · refine .one (p := p) hms hlogged ?_ fun r hr => ?_
        · simp only [Function.update_self]
          exact hvars'
        · simp only [Function.update_of_ne hr, hothers r hr]
      · refine .none (fun r => ?_) (hms ▸ hlogged.add m)
        by_cases hr : r = p
        · simp only [hr, Function.update_self]
        · simp only [Function.update_of_ne hr, hothers r hr]
    · -- another process could only begin a call, and the lock keeps it from that
      rw [hothers p hq] at hstep
      cases hstep with
      | call m' => exact absurd (hlock m' rfl q) (vars_ne_idle hvars)

theorem run_serial (h : (serialWriters P clock).Run tr s) : Serial clock (calls tr) s := by
  refine System.Run.history (P := fun tr s => Serial clock (calls tr) s) ?_ ?_ h
  · rintro s ⟨⟨hcount, hlog⟩, hidle⟩
    exact .none hidle ⟨by rw [hcount]; decide, by rw [hcount]; decide, hlog⟩
  · rintro tr s ⟨p, act⟩ _ - hs ⟨⟨g', l', hstep, rfl⟩, hlock⟩
    rw [calls_snoc]
    exact hs.step hstep hlock

end Serial

/-! ## Calls without interference -/

section Paths

variable {P : Type u} [DecidableEq P] (clock : Nat → UInt64)

/-- A process that is called and finds room. -/
theorem path_enter (m : Message) {g : Vars} (hroom : g.logCount < 100) (pc : P → Pc) (p : P) :
    ∃ tr, (logWriters P clock).Path ⟨g, Function.update pc p .idle⟩ tr
      ⟨g, Function.update pc p (.index .append m .timestamp)⟩ :=
  ⟨_, .cons (interleave_step_update (.call m) pc) (.single (interleave_step_update (.room hroom) pc))⟩

/-- A process that has found room fills an element and counts it. -/
theorem path_finish (m : Message) (g : Vars) (pc : P → Pc) (p : P) :
    ∃ tr g', (logWriters P clock).Path ⟨g, Function.update pc p (.index .append m .timestamp)⟩ tr
      ⟨g', Function.update pc p .idle⟩ ∧ g'.logCount = g.logCount + 1 ∧ g.logCount.toInt ∈ writes tr ∧
      ∀ e ∈ tr, e.2.message = none :=
  ⟨_, _, .cons (interleave_step_update .index pc) <| .cons (interleave_step_update .assign pc) <|
    .cons (interleave_step_update .loadId pc) <| .cons (interleave_step_update .storeId pc) <|
    .cons (interleave_step_update .index pc) <| .cons (interleave_step_update .assign pc) <|
    .cons (interleave_step_update .index pc) <| .cons (interleave_step_update .assign pc) <|
    .cons (interleave_step_update .index pc) <| .cons (interleave_step_update .assign pc) <|
    .cons (interleave_step_update .loadCount pc) <| .single (interleave_step_update .storeCount pc), rfl,
    List.mem_cons_self, by simp [Act.message]⟩

/-- The variables after `pos_demo_init`, with nothing behind the array. -/
def loadedVars : Vars where
  logCount := 5
  nextId := (posDemoInit clock).nextId
  logBuffer i := (posDemoInit clock).logBuffer.getD i.toNat .zero

theorem loadedVars_loaded : Loaded clock (loadedVars clock) := by
  have hsize : (posDemoInit clock).logBuffer.length = maxLogEntries := (addLogEntries_holds (initialHistory clock)).size
  have hbuffer : (loadedVars clock).log.logBuffer = (posDemoInit clock).logBuffer := by
    refine List.ext_getElem (by rw [hsize]; simp [Vars.log]) fun i _ hi => ?_
    simp [Vars.log, loadedVars, hi]
  have hcount : (loadedVars clock).log.logCount = (posDemoInit clock).logCount := rfl
  exact ⟨rfl, congr (congrArg₂ Log.mk hbuffer hcount) rfl⟩

/-- With a lock, a process makes its call and finishes it. -/
theorem run_serial_call (m : Message) : ∃ tr s, (serialWriters Unit clock).Run tr s ∧ (∀ p, s.pc p = .idle) ∧
    calls tr = [m] := by
  let pc : Unit → Pc := fun _ => .idle
  obtain ⟨tr, g, hpath, -, -, hnone⟩ := path_finish clock m (loadedVars clock) pc ()
  have hrest : (serialWriters Unit clock).Path _ tr _ := hpath.restrict fun e he _ m hm => by
    have := hnone e he
    rw [hm] at this
    cases this
  have hcall : (serialWriters Unit clock).step ⟨loadedVars clock, Function.update pc () .idle⟩ ((), .call m)
      ⟨loadedVars clock, Function.update pc () (.test m)⟩ :=
    ⟨interleave_step_update (.call m) pc, fun _ _ _ => rfl⟩
  have hroom : (serialWriters Unit clock).step ⟨loadedVars clock, Function.update pc () (.test m)⟩ ((), .counter)
      ⟨loadedVars clock, Function.update pc () (.index .append m .timestamp)⟩ :=
    ⟨interleave_step_update (.room (show (5 : Int32) < 100 by decide)) pc, fun _ h => (by cases h)⟩
  refine ⟨_, _, ⟨_, ⟨loadedVars_loaded clock, fun _ => rfl⟩, .cons hcall (.cons hroom hrest)⟩, fun _ => rfl, ?_⟩
  have hcalls : calls tr = [] := List.filterMap_eq_nil_iff.mpr hnone
  exact congrArg (List.cons m) hcalls

end Paths

/-- **With a lock.** If a call begins only when no other is in progress, only elements of `log_buffer` are written, and
whenever no call is in progress the log is that of the calls one after another. -/
theorem virtual_log_serial {P : Type u} [DecidableEq P] (clock : Nat → UInt64) (tr : List (P × Act))
    (s : Threads P Vars Pc)
    (h : (serialWriters P clock).Run tr s) :
    (∀ i ∈ writes tr, 0 ≤ i ∧ i < 100) ∧
      ((∀ p, s.pc p = .idle) → s.shared.log = addLogEntries (posDemoInit clock) (calls tr)) := by
  refine ⟨fun i hi => ?_, fun hidle => ?_⟩
  · obtain ⟨pre, p, s₁, s₂, hrun, ⟨g', l', hstep, -⟩, -⟩ := run_write h hi
    dsimp only at hstep
    cases run_serial hrun with
    | none hidle =>
      rw [hidle p] at hstep
      cases hstep
    | @one q _ _ _ _ hlogged hvars hothers =>
      by_cases hq : p = q
      · subst hq
        exact addStep_inside hstep hvars hlogged.nonneg
      · rw [hothers p hq] at hstep
        cases hstep
  · cases run_serial h with
    | none _ hlogged => exact hlogged.log
    | one _ _ hvars => exact absurd (hidle _) (vars_ne_idle hvars)

/-- A call that is made under the lock. -/
theorem virtual_log_serial_one : ∃ tr s, (serialWriters Unit fun _ => 0).Run tr s ∧
    s.shared.log = addLogEntries (posDemoInit fun _ => 0) [(7, ascii "a")] := by
  obtain ⟨tr, s, hrun, hidle, hcalls⟩ := run_serial_call (fun _ => 0) (7, ascii "a")
  exact ⟨tr, s, hrun, hcalls ▸ (virtual_log_serial (fun _ => 0) tr s hrun).2 hidle⟩

end KernelModules.VirtualLog
