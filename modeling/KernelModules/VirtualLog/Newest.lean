import KernelModules.Lib.Window
import KernelModules.VirtualLog.PosDemo

/-!
# The log holds the newest messages

The abstract log is the history of all messages. Message `g` of it (counted from 0) becomes one fixed entry, with id
`g + 1` and the message cut to 63 characters (`records`). `Holds l ms` says that the array of `l` shows the newest 100
of them; both branches of `add_log_entry` keep it (`Holds.add`), so it holds after any number of calls
(`addLogEntries_holds`). The theorem about the module follows for `pos_demo_init` and any sequence of writes
(`virtual_log_newest`).
-/

namespace KernelModules.VirtualLog

open Lib

/-- Filling a slot leaves nothing of its old contents. -/
theorem LogEntry.fill_eq {e : LogEntry} (he : e.message.length = messageSize) (jiffies : UInt64) (id : Int32)
    (m : List UInt8) : e.fill jiffies id m = ⟨jiffies, id, paddedField (messageSize - 1) m⟩ := by
  have hlen : e.message.length = messageSize - 1 + 1 := he
  rw [LogEntry.fill, strncpy_set hlen]

/-! ## The abstract log -/

/-- The entry made for message number `g`. -/
def record (g : Nat) (m : Message) : LogEntry := ⟨m.1, Int32.ofNat (g + 1), paddedField (messageSize - 1) m.2⟩

/-- The entries made for a history. -/
def records (ms : List Message) : List LogEntry := ms.mapIdx record

@[simp] theorem length_records (ms : List Message) : (records ms).length = ms.length := List.length_mapIdx

theorem records_concat (ms : List Message) (m : Message) :
    records (ms ++ [m]) = records ms ++ [record ms.length m] := List.mapIdx_concat

theorem getElem?_records (ms : List Message) (g : Nat) : (records ms)[g]? = ms[g]?.map (record g) :=
  List.getElem?_mapIdx

/-- The occupied part of the array. -/
def Log.entries (l : Log) : List LogEntry := l.logBuffer.take l.logCount

/-- The log shows the newest messages of a history. -/
structure Holds (l : Log) (ms : List Message) : Prop where
  size : l.logBuffer.length = maxLogEntries
  arrays : ∀ e ∈ l.logBuffer, e.message.length = messageSize
  count : l.logCount = min ms.length maxLogEntries
  next : l.nextId = Int32.ofNat (ms.length + 1)
  shows : l.entries = newest maxLogEntries (records ms)

theorem empty_holds : Holds .empty [] where
  size := List.length_replicate
  arrays := fun e he => by rw [List.eq_of_mem_replicate he]; exact List.length_replicate
  count := rfl
  next := rfl
  shows := rfl

/-! ## One call of `add_log_entry` -/

section Add

variable {buf : List LogEntry} {i : Nat} {jiffies : UInt64} {id : Int32} {m : List UInt8}

theorem fillSlot_eq (hi : i < buf.length) (harr : ∀ e ∈ buf, e.message.length = messageSize) :
    fillSlot buf i jiffies id m = buf.set i ⟨jiffies, id, paddedField (messageSize - 1) m⟩ := by
  have hget : buf.getD i .zero = buf[i] := by rw [List.getD_eq_getElem?_getD, List.getElem?_eq_getElem hi]; rfl
  rw [fillSlot, hget, LogEntry.fill_eq (harr _ (List.getElem_mem hi))]

theorem fillSlot_arrays (hi : i < buf.length) (harr : ∀ e ∈ buf, e.message.length = messageSize) :
    ∀ e ∈ fillSlot buf i jiffies id m, e.message.length = messageSize := by
  intro e he
  rw [fillSlot_eq hi harr] at he
  rcases List.mem_or_eq_of_mem_set he with h | rfl
  · exact harr e h
  · exact length_paddedField _ m

/-- The shifted array is the old one without its first entry, the last one doubled. -/
theorem shiftDown_eq (h : buf.length = maxLogEntries) : shiftDown buf = buf.drop 1 ++ buf.drop (maxLogEntries - 1) := by
  rw [shiftDown, List.take_of_length_le (Nat.le_of_eq (by rw [List.length_drop, h]))]

theorem length_shiftDown (h : buf.length = maxLogEntries) : (shiftDown buf).length = maxLogEntries := by
  rw [shiftDown_eq h, List.length_append, List.length_drop, List.length_drop, h]
  rfl

theorem shiftDown_arrays (h : buf.length = maxLogEntries) (harr : ∀ e ∈ buf, e.message.length = messageSize) :
    ∀ e ∈ shiftDown buf, e.message.length = messageSize := by
  intro e he
  rw [shiftDown_eq h] at he
  rcases List.mem_append.mp he with he | he
  · exact harr e (List.mem_of_mem_drop he)
  · exact harr e (List.mem_of_mem_drop he)

/-- Filling the last slot of the shifted array drops the oldest entry and appends the new one. -/
theorem fillSlot_shiftDown (h : buf.length = maxLogEntries) (harr : ∀ e ∈ buf, e.message.length = messageSize) :
    fillSlot (shiftDown buf) (maxLogEntries - 1) jiffies id m = buf.drop 1 ++
      [⟨jiffies, id, paddedField (messageSize - 1) m⟩] := by
  have hlast : (buf.drop (maxLogEntries - 1)).length = 1 := by rw [List.length_drop, h]; rfl
  obtain ⟨b, hb⟩ := List.length_eq_one_iff.mp hlast
  have hlen : (buf.drop 1).length = maxLogEntries - 1 := by rw [List.length_drop, h]
  rw [fillSlot_eq (by rw [length_shiftDown h]; decide) (shiftDown_arrays h harr), shiftDown_eq h, hb,
    List.set_append_right _ _ (Nat.le_of_eq hlen), hlen, Nat.sub_self, List.set_cons_zero]

end Add

/-- **One call** of `add_log_entry` adds its message to the history the log shows. -/
theorem Holds.add {l : Log} {ms : List Message} (h : Holds l ms) (m : Message) :
    Holds (addLogEntry l m.1 m.2) (ms ++ [m]) := by
  have hcount := h.count
  have hnext : l.nextId + 1 = Int32.ofNat ((ms ++ [m]).length + 1) := by
    rw [h.next, List.length_append, List.length_singleton]
    exact (Int32.ofNat_add _ 1).symm
  have hrecord : (⟨m.1, l.nextId, paddedField (messageSize - 1) m.2⟩ : LogEntry) = record ms.length m := by
    rw [record, ← h.next]
  unfold addLogEntry
  split
  · rename_i hfree
    have hlt : ms.length < maxLogEntries := by omega
    have hi : l.logCount < l.logBuffer.length := by rw [h.size]; exact hfree
    refine ⟨?_, fillSlot_arrays hi h.arrays, ?_, hnext, ?_⟩
    · rw [length_fillSlot, h.size]
    · simp only [List.length_append, List.length_singleton]
      omega
    · have hkeep : (l.logBuffer.set l.logCount (record ms.length m)).take (l.logCount + 1) =
          l.entries ++ [record ms.length m] := by
        rw [List.set_eq_take_append_cons_drop, if_pos hi, Log.entries, List.take_append,
          List.take_of_length_le (by rw [List.length_take]; omega), List.length_take, Nat.min_eq_left (Nat.le_of_lt hi),
          Nat.add_sub_cancel_left, List.take_succ_cons, List.take_zero]
      rw [Log.entries, fillSlot_eq hi h.arrays, hrecord, hkeep, h.shows, records_concat, newest_concat_of_lt]
      rw [length_records]
      exact hlt
  · rename_i hfull
    have hge : maxLogEntries ≤ ms.length := by omega
    refine ⟨?_, ?_, ?_, hnext, ?_⟩
    · rw [length_fillSlot, length_shiftDown h.size]
    · exact fillSlot_arrays (by rw [length_shiftDown h.size]; decide) (shiftDown_arrays h.size h.arrays)
    · simp only [List.length_append, List.length_singleton]
      omega
    · -- the occupied part is the whole array
      have hall : l.logBuffer = newest maxLogEntries (records ms) := by
        rw [← h.shows, Log.entries, List.take_of_length_le (by rw [h.size]; omega)]
      rw [Log.entries, fillSlot_shiftDown h.size h.arrays, hrecord, records_concat,
        newest_concat_of_ge _ (by rw [length_records]; exact hge) (by decide), ← hall, List.take_of_length_le]
      rw [List.length_append, List.length_drop, h.size, List.length_singleton, hcount, Nat.min_eq_right hge]
      exact Nat.le_refl _

/-! ## Sequences of calls -/

theorem Holds.addAll : ∀ (new : List Message) {l : Log} {ms : List Message}, Holds l ms →
    Holds (addLogEntries l new) (ms ++ new)
  | [], l, ms, h => by simpa [addLogEntries] using h
  | m :: new, l, ms, h => by
    have := Holds.addAll new (h.add m)
    rwa [List.append_assoc, List.singleton_append] at this

/-- **The whole history**: after any sequence of messages the log shows the newest of them. -/
theorem addLogEntries_holds (ms : List Message) : Holds (addLogEntries .empty ms) ms :=
  empty_holds.addAll ms

section Entries

variable {l : Log} {ms : List Message}

theorem Holds.entries_texts (h : Holds l ms) :
    l.entries.map (fun e => cstr e.message) =
      newest l.logCount (ms.map fun m => (cstr m.2).take (messageSize - 1)) := by
  have htexts : (records ms).map (fun e => cstr e.message) = ms.map fun m => (cstr m.2).take (messageSize - 1) := by
    apply List.ext_getElem?
    intro g
    rw [List.getElem?_map, getElem?_records, List.getElem?_map, Option.map_map]
    congr 1
    funext m
    exact cstr_paddedField _ m.2
  rw [h.shows, map_newest, htexts, newest, newest, List.length_map, h.count]
  congr 1
  omega

theorem Holds.entries_arrays (h : Holds l ms) : ∀ e ∈ l.entries, e.message.length = messageSize ∧ 0 ∈ e.message := by
  intro e he
  rw [h.shows] at he
  obtain ⟨g, hg, rfl⟩ := List.mem_mapIdx.mp (List.mem_of_mem_drop he)
  exact ⟨length_paddedField _ _, zero_mem_paddedField _ _⟩

/-- Ids below `2 ^ 31` do not wrap. -/
theorem toInt_entryId {g : Nat} (hg : g + 1 < 2 ^ 31) (m : Message) :
    (record g m).entryId.toInt = (g + 1 : Nat) := Int32.toInt_ofNat_of_lt hg

theorem Holds.entries_ids (h : Holds l ms) (hn : ms.length < 2 ^ 31) :
    l.entries.map (fun e => e.entryId.toInt) =
      (List.range l.logCount).map fun i => ((ms.length + 1 - l.logCount + i : Nat) : Int) := by
  have hcount := h.count
  apply List.ext_getElem?
  intro i
  rw [h.shows, List.getElem?_map, getElem?_newest, getElem?_records, List.getElem?_map, length_records]
  by_cases hi : i < l.logCount
  · have hlt : ms.length - maxLogEntries + i < ms.length := by omega
    rw [List.getElem?_eq_getElem hlt, List.getElem?_eq_getElem (by rw [List.length_range]; exact hi)]
    simp only [Option.map_some, List.getElem_range, Option.some.injEq]
    rw [toInt_entryId (by omega)]
    congr 1
    omega
  · rw [List.getElem?_eq_none (by omega), List.getElem?_eq_none (by rw [List.length_range]; omega)]
    rfl

end Entries

/-! ## The module's history -/

/-- The bytes without a newline at their end. -/
def stripNewline (bs : List UInt8) : List UInt8 := if bs.getLast? = some 0x0a then bs.dropLast else bs

/-- The text a write asks to be stored: what comes before its newline and before the first NUL, cut to 63 characters. -/
def Write.text (w : Write) : List UInt8 := (cstr (stripNewline (slice w.buffer 0 w.count))).take 63

/-- The write passes the length check, gets its buffer and does not fault. -/
def Write.accepted (w : Write) : Bool := w.count ≤ 63 && w.alloc && w.count ≤ w.room

/-- The messages that writes pass to `add_log_entry`. -/
def passed (ws : List Write) : List Message :=
  (ws.filter Write.accepted).map fun w => (w.jiffies, w.kernelBuffer)

/-- The newline test and the terminator leave the text without its newline. -/
theorem Write.cstr_kernelBuffer {w : Write} (h : 0 < w.count) :
    cstr w.kernelBuffer = cstr (stripNewline (slice w.buffer 0 w.count)) := by
  have hlen := length_slice w.buffer 0 w.count
  unfold Write.kernelBuffer stripNewline
  generalize slice w.buffer 0 w.count = bs at hlen
  rcases List.eq_nil_or_concat bs with rfl | ⟨bs, b, rfl⟩
  · rw [List.length_nil] at hlen
    omega
  rw [List.concat_eq_append] at hlen ⊢
  have hlast : w.count - 1 = bs.length := by
    rw [List.length_append, List.length_singleton] at hlen
    omega
  simp only [hlast, List.append_assoc, List.getLast?_append, List.getD_eq_getElem?_getD]
  by_cases hb : b = 0x0a
  · subst hb
    simp [cstr_append_zero]
  · have hstrip : cstr (bs ++ ([b] ++ [0])) = cstr (bs ++ [b]) := by rw [← List.append_assoc, cstr_append_zero]
    simpa [hb] using hstrip

/-- One write either passes its message on or changes nothing. -/
theorem logProcWrite_eq (l : Log) {w : Write} (h : 0 < w.count) : ∃ ret, logProcWrite l w =
    some (if w.accepted then addLogEntry l w.jiffies w.kernelBuffer else l, ret) := by
  have h0 : ¬w.count = 0 := by omega
  unfold logProcWrite Write.accepted
  by_cases h1 : w.count > 63
  · exact ⟨-eInval, by simp [h1, show ¬w.count ≤ 63 by omega]⟩
  rw [if_neg h1]
  cases w.alloc with
  | false => exact ⟨-eNomem, by simp⟩
  | true =>
    by_cases h2 : w.room < w.count
    · exact ⟨-eFault, by simp [h2, show ¬w.count ≤ w.room by omega]⟩
    · exact ⟨w.count, by simp [h0, h2, show w.count ≤ w.room by omega, show w.count ≤ 63 by omega]⟩

/-- The module's writes are the calls of `add_log_entry` with the messages they pass. -/
theorem logProcWrites_eq : ∀ (ws : List Write) (l : Log), (∀ w ∈ ws, 0 < w.count) →
    logProcWrites l ws = some (addLogEntries l (passed ws))
  | [], _, _ => rfl
  | w :: ws, l, h => by
    obtain ⟨ret, hw⟩ := logProcWrite_eq l (h w List.mem_cons_self)
    rw [logProcWrites, hw, Option.bind_some, logProcWrites_eq ws _ fun w hw => h w (List.mem_cons_of_mem _ hw)]
    cases hacc : w.accepted with
    | false => simp [passed, hacc]
    | true => simp [passed, hacc, addLogEntries]

/-- The texts of the module's history. -/
theorem history_texts (clock : Nat → UInt64) {ws : List Write} (h : ∀ w ∈ ws, 0 < w.count) :
    (initialHistory clock ++ passed ws).map (fun m => (cstr m.2).take (messageSize - 1)) =
      initialMessages ++ (ws.filter Write.accepted).map Write.text := by
  have hinit : (initialHistory clock).map (fun m => (cstr m.2).take (messageSize - 1)) = initialMessages := rfl
  rw [List.map_append, hinit, passed, List.map_map]
  congr 1
  apply List.map_congr_left
  intro w hw
  simp only [Function.comp_apply, Write.text, messageSize]
  rw [Write.cstr_kernelBuffer (h w (List.mem_filter.mp hw).1)]

/-- What the module's log is after `pos_demo_init` and any writes. -/
theorem module_log (clock : Nat → UInt64) {ws : List Write} (h : ∀ w ∈ ws, 0 < w.count) : ∃ l,
    logProcWrites (posDemoInit clock) ws = some l ∧ Holds l (initialHistory clock ++ passed ws) :=
  ⟨_, logProcWrites_eq ws _ h, (addLogEntries_holds (initialHistory clock)).addAll (passed ws)⟩

/-- **The newest entries.** After `pos_demo_init` and any writes of at least one byte, with `n` messages accepted in
all: the log has `min n 100` entries; they hold the texts of the newest messages, oldest first, each in a terminated
array; their ids are the integers up to `n`; and `next_id` is `n + 1` as an `int`. -/
theorem virtual_log_newest (clock : Nat → UInt64) (ws : List Write) (hws : ∀ w ∈ ws, 0 < w.count)
    (texts : List (List UInt8)) (htexts : texts = initialMessages ++ (ws.filter Write.accepted).map Write.text)
    (hn : texts.length < 2 ^ 31) : ∃ l, logProcWrites (posDemoInit clock) ws = some l ∧
      l.logCount = min texts.length 100 ∧ l.logBuffer.length = 100 ∧
      (l.logBuffer.take l.logCount).map (fun e => cstr e.message) = newest l.logCount texts ∧
      (∀ e ∈ l.logBuffer.take l.logCount, e.message.length = 64 ∧ 0 ∈ e.message) ∧
      (l.logBuffer.take l.logCount).map (fun e => e.entryId.toInt) =
        (List.range l.logCount).map (fun i => ((texts.length + 1 - l.logCount + i : Nat) : Int)) ∧
      l.nextId = Int32.ofNat (texts.length + 1) := by
  obtain ⟨l, hrun, h⟩ := module_log clock hws
  have hhist := history_texts clock hws
  rw [← htexts] at hhist
  have hlen : (initialHistory clock ++ passed ws).length = texts.length := by rw [← hhist, List.length_map]
  refine ⟨l, hrun, ?_, h.size, ?_, h.entries_arrays, ?_, ?_⟩
  · rw [h.count, hlen]; rfl
  · rw [← hhist]; exact h.entries_texts
  · rw [← hlen]; exact h.entries_ids (by omega)
  · rw [h.next, hlen]

/-- A write of one byte. -/
def oneByteWrite : Write := ⟨0, fun _ => 0x61, 1, 1, true⟩

theorem virtual_log_newest_oneByteWrite : ∃ l, logProcWrites (posDemoInit fun _ => 0) [oneByteWrite] = some l ∧
    l.logCount = 6 ∧
    (l.logBuffer.take l.logCount).map (fun e => cstr e.message) = newest l.logCount (initialMessages ++ [ascii "a"]) ∧
    l.nextId = 7 := by
  obtain ⟨l, hrun, hcount, _, htexts, _, _, hnext⟩ := virtual_log_newest (fun _ => 0) [oneByteWrite] (by decide)
    (initialMessages ++ [ascii "a"]) rfl (by decide)
  exact ⟨l, hrun, hcount, htexts, hnext⟩

/-- With `2 ^ 31 - 1` messages `next_id` has wrapped around: it is not `n + 1`. -/
theorem virtual_log_next_id_wraps : ∃ ws : List Write, (∀ w ∈ ws, 1 ≤ w.count ∧ w.count ≤ 63) ∧
    (initialMessages ++ (ws.filter Write.accepted).map Write.text).length = 2 ^ 31 - 1 ∧
    ∃ l, logProcWrites (posDemoInit fun _ => 0) ws = some l ∧ l.nextId.toInt = -2 ^ 31 := by
  have hone : ∀ w ∈ List.replicate (2 ^ 31 - 6) oneByteWrite, w = oneByteWrite := fun w hw =>
    List.eq_of_mem_replicate hw
  have hpos : ∀ w ∈ List.replicate (2 ^ 31 - 6) oneByteWrite, 0 < w.count := fun w hw => by
    rw [hone w hw]; decide
  have hacc : (List.replicate (2 ^ 31 - 6) oneByteWrite).filter Write.accepted =
      List.replicate (2 ^ 31 - 6) oneByteWrite :=
    List.filter_eq_self.mpr fun w hw => by rw [hone w hw]; decide
  have hfive : initialMessages.length = 5 := rfl
  obtain ⟨l, hrun, h⟩ := module_log (fun _ => 0) hpos
  refine ⟨_, fun w hw => by rw [hone w hw]; decide, ?_, l, hrun, ?_⟩
  · rw [hacc, List.length_append, List.length_map, List.length_replicate, hfive]
    decide
  · have hlen : (initialHistory fun _ => 0).length = 5 := rfl
    rw [h.next, List.length_append, passed, hacc, List.length_map, List.length_replicate, hlen]
    decide

end KernelModules.VirtualLog
