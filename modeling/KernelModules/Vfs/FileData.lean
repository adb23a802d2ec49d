import Mathlib.Data.List.Induction
import KernelModules.Lib.Reads
import KernelModules.Vfs.SimpleVfs

/-!
# The data of a file

A file of the example file system has 64 bytes, written by `example_write` from their start, and read by
`example_read` up to the first NUL. `example_write` neither uses nor moves the position, and a write that fails has
stored a part of its bytes.

- the last byte stays NUL (`Terminated`, `exampleWrite_terminated`), so a read copies what lies between the position and
  the first NUL (`exampleRead_eq`), and reads in any pieces give the string of the file (`readAll_run`,
  `example_vfs_reads`);
- the size is the number of bytes that can be read as long as no write stores a NUL inside, and no failed write changes
  the length (`example_vfs_size`);
- only the last of several writes can be read (`example_vfs_appends`);
- a failed write changes nothing only if the bytes it has stored were there before (`example_vfs_failed_write`).
-/

namespace KernelModules.Vfs

open Lib

/-- `MAX_RW_COUNT`, the bound the VFS puts on `count`. -/
def maxRwCount : UInt64 := 0x7ffff000

/-- Writes one after another, those that fail included. -/
def writeAll (i : Inode) (ws : List Write) : Inode := ws.foldl (fun i w => (exampleWrite i w).1) i

/-- A call of `example_read`. -/
structure ReadCall where
  count : UInt64
  room : Nat

/-- A call that the VFS makes for a positive count. -/
def ReadCall.Valid (c : ReadCall) : Prop := 0 < c.count ∧ c.count ≤ maxRwCount

/-- Reads one after another through one file, from a position on. -/
def readAll (i : Inode) : UInt64 → List ReadCall → List ReadResult
  | _, [] => []
  | ppos, c :: cs => exampleRead i ppos c.count c.room :: readAll i (exampleRead i ppos c.count c.room).ppos cs

/-- What a call returns to its caller. -/
def ReadResult.outcome (r : ReadResult) : Option (List UInt8) := if r.ret < 0 then none else some r.bytes

/-- What the calls that did not fail have returned. -/
def returned (rs : List ReadResult) : List UInt8 := Reads.pieces (rs.map ReadResult.outcome)

/-- Some reads from position 0 on, up to one that returns 0, return these bytes. -/
def Inode.ReadsBack (i : Inode) (bs : List UInt8) : Prop :=
  ∃ calls pre r post, (∀ c ∈ calls, c.Valid) ∧ readAll i 0 calls = pre ++ r :: post ∧ r.ret = 0 ∧ returned pre = bs

/-! ## The terminator -/

/-- The last byte of the storage is NUL. -/
def Terminated (i : Inode) : Prop := i.data.length = dataSize ∧ i.data[dataSize - 1]? = some 0

theorem Terminated.zero_mem {i : Inode} (h : Terminated i) : 0 ∈ i.data := List.mem_of_getElem? h.2

theorem Terminated.length_lt {i : Inode} (h : Terminated i) : (cstr i.data).length < dataSize := by
  rw [← h.1]
  exact length_cstr_lt h.zero_mem

theorem exampleAllocInode_terminated {kmalloc : Bool} {i : Inode} (h : exampleAllocInode kmalloc = some i) :
    Terminated i := by
  rw [exampleAllocInode_some h]
  exact ⟨rfl, rfl⟩

/-- **One write**, failed or not, keeps the terminator. -/
theorem exampleWrite_terminated {i : Inode} (h : Terminated i) (w : Write) : Terminated (exampleWrite i w).1 := by
  refine ⟨length_exampleWrite h.1 w, ?_⟩
  have hlen : w.stored.length ≤ dataSize - 1 := Nat.le_sub_one_of_lt w.length_stored_lt
  -- the copy ends before the last byte
  have hlast : (overlay i.data w.stored)[dataSize - 1]? = some 0 := by
    rw [overlay, List.getElem?_append_right hlen, List.getElem?_drop, Nat.add_sub_cancel' hlen, h.2]
  rcases Nat.lt_or_ge w.room w.fitting with hfail | hok
  · rw [exampleWrite_fault hfail]
    exact hlast
  · rw [exampleWrite_ok hok]
    by_cases hend : w.fitting = dataSize - 1
    · have hin : dataSize - 1 < (overlay i.data w.stored).length := by
        rw [length_overlay (by rw [h.1]; exact Nat.le_of_lt w.length_stored_lt), h.1]
        decide
      simp only [hend]
      exact List.getElem?_set_self hin
    · exact (List.getElem?_set_ne hend).trans hlast

/-- **All writes** do. -/
theorem writeAll_terminated {i : Inode} (h : Terminated i) (ws : List Write) : Terminated (writeAll i ws) := by
  induction ws generalizing i with
  | nil => exact h
  | cons w ws ih => exact ih (exampleWrite_terminated h w)

/-! ## Reads -/

section Reads

variable {i : Inode} {ppos count : UInt64}

/-- What is copied ends before the terminator. -/
theorem extent_lt (hi : Terminated i) (h : 0 < extent i ppos count) : ppos.toNat + extent i ppos count ≤ 63 :=
  Nat.le_trans (extent_le h) (Nat.le_of_lt_succ hi.length_lt)

/-- **One read** copies from the position on, as much as is asked for and is there. -/
theorem exampleRead_eq (hi : Terminated i) (hc : count ≤ maxRwCount) (room : Nat) :
    exampleRead i ppos count room =
      if room < extent i ppos count then ⟨-eFault, ppos, (i.data.drop ppos.toNat).take room⟩
      else ⟨extent i ppos count, ppos + UInt64.ofNat (extent i ppos count),
        (i.data.drop ppos.toNat).take (extent i ppos count)⟩ := by
  refine exampleRead_extent hi.1 ?_ room
  have hlen := hi.length_lt
  have hcount := UInt64.le_iff_toNat_le.mp hc
  have hmax : maxRwCount.toNat = 2147479552 := rfl
  unfold dataSize at hlen
  omega

/-- A read is a call of a reader of the string. -/
theorem exampleRead_step (hi : Terminated i) {c : ReadCall} (hc : c.Valid) :
    (Reads.reader (cstr i.data)).step ppos.toNat (exampleRead i ppos c.count c.room).outcome
      (exampleRead i ppos c.count c.room).ppos.toNat := by
  have hpos := UInt64.lt_iff_toNat_lt.mp hc.1
  rw [exampleRead_eq hi hc.2]
  split
  · exact rfl
  · have hlen := length_take_extent i ppos c.count
    have hnext : (ppos + UInt64.ofNat (extent i ppos c.count)).toNat = ppos.toNat + extent i ppos c.count := by
      have hppos := ppos.toNat_lt
      have hsmall := hi.length_lt
      unfold dataSize at hsmall
      unfold extent
      rw [UInt64.toNat_add, UInt64.toNat_ofNat']
      omega
    rw [ReadResult.outcome, if_neg (by simp), take_extent]
    refine ⟨by rw [hlen], by rw [hnext, hlen], fun hnil => ?_⟩
    have hzero : extent i ppos c.count = 0 := hlen.symm.trans (congrArg List.length hnil)
    unfold extent at hzero
    omega

/-- **Reads through one file** are those of a reader of its string. -/
theorem readAll_path (hi : Terminated i) (ppos : UInt64) {calls : List ReadCall} (hcalls : ∀ c ∈ calls, c.Valid) :
    ∃ q, (Reads.reader (cstr i.data)).Path ppos.toNat ((readAll i ppos calls).map ReadResult.outcome) q := by
  induction calls generalizing ppos with
  | nil => exact ⟨ppos.toNat, .nil _⟩
  | cons c cs ih =>
    obtain ⟨q, hpath⟩ := ih (exampleRead i ppos c.count c.room).ppos fun d hd =>
      hcalls d (List.mem_cons_of_mem c hd)
    exact ⟨q, .cons (exampleRead_step hi (hcalls c List.mem_cons_self)) hpath⟩

theorem readAll_run (hi : Terminated i) {calls : List ReadCall} (hcalls : ∀ c ∈ calls, c.Valid) :
    ∃ q, (Reads.reader (cstr i.data)).Run ((readAll i 0 calls).map ReadResult.outcome) q := by
  obtain ⟨q, hpath⟩ := readAll_path hi 0 hcalls
  exact ⟨q, 0, rfl, hpath⟩

/-- A call that returns no bytes returns 0. -/
theorem outcome_eq_nil_iff (hi : Terminated i) {c : ReadCall} (hc : c.Valid) :
    (exampleRead i ppos c.count c.room).outcome = some [] ↔ (exampleRead i ppos c.count c.room).ret = 0 := by
  rw [exampleRead_eq hi hc.2]
  split
  · constructor
    · intro h
      cases h
    · intro h
      cases h
  · rw [ReadResult.outcome, if_neg (by simp), take_extent, Option.some.injEq, ← List.length_eq_zero_iff,
      length_take_extent, Int.natCast_eq_zero]

/-- A buffer as long as the longest string does not fault. -/
theorem outcome_ne_none (hi : Terminated i) {c : ReadCall} (hc : c.Valid) (hroom : dataSize - 1 ≤ c.room) :
    (exampleRead i ppos c.count c.room).outcome ≠ none := by
  have hlen := hi.length_lt
  have hle : ¬c.room < extent i ppos c.count := by
    unfold extent
    omega
  rw [exampleRead_eq hi hc.2, if_neg hle, ReadResult.outcome, if_neg (by simp)]
  simp

theorem mem_readAll {calls : List ReadCall} {r : ReadResult} (h : r ∈ readAll i ppos calls) :
    ∃ c ∈ calls, ∃ p, r = exampleRead i p c.count c.room := by
  induction calls generalizing ppos with
  | nil => cases h
  | cons c cs ih =>
    rcases List.mem_cons.mp h with rfl | h
    · exact ⟨c, List.mem_cons_self, ppos, rfl⟩
    · obtain ⟨d, hd, hr⟩ := ih h
      exact ⟨d, List.mem_cons_of_mem c hd, hr⟩

/-- **Reading to the end** returns the string of the file. -/
theorem readAll_eof (hi : Terminated i) {calls : List ReadCall} (hcalls : ∀ c ∈ calls, c.Valid)
    {pre post : List ReadResult} {r : ReadResult} (h : readAll i 0 calls = pre ++ r :: post) (hr : r.ret = 0) :
    returned pre = cstr i.data := by
  obtain ⟨c, hc, p, rfl⟩ := mem_readAll (r := r) (by rw [h]; exact List.mem_append_right _ List.mem_cons_self)
  obtain ⟨q, hrun⟩ := readAll_run hi hcalls
  rw [h, List.map_append, List.map_cons, (outcome_eq_nil_iff hi (hcalls c hc)).mpr hr] at hrun
  exact Reads.run_eof hrun

/-- **Enough reads** that do not fail get to the end. -/
theorem readAll_reaches_eof (hi : Terminated i) {calls : List ReadCall} (hcalls : ∀ c ∈ calls, c.Valid)
    (hok : ∀ r ∈ readAll i 0 calls, r.outcome ≠ none) (hlen : (cstr i.data).length < (readAll i 0 calls).length) :
    ∃ r ∈ readAll i 0 calls, r.ret = 0 := by
  obtain ⟨q, hrun⟩ := readAll_run hi hcalls
  have hnone : none ∉ (readAll i 0 calls).map ReadResult.outcome := by
    intro h
    obtain ⟨r, hr, hnone⟩ := List.mem_map.mp h
    exact hok r hr hnone
  have hmem := Reads.run_reaches_eof hrun hnone (by rw [List.length_map]; exact hlen)
  obtain ⟨r, hr, hnil⟩ := List.mem_map.mp hmem
  obtain ⟨c, hc, p, rfl⟩ := mem_readAll hr
  exact ⟨_, hr, (outcome_eq_nil_iff hi (hcalls c hc)).mp hnil⟩

theorem length_readAll (i : Inode) (ppos : UInt64) (calls : List ReadCall) :
    (readAll i ppos calls).length = calls.length := by
  induction calls generalizing ppos with
  | nil => rfl
  | cons c cs ih => rw [readAll, List.length_cons, List.length_cons, ih]

/-- What a file reads back as is its string. -/
theorem readsBack_iff (hi : Terminated i) (bs : List UInt8) : Inode.ReadsBack i bs ↔ bs = cstr i.data := by
  constructor
  · rintro ⟨calls, pre, r, post, hcalls, h, hr, rfl⟩
    exact readAll_eof hi hcalls h hr
  · rintro rfl
    have hcalls : ∀ c ∈ List.replicate dataSize (⟨1, dataSize⟩ : ReadCall), c.Valid := by
      intro c hc
      rw [List.eq_of_mem_replicate hc]
      exact ⟨by decide, by decide⟩
    have hok : ∀ r ∈ readAll i 0 (List.replicate dataSize ⟨1, dataSize⟩), r.outcome ≠ none := by
      intro r hr
      obtain ⟨c, hc, p, rfl⟩ := mem_readAll hr
      refine outcome_ne_none hi (hcalls c hc) ?_
      rw [List.eq_of_mem_replicate hc]
      decide
    obtain ⟨r, hr, hzero⟩ := readAll_reaches_eof hi hcalls hok (by
      rw [length_readAll, List.length_replicate]
      exact hi.length_lt)
    obtain ⟨pre, post, h⟩ := List.append_of_mem hr
    exact ⟨_, pre, r, post, hcalls, h, hzero, readAll_eof hi hcalls h hzero⟩

end Reads

/-- **Reads.** After any writes the last byte is NUL; a read copies what lies between the position and the first NUL, or
faults behind a part of it, and nothing behind byte 63; reads from position 0 on return the string without loss or
repetition, all of it before one returns 0, and enough reads that do not fail get there. -/
theorem example_vfs_reads (kmalloc : Bool) (i₀ : Inode) (h : exampleAllocInode kmalloc = some i₀) (ws : List Write) :
    (writeAll i₀ ws).data.length = 64 ∧ (writeAll i₀ ws).data[63]? = some 0 ∧
    (cstr (writeAll i₀ ws).data).length ≤ 63 ∧
    (∀ ppos count : UInt64, ∀ room n : Nat, count ≤ maxRwCount →
      n = min (ppos.toNat + count.toNat) (cstr (writeAll i₀ ws).data).length - ppos.toNat →
      exampleRead (writeAll i₀ ws) ppos count room =
        (if room < n then ⟨-eFault, ppos, ((writeAll i₀ ws).data.drop ppos.toNat).take room⟩
        else ⟨n, ppos + UInt64.ofNat n, ((writeAll i₀ ws).data.drop ppos.toNat).take n⟩) ∧
      (0 < n → ppos.toNat + n ≤ 63)) ∧
    ∀ calls : List ReadCall, (∀ c ∈ calls, c.Valid) →
      returned (readAll (writeAll i₀ ws) 0 calls) <+: cstr (writeAll i₀ ws).data ∧
      (∀ pre r post, readAll (writeAll i₀ ws) 0 calls = pre ++ r :: post → r.ret = 0 →
        returned pre = cstr (writeAll i₀ ws).data) ∧
      ((∀ r ∈ readAll (writeAll i₀ ws) 0 calls, 0 ≤ r.ret) → (cstr (writeAll i₀ ws).data).length < calls.length →
        ∃ r ∈ readAll (writeAll i₀ ws) 0 calls, r.ret = 0) := by
  have hi := writeAll_terminated (exampleAllocInode_terminated h) ws
  refine ⟨hi.1, hi.2, Nat.le_of_lt_succ hi.length_lt, ?_, ?_⟩
  · rintro ppos count room n hc rfl
    exact ⟨exampleRead_eq hi hc room, extent_lt hi⟩
  · intro calls hcalls
    obtain ⟨q, hrun⟩ := readAll_run hi hcalls
    refine ⟨?_, fun pre r post => readAll_eof hi hcalls, fun hok hlen => ?_⟩
    · rw [returned, (Reads.run_pieces hrun).1]
      exact List.take_prefix _ _
    · refine readAll_reaches_eof hi hcalls (fun r hr hnone => ?_) (by rw [length_readAll]; exact hlen)
      rw [ReadResult.outcome, if_neg (Int.not_lt.mpr (hok r hr))] at hnone
      cases hnone

/-- A write of `hi`. -/
def writeHi : Write := ⟨fun k => if k = 0 then 104 else 105, 2, 2, false⟩

/-- `hi` is written, then a write fails behind an `X`; a read in two pieces. -/
theorem example_vfs_reads_pieces :
    (∀ c ∈ [(⟨1, 1⟩ : ReadCall), ⟨5, 5⟩], c.Valid) ∧
    returned (readAll (writeAll newFile [writeHi, ⟨fun _ => 88, 2, 1, false⟩]) 0 [⟨1, 1⟩, ⟨5, 5⟩]) <+: ascii "Xi" := by
  have hcalls : ∀ c ∈ [(⟨1, 1⟩ : ReadCall), ⟨5, 5⟩], c.Valid := by
    unfold ReadCall.Valid
    decide
  exact ⟨hcalls, ((example_vfs_reads true newFile rfl [writeHi, ⟨fun _ => 88, 2, 1, false⟩]).2.2.2.2 _ hcalls).1⟩

/-! ## The size -/

theorem writeAll_concat (i : Inode) (ws : List Write) (w : Write) :
    writeAll i (ws ++ [w]) = (exampleWrite (writeAll i ws) w).1 := by
  rw [writeAll, List.foldl_append]
  rfl

/-- The size is that of the string. -/
def SizeExact (i : Inode) : Prop := i.iSize = (cstr i.data).length

/-- A write after which a file of this size still has the size of its string: one that succeeds stores no NUL, and one
that fails stores no NUL and not more than the size, or its first NUL at the end of the file. -/
def Write.Keeps (size : Nat) (w : Write) : Prop :=
  if w.room < w.fitting then
    (0 ∉ w.stored ∧ w.stored.length ≤ size) ∨ (0 ∈ w.stored ∧ (cstr w.stored).length = size)
  else
    0 ∉ w.stored

instance (size : Nat) (w : Write) : Decidable (w.Keeps size) := by
  unfold Write.Keeps
  infer_instance

/-- **One write** keeps the size exact only so. -/
theorem exampleWrite_sizeExact_iff {i : Inode} (hi : Terminated i) (hs : SizeExact i) (w : Write) :
    SizeExact (exampleWrite i w).1 ↔ w.Keeps i.iSize := by
  unfold Write.Keeps
  by_cases hfail : w.room < w.fitting
  · rw [if_pos hfail, SizeExact, exampleWrite_fault hfail]
    show i.iSize = (cstr (w.stored ++ i.data.drop w.stored.length)).length ↔ _
    rw [cstr_append]
    by_cases hz : 0 ∈ w.stored
    · simp only [hz, not_true_eq_false, false_and, true_and, false_or, if_true]
      exact eq_comm
    · simp only [hz, not_false_eq_true, true_and, false_and, or_false, if_false, List.length_append]
      -- what was there before the fault is read behind the stored bytes, unless they reach over its end
      constructor
      · omega
      · intro hle
        rw [hs] at hle ⊢
        rw [cstr_drop hle, List.length_drop]
        omega
  · have hok := Nat.le_of_not_lt hfail
    rw [if_neg hfail, SizeExact, cstr_exampleWrite hi.1 hok, exampleWrite_ok hok, ← length_cstr_eq_iff,
      w.length_stored hok]

/-- **All writes** keep it only if each does. -/
theorem writeAll_sizeExact_iff {i : Inode} (hi : Terminated i) (hs : SizeExact i) (ws : List Write) :
    (∀ pre post, ws = pre ++ post → SizeExact (writeAll i pre)) ↔
      ∀ pre w post, ws = pre ++ w :: post → w.Keeps (writeAll i pre).iSize := by
  constructor
  · intro h pre w post hws
    have hnext := h (pre ++ [w]) post (by rw [hws, List.append_assoc, List.singleton_append])
    rw [writeAll_concat] at hnext
    exact (exampleWrite_sizeExact_iff (writeAll_terminated hi pre) (h pre (w :: post) hws) w).mp hnext
  · intro h pre
    induction pre using List.reverseRecOn with
    | nil => exact fun _ _ => hs
    | append_singleton pre w ih =>
      intro post hws
      rw [List.append_assoc, List.singleton_append] at hws
      rw [writeAll_concat]
      exact (exampleWrite_sizeExact_iff (writeAll_terminated hi pre) (ih _ hws) w).mpr (h pre w post hws)

/-- **The size** is the number of bytes that can be read, and what can be read after a write is what was written, in all
states that some writes go through if and only if each of them keeps the size exact. -/
theorem example_vfs_size (kmalloc : Bool) (i₀ : Inode) (h : exampleAllocInode kmalloc = some i₀) (ws : List Write) :
    (∀ pre post, ws = pre ++ post →
      (∀ bs, Inode.ReadsBack (writeAll i₀ pre) bs → (writeAll i₀ pre).iSize = bs.length) ∧
      ∀ before w, pre = before ++ [w] → 0 ≤ (exampleWrite (writeAll i₀ before) w).2 → w.count ≤ 63 →
        Inode.ReadsBack (writeAll i₀ pre) (slice w.buf 0 w.count.toNat)) ↔
      ∀ pre w post, ws = pre ++ w :: post → w.Keeps (writeAll i₀ pre).iSize := by
  have hi := exampleAllocInode_terminated h
  have hs : SizeExact i₀ := by
    rw [exampleAllocInode_some h]
    rfl
  have hback (pre : List Write) := readsBack_iff (writeAll_terminated hi pre)
  rw [← writeAll_sizeExact_iff hi hs]
  constructor
  · intro hall pre post hws
    exact (hall pre post hws).1 _ ((hback pre _).mpr rfl)
  · intro hall pre post hws
    have hpre := hall pre post hws
    refine ⟨fun bs hbs => by rw [(hback pre bs).mp hbs]; exact hpre, ?_⟩
    rintro before w rfl hret hcount
    have hok := room_of_ret hret
    have hcount : w.fitting = w.count.toNat := if_neg (Nat.not_lt.mpr (UInt64.le_iff_toNat_le.mp hcount))
    rw [hback, writeAll_concat, cstr_exampleWrite (writeAll_terminated hi before).1 hok, ← hcount, ← w.stored_eq hok]
    -- the size is exact after the write, so it has stored no NUL
    rw [writeAll_concat, SizeExact, cstr_exampleWrite (writeAll_terminated hi before).1 hok,
      exampleWrite_ok hok] at hpre
    exact (cstr_of_notMem ((length_cstr_eq_iff _).mp ((w.length_stored hok).trans hpre))).symm

/-- `hi` is written. -/
theorem example_vfs_size_text :
    (∀ bs, Inode.ReadsBack (writeAll newFile [writeHi]) bs → 2 = bs.length) ∧
    Inode.ReadsBack (writeAll newFile [writeHi]) (ascii "hi") := by
  have hkeeps : ∀ pre w post, [writeHi] = pre ++ w :: post → w.Keeps (writeAll newFile pre).iSize := by
    intro pre w post hws
    cases pre with
    | nil =>
      cases hws
      decide
    | cons v pre =>
      have hlen := congrArg List.length hws
      simp at hlen
  obtain ⟨hsize, hlast⟩ := (example_vfs_size true newFile rfl [writeHi]).mpr hkeeps [writeHi] [] rfl
  exact ⟨hsize, hlast [] writeHi rfl (by decide) (by decide)⟩

/-- `a`, NUL, `a` are written: the size is 3, and one byte can be read. -/
theorem example_vfs_size_nul :
    (writeAll newFile [⟨fun k => if k = 1 then 0 else 97, 3, 3, false⟩]).iSize = 3 ∧
    exampleRead (writeAll newFile [⟨fun k => if k = 1 then 0 else 97, 3, 3, false⟩]) 0 64 64 = ⟨1, 1, [97]⟩ ∧
    exampleRead (writeAll newFile [⟨fun k => if k = 1 then 0 else 97, 3, 3, false⟩]) 1 64 64 = ⟨0, 1, []⟩ := by
  decide

/-! ## Several writes -/

/-- A write of a text. -/
def Write.Writes (s : List UInt8) (w : Write) : Prop :=
  w.count.toNat = s.length ∧ slice w.buf 0 s.length = s ∧ s.length ≤ w.room

/-- A short text is stored. -/
theorem Write.Writes.stored {s : List UInt8} {w : Write} (h : w.Writes s) (hs : s.length ≤ dataSize - 1) :
    w.fitting ≤ w.room ∧ w.stored = s := by
  obtain ⟨hcount, hbuf, hroom⟩ := h
  have hfit : w.fitting = s.length := by
    rw [Write.fitting, hcount, if_neg (Nat.not_lt.mpr hs)]
  rw [w.stored_eq (hfit ▸ hroom), hfit]
  exact ⟨hroom, hbuf⟩

/-- **After texts** have been written the string is the last of them. -/
theorem cstr_writeAll {i : Inode} (hi : Terminated i) {ss : List (List UInt8)} {ws : List Write}
    (hws : List.Forall₂ Write.Writes ss ws) (hss : ∀ s ∈ ss, s.length ≤ dataSize - 1 ∧ 0 ∉ s) :
    cstr (writeAll i ws).data = ss.getLast?.getD (cstr i.data) := by
  induction hws generalizing i with
  | nil => rfl
  | @cons s w ss ws hw _ ih =>
    obtain ⟨hlen, hz⟩ := hss s List.mem_cons_self
    obtain ⟨hok, hstored⟩ := hw.stored hlen
    have htail := ih (exampleWrite_terminated hi w) fun t ht => hss t (List.mem_cons_of_mem s ht)
    rw [cstr_exampleWrite hi.1 hok, hstored, cstr_of_notMem hz] at htail
    rw [List.getLast?_cons]
    exact htail

theorem flatten_eq_getLast_iff {α : Type} (ss : List (List α)) :
    ss.flatten = ss.getLast?.getD [] ↔ ∀ s ∈ ss.dropLast, s = [] := by
  rcases List.eq_nil_or_concat ss with rfl | ⟨init, s, rfl⟩
  · simp
  · simp [List.flatten_eq_nil_iff]

/-- **Writes one after another** through one file accumulate only if all before the last are empty. -/
theorem example_vfs_appends (kmalloc : Bool) (i₀ : Inode) (h : exampleAllocInode kmalloc = some i₀)
    (ss : List (List UInt8)) (hzero : ∀ s ∈ ss, 0 ∉ s) (htotal : ss.flatten.length ≤ 63) (ws : List Write)
    (hws : List.Forall₂ Write.Writes ss ws) :
    Inode.ReadsBack (writeAll i₀ ws) ss.flatten ↔ ∀ s ∈ ss.dropLast, s = [] := by
  have hi := exampleAllocInode_terminated h
  have hshort : ∀ s ∈ ss, s.length ≤ dataSize - 1 ∧ 0 ∉ s := by
    intro s hs
    exact ⟨Nat.le_trans (List.Sublist.length_le (List.sublist_flatten_of_mem hs)) htotal, hzero s hs⟩
  have hempty : cstr i₀.data = [] := by
    rw [exampleAllocInode_some h]
    exact cstr_replicate_zero dataSize
  rw [readsBack_iff (writeAll_terminated hi ws), cstr_writeAll hi hws hshort, hempty, flatten_eq_getLast_iff]

/-- A write of nothing. -/
def writeNothing : Write := ⟨fun _ => 0, 0, 0, false⟩

/-- Nothing and then `hi` are written. -/
theorem example_vfs_appends_afterEmpty :
    Inode.ReadsBack (writeAll newFile [writeNothing, writeHi]) ([] ++ ascii "hi") :=
  (example_vfs_appends true newFile rfl [[], ascii "hi"] (by decide) (by decide) [writeNothing, writeHi]
    (.cons ⟨rfl, rfl, by decide⟩ (.cons ⟨rfl, rfl, by decide⟩ .nil))).mpr (by decide)

/-- `hi` and then `B` are written: only `B` can be read. -/
theorem example_vfs_appends_overwrites :
    exampleRead (writeAll newFile [writeHi, ⟨fun _ => 66, 1, 1, false⟩]) 0 64 64 = ⟨1, 1, [66]⟩ ∧
    exampleRead (writeAll newFile [writeHi, ⟨fun _ => 66, 1, 1, false⟩]) 1 64 64 = ⟨0, 1, []⟩ := by
  decide

/-! ## Writes that fail -/

/-- **A write that fails** leaves what can be read and the size as they were only if what it stores over the string and
its terminator was there before. -/
theorem example_vfs_failed_write (i : Inode) (hi : Terminated i) (w : Write) (hfail : (exampleWrite i w).2 = -eFault) :
    ((∀ bs, Inode.ReadsBack (exampleWrite i w).1 bs ↔ Inode.ReadsBack i bs) ∧ (exampleWrite i w).1.iSize = i.iSize) ↔
      w.stored.take ((cstr i.data).length + 1) <+: cstr i.data ++ [0] := by
  have hroom : w.room < w.fitting := by
    refine Nat.lt_of_not_le fun hok => ?_
    rw [exampleWrite_ok hok] at hfail
    exact absurd (hfail.symm ▸ Int.natCast_nonneg w.fitting : (0 : Int) ≤ -eFault) (by decide)
  have hi' := exampleWrite_terminated hi w
  simp only [readsBack_iff hi', readsBack_iff hi]
  rw [exampleWrite_fault hroom] at hi' ⊢
  have hlen : (cstr i.data ++ [0]).length = (cstr i.data).length + 1 := List.length_append
  rw [← hlen, ← prefix_overlay_iff (initial_cstr hi.zero_mem)]
  constructor
  · rintro ⟨hbs, -⟩
    rw [← (hbs _).mp rfl]
    exact initial_cstr hi'.zero_mem
  · intro hprefix
    rw [cstr_eq_of_initial hprefix (zero_notMem_cstr i.data)]
    exact ⟨fun bs => Iff.rfl, rfl⟩

/-- A file with a greeting. -/
def hello : Inode := ⟨ascii "hello" ++ List.replicate 59 0, 5⟩

/-- `hello` is written over itself, with a fault behind the first byte. -/
theorem example_vfs_failed_write_same : (exampleWrite hello ⟨fun _ => 104, 5, 1, false⟩).2 = -eFault ∧
    ∀ bs, Inode.ReadsBack (exampleWrite hello ⟨fun _ => 104, 5, 1, false⟩).1 bs ↔ Inode.ReadsBack hello bs :=
  ⟨rfl, ((example_vfs_failed_write hello ⟨rfl, rfl⟩ ⟨fun _ => 104, 5, 1, false⟩ rfl).mpr (by decide)).1⟩

/-- A write over `hello` that fails behind its first byte, an `X`. -/
theorem example_vfs_failed_write_stores : (exampleWrite hello ⟨fun _ => 88, 5, 1, false⟩).2 = -eFault ∧
    (exampleRead hello 0 64 64).bytes = ascii "hello" ∧
    (exampleRead (exampleWrite hello ⟨fun _ => 88, 5, 1, false⟩).1 0 64 64).bytes = ascii "Xello" := by
  decide

end KernelModules.Vfs
