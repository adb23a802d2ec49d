import KernelModules.Lib.CString

/-!
# The example file system

The operations of `simple_vfs.c`. A dentry carries its name, its reference count, its inode and whether the dentry cache
can find it; the file contents live in the inode. `dget`, `dput`, `d_add`, `d_instantiate` and `d_delete` are the
kernel's. `example_unlink` is called by `vfs_unlink`, which deletes the dentry when it succeeds.
-/

namespace KernelModules.Vfs

open Lib

/-- `sizeof(data)`. -/
def dataSize : Nat := 64

/-- `struct example_inode_info`: the storage and the size of the inode. -/
structure Inode where
  data : List UInt8
  iSize : Nat
deriving DecidableEq, Repr

structure Dentry where
  name : String
  dCount : Int
  inode : Option Inode
  hashed : Bool
deriving DecidableEq, Repr

/-! ## The dentry cache's functions -/

/-- A new dentry, with the reference of the caller. -/
def dAlloc (name : String) : Dentry := ⟨name, 1, none, false⟩

def Dentry.dAdd (x : Dentry) (inode : Option Inode) : Dentry := { x with inode := inode, hashed := true }

def Dentry.dInstantiate (x : Dentry) (inode : Inode) : Dentry := { x with inode := some inode }

def Dentry.dget (x : Dentry) : Dentry := { x with dCount := x.dCount + 1 }

def Dentry.dput (x : Dentry) : Dentry := { x with dCount := x.dCount - 1 }

/-- What is left of a dentry after its `dput`: without references and unhashed it is freed at once. -/
def Dentry.retained (x : Dentry) : Option Dentry := if x.dCount = 0 ∧ x.hashed = false then none else some x

/-- `d_delete`: the last user makes the dentry negative, otherwise it is unhashed. -/
def Dentry.dDelete (x : Dentry) : Dentry :=
  if x.dCount = 1 then { x with inode := none } else { x with hashed := false }

/-! ## Superblock and inode operations -/

/-- An inode without contents. -/
def newFile : Inode := ⟨List.replicate dataSize 0, 0⟩

/-- `example_alloc_inode`, with the result of `kmalloc`. -/
def exampleAllocInode (kmalloc : Bool) : Option Inode :=
  if kmalloc then some newFile else none

/-- `example_get_inode` for a regular file. -/
def exampleGetInode (kmalloc : Bool) : Option Inode := exampleAllocInode kmalloc

def testfile : String := "testfile"

def exampleLookup (x : Dentry) (kmalloc : Bool) : Dentry :=
  if x.name = testfile then
    match exampleGetInode kmalloc with
    | some inode => x.dAdd (some inode)
    | none => x.dAdd none
  else
    x.dAdd none

def exampleCreate (x : Dentry) (kmalloc : Bool) : Dentry × Int :=
  match exampleGetInode kmalloc with
  | none => (x, -eNospc)
  | some inode => ((x.dInstantiate inode).dget, 0)

/-- `example_unlink`; there is no result when the inode it dereferences is `NULL`. -/
def exampleUnlink (x : Dentry) : Option (Dentry × Int) := x.inode.map fun _ => (x.dput, 0)

/-- `vfs_unlink`. -/
def vfsUnlink (x : Dentry) : Option Dentry :=
  (exampleUnlink x).map fun r => if r.2 = 0 then r.1.dDelete else r.1

/-! ## File operations -/

def exampleOpen : Int := 0

/-- What a `read` returns, the position after it, and the bytes it delivered. -/
structure ReadResult where
  ret : Int
  ppos : UInt64
  bytes : List UInt8
deriving DecidableEq

/-- `example_read`; `room` is the accessible part of the user buffer. -/
def exampleRead (i : Inode) (ppos count : UInt64) (room : Nat) : ReadResult :=
  let len := UInt64.ofNat (cstr i.data).length
  if ppos ≥ len then
    ⟨0, ppos, []⟩
  else
    let count := if ppos + count > len then len - ppos else count
    let bytes := (i.data.drop ppos.toNat).take (min count.toNat room)
    if room < count.toNat then ⟨-eFault, ppos, bytes⟩ else ⟨count.toNat, ppos + count, bytes⟩

/-- A call of `example_write`: the user's bytes, the accessible part of them, and whether a fault zeroes the rest. -/
structure Write where
  buf : Nat → UInt8
  count : UInt64
  room : Nat
  zero : Bool

/-- `count`, cut to what fits. -/
def Write.fitting (w : Write) : Nat := if w.count.toNat > dataSize - 1 then dataSize - 1 else w.count.toNat

/-- `example_write`; the position is not used. -/
def exampleWrite (i : Inode) (w : Write) : Inode × Int :=
  let data := overlay i.data (copiedIn w.buf w.fitting w.room w.zero)
  if w.room < w.fitting then
    ({ i with data := data }, -eFault)
  else
    ({ i with data := data.set w.fitting 0, iSize := w.fitting }, w.fitting)

/-! ## Directory operations -/

/-- `struct dir_context`: the position, how many more entries the caller's buffer takes, and those emitted. -/
structure DirContext where
  pos : Nat
  room : Nat
  emitted : List String

/-- `if (ctx->pos == pos) { if (!dir_emit(ctx, name)) return 0; ctx->pos = pos + 1; }`; an error is the early return. -/
def emitAt (pos : Nat) (name : String) (ctx : DirContext) : Except DirContext DirContext :=
  if ctx.pos = pos then
    if ctx.room = 0 then
      .error ctx
    else
      .ok { pos := pos + 1, room := ctx.room - 1, emitted := ctx.emitted ++ [name] }
  else
    .ok ctx

def exampleReaddir (ctx : DirContext) : DirContext :=
  match emitAt 0 "." ctx >>= emitAt 1 ".." >>= emitAt 2 testfile with
  | .ok ctx => ctx
  | .error ctx => ctx

/-- Calls of `getdents`, each with a buffer of its own: the position they reach and all names they return. -/
def getdents (pos : Nat) (names : List String) : List Nat → Nat × List String
  | [] => (pos, names)
  | room :: rooms => getdents (exampleReaddir ⟨pos, room, []⟩).pos
    (names ++ (exampleReaddir ⟨pos, room, []⟩).emitted) rooms

/-! ## Equations -/

/-- `example_lookup` makes a new dentry positive only under the one name it knows. -/
theorem exampleLookup_dAlloc (name : String) (kmalloc : Bool) : exampleLookup (dAlloc name) kmalloc =
    ⟨name, 1, if name = testfile then exampleAllocInode kmalloc else none, true⟩ := by
  have hn : (dAlloc name).name = name := rfl
  unfold exampleLookup exampleGetInode
  rw [hn]
  by_cases hname : name = testfile
  · rw [if_pos hname, if_pos hname]
    cases exampleAllocInode kmalloc with
    | none => rfl
    | some i => rfl
  · rw [if_neg hname, if_neg hname]
    rfl

theorem exampleAllocInode_some {kmalloc : Bool} {i : Inode} (h : exampleAllocInode kmalloc = some i) :
    i = ⟨List.replicate dataSize 0, 0⟩ := by
  unfold exampleAllocInode at h
  split at h
  · exact (Option.some.inj h).symm
  · cases h

/-- `example_create` fails and changes nothing, or makes the dentry positive and takes a reference. -/
theorem exampleCreate_cases {x x' : Dentry} {kmalloc : Bool} {ret : Int} (h : exampleCreate x kmalloc = (x', ret)) :
    (x' = x ∧ ret = -eNospc) ∨
      (∃ i, exampleAllocInode kmalloc = some i ∧ x' = ⟨x.name, x.dCount + 1, some i, x.hashed⟩ ∧ ret = 0) := by
  unfold exampleCreate exampleGetInode at h
  cases hi : exampleAllocInode kmalloc with
  | none =>
    simp only [hi, Prod.mk.injEq] at h
    exact .inl ⟨h.1.symm, h.2.symm⟩
  | some i =>
    simp only [hi, Prod.mk.injEq] at h
    exact .inr ⟨i, rfl, h.1.symm, h.2.symm⟩

/-- `vfs_unlink` of a positive dentry drops a reference, and then the inode or the name. -/
theorem vfsUnlink_cases {x x' : Dentry} (h : vfsUnlink x = some x') : x.inode.isSome ∧
    ((x.dCount = 2 ∧ x' = ⟨x.name, 1, none, x.hashed⟩) ∨
      (x.dCount ≠ 2 ∧ x' = ⟨x.name, x.dCount - 1, x.inode, false⟩)) := by
  unfold vfsUnlink exampleUnlink at h
  cases hi : x.inode with
  | none => rw [hi] at h; cases h
  | some i =>
    rw [hi] at h
    simp only [Option.map_some, ↓reduceIte, Option.some.injEq] at h
    refine ⟨rfl, ?_⟩
    subst h
    unfold Dentry.dDelete Dentry.dput
    by_cases hc : x.dCount = 2
    · exact .inl ⟨hc, by simp [hc]⟩
    · exact .inr ⟨hc, by simp only; rw [if_neg (by omega), hi]⟩

/-- How many bytes a read copies. -/
def extent (i : Inode) (ppos count : UInt64) : Nat :=
  min (ppos.toNat + count.toNat) (cstr i.data).length - ppos.toNat

section Reads

variable {i : Inode} {ppos count : UInt64}

theorem extent_le (h : 0 < extent i ppos count) : ppos.toNat + extent i ppos count ≤ (cstr i.data).length := by
  unfold extent at h ⊢
  omega

theorem length_take_extent (i : Inode) (ppos count : UInt64) :
    (((cstr i.data).drop ppos.toNat).take (extent i ppos count)).length = extent i ppos count := by
  rw [List.length_take, List.length_drop]
  unfold extent
  omega

/-- What is copied is a part of the string. -/
theorem take_extent : (i.data.drop ppos.toNat).take (extent i ppos count) =
    ((cstr i.data).drop ppos.toNat).take (extent i ppos count) := by
  rcases Nat.eq_zero_or_pos (extent i ppos count) with hzero | hpos
  · rw [hzero, List.take_zero, List.take_zero]
  · rw [List.take_drop, List.take_drop, take_of_le_cstr (extent_le hpos)]

/-- A read copies from the position on, as much as is asked for and is there, unless the sum of the two wraps. -/
theorem exampleRead_extent (hdata : i.data.length = dataSize)
    (hsum : ppos.toNat < (cstr i.data).length → ppos.toNat + count.toNat < 2 ^ 64) (room : Nat) :
    exampleRead i ppos count room =
      if room < extent i ppos count then ⟨-eFault, ppos, (i.data.drop ppos.toNat).take room⟩
      else ⟨extent i ppos count, ppos + UInt64.ofNat (extent i ppos count),
        (i.data.drop ppos.toNat).take (extent i ppos count)⟩ := by
  have hle := length_cstr_le i.data
  rw [hdata, dataSize] at hle
  have hlen : (UInt64.ofNat (cstr i.data).length).toNat = (cstr i.data).length := by
    rw [UInt64.toNat_ofNat', Nat.mod_eq_of_lt (by omega)]
  unfold exampleRead
  by_cases hend : ppos ≥ UInt64.ofNat (cstr i.data).length
  · have hzero : extent i ppos count = 0 := by
      have := UInt64.le_iff_toNat_le.mp hend
      rw [hlen] at this
      unfold extent
      omega
    rw [if_pos hend, hzero, if_neg (Nat.not_lt_zero room)]
    simp
  · have hlt := UInt64.not_le.mp hend
    have hclamp := toNat_clamp (UInt64.le_of_lt hlt) (hsum (hlen ▸ UInt64.lt_iff_toNat_lt.mp hlt))
    rw [hlen] at hclamp
    rw [if_neg hend]
    generalize (if ppos + count > UInt64.ofNat (cstr i.data).length then UInt64.ofNat (cstr i.data).length - ppos
      else count) = c at hclamp ⊢
    have hclamp : c.toNat = extent i ppos count := hclamp
    simp only [← hclamp, UInt64.ofNat_toNat]
    split
    · rename_i hroom
      rw [Nat.min_eq_right (Nat.le_of_lt hroom)]
    · rename_i hroom
      rw [Nat.min_eq_left (Nat.le_of_not_lt hroom)]

end Reads

theorem Write.fitting_lt (w : Write) : w.fitting < dataSize := by
  unfold Write.fitting dataSize
  split
  · decide
  · omega

/-- The bytes a write stores. -/
def Write.stored (w : Write) : List UInt8 := copiedIn w.buf w.fitting w.room w.zero

theorem Write.length_stored_lt (w : Write) : w.stored.length < dataSize :=
  Nat.lt_of_le_of_lt (length_copiedIn_le ..) w.fitting_lt

theorem Write.stored_eq {w : Write} (h : w.fitting ≤ w.room) : w.stored = slice w.buf 0 w.fitting := copiedIn_ok h

theorem Write.length_stored {w : Write} (h : w.fitting ≤ w.room) : w.stored.length = w.fitting := by
  rw [w.stored_eq h, length_slice]

/-- A write fails, or replaces the file. -/
theorem exampleWrite_fault {w : Write} (h : w.room < w.fitting) (i : Inode) :
    exampleWrite i w = (⟨overlay i.data w.stored, i.iSize⟩, -eFault) := if_pos h

theorem exampleWrite_ok {w : Write} (h : w.fitting ≤ w.room) (i : Inode) :
    exampleWrite i w = (⟨(overlay i.data w.stored).set w.fitting 0, w.fitting⟩, (w.fitting : Int)) :=
  if_neg (Nat.not_lt.mpr h)

theorem room_of_ret {i : Inode} {w : Write} (h : 0 ≤ (exampleWrite i w).2) : w.fitting ≤ w.room := by
  refine Nat.le_of_not_lt fun hlt => ?_
  rw [exampleWrite_fault hlt] at h
  have : ¬(0 : Int) ≤ -eFault := by decide
  exact this h

/-- After a write that succeeds, the string is that of the bytes it was given. -/
theorem cstr_exampleWrite {i : Inode} (hi : i.data.length = dataSize) {w : Write} (h : w.fitting ≤ w.room) :
    cstr (exampleWrite i w).1.data = cstr w.stored := by
  rw [exampleWrite_ok h, ← w.length_stored h]
  exact cstr_overlay_set (by rw [hi]; exact w.length_stored_lt)

/-- A write, failed or not, stays inside the storage. -/
theorem length_exampleWrite {i : Inode} (h : i.data.length = dataSize) (w : Write) :
    (exampleWrite i w).1.data.length = dataSize := by
  have hfit : w.stored.length ≤ i.data.length := by
    rw [h]
    exact Nat.le_of_lt w.length_stored_lt
  rcases Nat.lt_or_ge w.room w.fitting with hfail | hok
  · rw [exampleWrite_fault hfail]
    exact (length_overlay hfit).trans h
  · rw [exampleWrite_ok hok]
    exact List.length_set.trans ((length_overlay hfit).trans h)

theorem Dentry.retained_cases (x : Dentry) : (x.dCount = 0 ∧ x.hashed = false ∧ x.retained = none) ∨
    x.retained = some x := by
  unfold Dentry.retained
  by_cases h : x.dCount = 0 ∧ x.hashed = false
  · exact .inl ⟨h.1, h.2, if_pos h⟩
  · exact .inr (if_neg h)

end KernelModules.Vfs
