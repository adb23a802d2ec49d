import KernelModules.Vfs.Dcache

/-!
# Names, contents and the directory listing

A name resolves through the dentry cache, or else through `example_lookup` (`Resolves`); at most one dentry is cached
under a name (`Unique`).

- contents: what is written to a file can be read back under its name after any operations but writes and unlinks of it,
  iff the file system owns a reference on its dentry (`example_vfs_persistence`). Only the file that `example_lookup`
  makes can lack it, and it can lose its contents (`example_vfs_forgets`);
- listing: `example_readdir` emits the same three names whatever exists, so the listing agrees with resolution iff
  nothing else is cached with an inode and the test file is not cached without one (`example_vfs_listing`,
  `example_vfs_unlisted`).
-/

namespace KernelModules.Vfs

open Lib

/-! ## The cache holds a name once -/

def Unique (s : Nat → Slot) : Prop := ∀ d d' name x x', (s d).Cached name x → (s d').Cached name x' → d = d'

/-- Dropping a reference changes nothing else in a dentry that stays. -/
theorem retained_eq {x x' : Dentry} (h : x.dput.retained = some x') : x' = x.dput := by
  rcases x.dput.retained_cases with ⟨-, -, hgone⟩ | hstay
  · rw [hgone] at h
    cases h
  · rw [hstay] at h
    exact (Option.some.inj h).symm

/-- Only a lookup puts a name into the cache. -/
theorem cached_before {c c' : Slot} {op : Op} {name : String} {x' : Dentry} (hs : SlotStep c op c')
    (h : c'.Cached name x') : (∃ x, c.Cached name x) ∨ ∃ kmalloc, op = .lookup name kmalloc := by
  obtain ⟨hx', hhash, hname⟩ := h
  cases hs with
  | lookup n kmalloc =>
    rw [exampleLookup_dAlloc] at hx'
    cases hx'
    exact .inr ⟨kmalloc, by rw [← hname]⟩
  | @create x x₁ held files kmalloc ret hhash₁ hneg hheld hx =>
    cases hx'
    refine .inl ⟨x, rfl, hhash₁, ?_⟩
    rcases exampleCreate_cases hx with ⟨rfl, -⟩ | ⟨i, -, rfl, -⟩
    · exact hname
    · exact hname
  | @unlink x x₁ held files hhash₁ hheld hx =>
    cases hx'
    refine .inl ⟨x, rfl, hhash₁, ?_⟩
    rcases vfsUnlink_cases hx with ⟨-, ⟨-, rfl⟩ | ⟨-, rfl⟩⟩
    · exact hname
    · exact hname
  | @get x held files hfound => cases hx'; exact .inl ⟨x, rfl, hhash, hname⟩
  | @put x held files hfiles =>
    obtain rfl := retained_eq hx'
    exact .inl ⟨x, rfl, hhash, hname⟩
  | @opened x held files hpos hheld => cases hx'; exact .inl ⟨x, rfl, hhash, hname⟩
  | @release x held files =>
    obtain rfl := retained_eq hx'
    exact .inl ⟨x, rfl, hhash, hname⟩
  | read => cases hx'; exact .inl ⟨_, rfl, hhash, hname⟩
  | @write x i held files w hi => cases hx'; exact .inl ⟨x, rfl, hhash, hname⟩
  | reclaim => cases hx'

theorem step_unique {s s' : Nat → Slot} {e : Nat × Op} (h : Unique s) (hs : vfs.step s e s') : Unique s' := by
  obtain ⟨j, op⟩ := e
  obtain ⟨c, hc, hmiss, rfl⟩ := hs
  -- a name cached after the step at `j` and elsewhere was cached twice before
  have key : ∀ d name x x', d ≠ j → (s d).Cached name x → c.Cached name x' → False := by
    intro d name x x' hd hx hx'
    rcases cached_before hc hx' with ⟨y, hy⟩ | ⟨kmalloc, rfl⟩
    · exact hd (h d j name x y hx hy)
    · exact hmiss d x hx
  intro d d' name x x' hx hx'
  by_cases hd : d = j
  · by_cases hd' : d' = j
    · rw [hd, hd']
    · rw [hd, Function.update_self] at hx
      rw [Function.update_of_ne hd'] at hx'
      exact (key d' name x' x hd' hx' hx).elim
  · rw [Function.update_of_ne hd] at hx
    by_cases hd' : d' = j
    · rw [hd', Function.update_self] at hx'
      exact (key d name x x' hd hx hx').elim
    · rw [Function.update_of_ne hd'] at hx'
      exact h d d' name x x' hx hx'

theorem init_unique {s : Nat → Slot} (h : vfs.init s) : Unique s := by
  rintro d d' name x x' ⟨hx, -⟩ -
  rw [h d] at hx
  cases hx

theorem run_unique {tr : List (Nat × Op)} {s : Nat → Slot} (h : vfs.Run tr s) : Unique s :=
  h.invariant (fun _ => init_unique) fun _ _ _ hu hs => step_unique hu hs

/-! ## Resolution and reading -/

/-- What a name resolves to: the inode of the cached dentry, or that of the dentry a lookup makes. -/
inductive Resolves (s : Nat → Slot) (name : String) : Option Inode → Prop
  | cached {d : Nat} {x : Dentry} : (s d).Cached name x → Resolves s name x.inode
  | missed (kmalloc : Bool) : (∀ d x, ¬(s d).Cached name x) →
      Resolves s name (exampleLookup (dAlloc name) kmalloc).inode

/-- However the name resolves, a read from offset 0 returns the first bytes of `bs`. -/
def ReadsBack (s : Nat → Slot) (name : String) (bs : List UInt8) : Prop :=
  ∀ r, Resolves s name r → ∃ i, r = some i ∧ ∀ (count : UInt64) (room : Nat), count.toNat ≤ room →
    (exampleRead i 0 count room).bytes = bs.take count.toNat ∧
      (exampleRead i 0 count room).ret = (bs.take count.toNat).length

/-- A read without a fault returns what the string holds from the position on. -/
theorem exampleRead_ok {i : Inode} (hdata : i.data.length = dataSize) {ppos count : UInt64} {room : Nat}
    (hsum : ppos.toNat + count.toNat < 2 ^ 64) (hroom : count.toNat ≤ room) :
    (exampleRead i ppos count room).bytes = ((cstr i.data).drop ppos.toNat).take count.toNat ∧
      (exampleRead i ppos count room).ret = (((cstr i.data).drop ppos.toNat).take count.toNat).length := by
  have hextent : ((cstr i.data).drop ppos.toNat).take (extent i ppos count) =
      ((cstr i.data).drop ppos.toNat).take count.toNat := by
    have hmin : extent i ppos count = min count.toNat ((cstr i.data).drop ppos.toNat).length := by
      rw [extent, List.length_drop]
      omega
    rw [hmin, ← List.take_eq_take_min]
  have hle : ¬room < extent i ppos count := by
    unfold extent
    omega
  rw [exampleRead_extent hdata (fun _ => hsum) room, if_neg hle]
  refine ⟨take_extent.trans hextent, ?_⟩
  rw [← hextent, length_take_extent]

/-! ## Persistence -/

/-- No write to and no unlink of the name. -/
def Quiet (name : String) (s : Nat → Slot) (e : Nat × Op) : Prop :=
  match e.2 with
  | .unlink => ∀ x, ¬(s e.1).Cached name x
  | .write _ _ => ∀ x, ¬(s e.1).Cached name x
  | _ => True

/-- The dentry cached under a name, with its contents, has `k` references more than the VFS holds. -/
def Kept (name : String) (data : List UInt8) (k : Int) (c : Slot) : Prop :=
  ∃ x i, c.Cached name x ∧ x.inode = some i ∧ i.data = data ∧ x.dCount = c.held + k

section Kept

variable {name : String} {data : List UInt8} {k : Int}

theorem Kept.dropped {x : Dentry} {held files files' : Nat} (h : Kept name data k ⟨some x, held + 1, files⟩) :
    Kept name data k ⟨x.dput.retained, held, files'⟩ := by
  obtain ⟨_, i, ⟨⟨⟩, hhash, hname⟩, hi, hdata, hcount⟩ := h
  rcases x.dput.retained_cases with ⟨-, hunhash, -⟩ | hstay
  · rw [Dentry.dput, hhash] at hunhash
    cases hunhash
  · rw [hstay]
    refine ⟨_, i, ⟨rfl, hhash, hname⟩, hi, hdata, ?_⟩
    simp only [Dentry.dput] at hcount ⊢
    omega

/-- A file whose dentry has a reference of its own keeps its contents under all operations but writes and unlinks. -/
theorem step_kept {c c' : Slot} {op : Op} (h : Kept name data k c) (hk : 0 < k) (hs : SlotStep c op c')
    (hunlink : op ≠ .unlink) (hwrite : ∀ w ret, op ≠ .write w ret) : Kept name data k c' := by
  cases hs with
  | lookup => obtain ⟨_, _, ⟨⟨⟩, -⟩, -⟩ := h
  | create hhash hneg =>
    obtain ⟨_, i, ⟨⟨⟩, -⟩, hi, -⟩ := h
    rw [hneg] at hi
    cases hi
  | unlink => exact absurd rfl hunlink
  | get =>
    obtain ⟨_, i, ⟨⟨⟩, hhash, hname⟩, hi, hdata, hcount⟩ := h
    refine ⟨_, i, ⟨rfl, hhash, hname⟩, hi, hdata, ?_⟩
    simp only [Dentry.dget] at hcount ⊢
    omega
  | put => exact h.dropped
  | opened =>
    obtain ⟨_, i, ⟨⟨⟩, hhash, hname⟩, hi, hdata, hcount⟩ := h
    refine ⟨_, i, ⟨rfl, hhash, hname⟩, hi, hdata, ?_⟩
    simp only [Dentry.dget] at hcount ⊢
    omega
  | release => exact h.dropped
  | read => exact h
  | write w => exact absurd rfl (hwrite w _)
  | reclaim hzero =>
    obtain ⟨_, i, ⟨⟨⟩, -⟩, -, -, hcount⟩ := h
    simp only at hcount
    omega

theorem path_kept {d : Nat} {s s' : Nat → Slot} {tr : List (Nat × Op)} (hk : 0 < k)
    (hp : (vfs.restrict (Quiet name)).Path s tr s') (h : Kept name data k (s d)) : Kept name data k (s' d) := by
  refine hp.invariant (I := fun s => Kept name data k (s d)) ?_ h
  rintro s ⟨j, op⟩ s' hkept ⟨⟨c, hc, -, rfl⟩, hquiet⟩
  by_cases hj : j = d
  · subst hj
    have ⟨x, _, hcached, _⟩ := hkept
    rw [Function.update_self]
    refine step_kept hkept hk hc ?_ ?_
    · rintro rfl
      exact hquiet x hcached
    · rintro w ret rfl
      exact hquiet x hcached
  · rw [Function.update_of_ne (Ne.symm hj)]
    exact hkept

end Kept

theorem write_cases {c c' : Slot} {w : Write} {ret : Int} (hs : SlotStep c (.write w ret) c') :
    ∃ x i, c.dentry = some x ∧ x.inode = some i ∧ ret = (exampleWrite i w).2 ∧
      c' = { c with dentry := some { x with inode := some (exampleWrite i w).1 } } := by
  cases hs with
  | write w hi => exact ⟨_, _, rfl, hi, rfl, rfl⟩

/-- A write without a fault leaves the bytes written, up to a NUL, as the contents. -/
theorem cstr_exampleWrite_count {i : Inode} {w : Write} (hdata : i.data.length = dataSize) (hcount : w.count.toNat ≤ 63)
    (hret : 0 ≤ (exampleWrite i w).2) :
    cstr (exampleWrite i w).1.data = cstr (slice w.buf 0 w.count.toNat) := by
  have hfit : w.fitting = w.count.toNat := if_neg (by rw [dataSize]; omega)
  have hok := room_of_ret hret
  rw [cstr_exampleWrite hdata hok, w.stored_eq hok, hfit]

/-- The VFS can drop all references it holds on a cached dentry. -/
theorem drain {x : Dentry} {held files : Nat} (hhash : x.hashed = true) (hfiles : files ≤ held)
    (hcount : x.dCount = held) : ∃ ops, slot.Path ⟨some x, held, files⟩ ops ⟨some { x with dCount := 0 }, 0, 0⟩ ∧
      ∀ op ∈ ops, op = .put ∨ op = .release := by
  induction held generalizing x files with
  | zero =>
    obtain rfl := Nat.le_zero.mp hfiles
    have hx : ({ x with dCount := 0 } : Dentry) = x := by rw [show (0 : Int) = x.dCount from hcount.symm]
    rw [hx]
    exact ⟨[], .nil _, fun op hop => by cases hop⟩
  | succ held ih =>
    have hstay : x.dput.retained = some x.dput := if_neg fun h => by
      rw [Dentry.dput, hhash] at h
      cases h.2
    have hcount' : x.dput.dCount = held := by
      rw [Dentry.dput]
      simp only
      omega
    cases files with
    | zero =>
      obtain ⟨ops, hp, hops⟩ := @ih x.dput 0 hhash (Nat.zero_le _) hcount'
      have hput : SlotStep ⟨some x, held + 1, 0⟩ .put ⟨some x.dput, held, 0⟩ := by
        rw [← hstay]
        exact .put (Nat.zero_le _)
      exact ⟨.put :: ops, .cons hput hp, List.forall_mem_cons.mpr ⟨.inl rfl, hops⟩⟩
    | succ files =>
      obtain ⟨ops, hp, hops⟩ := @ih x.dput files hhash (Nat.le_of_succ_le_succ hfiles) hcount'
      have hrelease : SlotStep ⟨some x, held + 1, files + 1⟩ .release ⟨some x.dput, held, files⟩ := by
        rw [← hstay]
        exact .release
      exact ⟨.release :: ops, .cons hrelease hp, List.forall_mem_cons.mpr ⟨.inr rfl, hops⟩⟩

/-- A cached dentry on which only the VFS has references can be dropped and freed. -/
theorem unpinned_freed {c : Slot} {name : String} {x : Dentry} (hx : c.Cached name x) (hfiles : c.files ≤ c.held)
    (hcount : x.dCount = c.held) : ∃ ops, slot.Path c ops ⟨none, 0, 0⟩ ∧
      ∀ op ∈ ops, op = .put ∨ op = .release ∨ op = .reclaim := by
  obtain ⟨ops, hp, hops⟩ := drain hx.2.1 hfiles hcount
  have hslot : c = ⟨some x, c.held, c.files⟩ := by rw [← hx.1]
  refine ⟨ops ++ [.reclaim], ?_, fun op hop => ?_⟩
  · rw [hslot]
    exact hp.append (.single (.reclaim rfl))
  · rcases List.mem_append.mp hop with hop | hop
    · exact (hops op hop).imp id .inl
    · exact .inr (.inr (List.mem_singleton.mp hop))

/-- Dropping references and freeing looks nothing up and writes nothing. -/
theorem freeing_quiet {op : Op} (h : op = .put ∨ op = .release ∨ op = .reclaim) (s : Nat → Slot) (d : Nat)
    (name : String) : Misses s op ∧ Quiet name s (d, op) := by
  rcases h with rfl | rfl | rfl
  · exact ⟨trivial, trivial⟩
  · exact ⟨trivial, trivial⟩
  · exact ⟨trivial, trivial⟩

/-- When the only dentry of a name is freed, the name is not cached any more. -/
theorem Unique.not_cached {s : Nat → Slot} {d : Nat} {name : String} {x : Dentry} (hu : Unique s)
    (hx : (s d).Cached name x) (d' : Nat) (y : Dentry) :
    ¬(Function.update s d ⟨none, 0, 0⟩ d').Cached name y := by
  intro hy
  by_cases hd : d' = d
  · rw [hd, Function.update_self] at hy
    cases hy.1
  · rw [Function.update_of_ne hd] at hy
    exact hd (hu d' d name y x hy hx)

/-- A cached dentry on which the file system owns no reference can be lost with its contents. -/
theorem unpinned_lost {s : Nat → Slot} {d : Nat} {name : String} {x : Dentry} {bs : List UInt8} (hu : Unique s)
    (hx : (s d).Cached name x) (hfiles : (s d).files ≤ (s d).held) (hcount : x.dCount = (s d).held) :
    ∃ mid s', (vfs.restrict (Quiet name)).Path s mid s' ∧ ¬ReadsBack s' name bs := by
  obtain ⟨ops, hp, hops⟩ := unpinned_freed hx hfiles hcount
  have hpath : vfs.Path (Function.update s d (s d)) (ops.map fun op => (d, op)) (Function.update s d ⟨none, 0, 0⟩) :=
    hp.lift (fun op hop s => (freeing_quiet (hops op hop) s d name).1) s
  rw [Function.update_eq_self] at hpath
  refine ⟨_, _, hpath.restrict fun e he s => ?_, fun hback => ?_⟩
  · obtain ⟨op, hop, rfl⟩ := List.mem_map.mp he
    exact (freeing_quiet (hops op hop) s d name).2
  · -- a lookup of the name can fail now
    obtain ⟨i, hi, -⟩ := hback _ (.missed false (hu.not_cached hx))
    rw [exampleLookup_dAlloc] at hi
    simp only [exampleAllocInode, Bool.false_eq_true, ↓reduceIte, ite_self] at hi
    cases hi

/-- A cached file with known contents is what its name resolves to. -/
theorem Kept.readsBack {s : Nat → Slot} {d : Nat} {name : String} {data : List UInt8} {k : Int} (hu : Unique s)
    (h : Kept name data k (s d)) (hlength : data.length = dataSize) : ReadsBack s name (cstr data) := by
  obtain ⟨x, i, hx, hi, rfl, -⟩ := h
  intro r hr
  cases hr with
  | @cached d' x' hx' =>
    obtain rfl := hu d' d name x' x hx' hx
    obtain rfl : x' = x := Option.some.inj (hx'.1.symm.trans hx.1)
    refine ⟨i, hi, fun count room hroom => ?_⟩
    have hsum : (0 : UInt64).toNat + count.toNat < 2 ^ 64 := by
      rw [UInt64.toNat_zero, Nat.zero_add]
      exact count.toNat_lt
    exact exampleRead_ok hlength hsum hroom
  | missed kmalloc hmiss => exact absurd hx (hmiss d x)

/-- **Persistence.** What a successful write of at most 63 bytes without a NUL stores under a name is read back after
any operations but writes to and unlinks of the name, iff `example_create` succeeded on the dentry once more than
`example_unlink` was called on it; and this is so for every name but one. -/
theorem example_vfs_persistence (pre : List (Nat × Op)) (s s' : Nat → Slot) (d : Nat) (name : String) (x : Dentry)
    (w : Write) (ret : Int) (h : vfs.Run pre s) (hw : vfs.step s (d, .write w ret) s') (hx : (s d).Cached name x)
    (hret : 0 ≤ ret) (hcount : w.count.toNat ≤ 63) (hfree : 0 ∉ slice w.buf 0 w.count.toNat) :
    ((∀ mid s₂, (vfs.restrict (Quiet name)).Path s' mid s₂ → ReadsBack s₂ name (slice w.buf 0 w.count.toNat)) ↔
      0 < owned (System.labelsOf d pre)) ∧
    (name ≠ testfile → 0 < owned (System.labelsOf d pre)) := by
  have hinv := run_slotInv h d
  have hunique := step_unique (run_unique h) hw
  obtain ⟨c, hc, -, rfl⟩ := hw
  obtain ⟨y, i, hy, hi, rfl, rfl⟩ := write_cases hc
  obtain rfl : y = x := Option.some.inj (hy.symm.trans hx.1)
  have hlength := hinv.data y i hy hi
  have hstored : cstr (exampleWrite i w).1.data = slice w.buf 0 w.count.toNat := by
    rw [cstr_exampleWrite_count hlength hcount hret, cstr_of_notMem hfree]
  -- a positive cached dentry was born with one reference of the file system or, under one name, without
  obtain ⟨b, hb, howned⟩ := hinv.born y hy
  rw [if_pos ⟨hx.2.1, by rw [hi]; rfl⟩] at howned
  refine ⟨⟨fun hback => ?_, fun hpos mid s₂ hp => ?_⟩, fun hname => ?_⟩
  · by_contra hnot
    have hzero : owned (System.labelsOf d pre) = 0 := by omega
    have hcnt := hinv.count y hy
    rw [hzero, Int.add_zero] at hcnt
    obtain ⟨mid, s₂, hp, hlost⟩ := @unpinned_lost _ d name _ (slice w.buf 0 w.count.toNat) hunique
      (by rw [Function.update_self]; exact ⟨rfl, hx.2⟩) (by rw [Function.update_self]; exact hinv.files)
      (by rw [Function.update_self]; exact hcnt)
    exact hlost (hback mid s₂ hp)
  · have hunique₂ : Unique s₂ := hp.of_restrict.invariant (fun _ _ _ hu hs => step_unique hu hs) hunique
    have hkept := path_kept (d := d) hpos hp (by
      rw [Function.update_self]
      exact ⟨_, _, ⟨rfl, hx.2⟩, rfl, rfl, hinv.count y hy⟩)
    rw [← hstored]
    exact hkept.readsBack hunique₂ (length_exampleWrite hlength w)
  · rcases hb with rfl | ⟨-, htest⟩
    · omega
    · exact absurd (hx.2.2.symm.trans htest) hname

/-- A write of one byte. -/
def oneByte : Write := ⟨fun _ => 0x41, 1, 1, false⟩

theorem example_vfs_persistence_created : ∃ s s',
    vfs.Run [(0, .lookup "a" true), (0, .create true 0), (0, .opened)] s ∧ vfs.step s (0, .write oneByte 1) s' ∧
    ∀ mid s₂, (vfs.restrict (Quiet "a")).Path s' mid s₂ → ReadsBack s₂ "a" [0x41] := by
  have hpath : slot.Path ⟨some ⟨"a", 1, none, true⟩, 1, 0⟩ [.create true 0, .opened]
      ⟨some ⟨"a", 3, some newFile, true⟩, 2, 1⟩ :=
    .cons (.create rfl rfl Nat.one_pos rfl) (.single (.opened rfl Nat.one_pos rfl))
  have hrun := run_single (.lookup "a" true) hpath (by simp [Misses])
  have hwrite : vfs.step (Function.update noDentries 0 ⟨some ⟨"a", 3, some newFile, true⟩, 2, 1⟩)
      (0, .write oneByte 1) _ := ⟨_, .write oneByte rfl Nat.one_pos, trivial, rfl⟩
  have hpersist := example_vfs_persistence _ _ _ 0 "a" _ oneByte 1 hrun hwrite ⟨rfl, rfl, rfl⟩ (by decide) (by decide)
    (by decide)
  exact ⟨_, _, hrun, hwrite, hpersist.1.mpr (hpersist.2 (by decide))⟩

/-- The test file is written and closed; the kernel frees its dentry; the next lookup finds an empty file. -/
theorem example_vfs_forgets : ∃ s s' s₂ i, vfs.Run [(0, .lookup testfile true), (0, .opened)] s ∧
    vfs.step s (0, .write oneByte 1) s' ∧
    (vfs.restrict (Quiet testfile)).Path s' [(0, .release), (0, .put), (0, .reclaim)] s₂ ∧
    Resolves s₂ testfile (some i) ∧ (exampleRead i 0 64 64).bytes = [] ∧
    ¬ReadsBack s₂ testfile (slice oneByte.buf 0 oneByte.count.toNat) := by
  have hpath : slot.Path ⟨some (exampleLookup (dAlloc testfile) true), 1, 0⟩ [.opened]
      ⟨some ⟨testfile, 2, some newFile, true⟩, 2, 1⟩ := .single (.opened rfl Nat.one_pos rfl)
  have hrun := run_single (.lookup testfile true) hpath (by simp [Misses])
  have hwrite : vfs.step (Function.update noDentries 0 ⟨some ⟨testfile, 2, some newFile, true⟩, 2, 1⟩)
      (0, .write oneByte 1) (Function.update noDentries 0
        ⟨some ⟨testfile, 2, some (exampleWrite newFile oneByte).1, true⟩, 2, 1⟩) :=
    ⟨_, .write oneByte rfl Nat.one_pos, trivial, (Function.update_idem ..).symm⟩
  have hlose : slot.Path ⟨some ⟨testfile, 2, some (exampleWrite newFile oneByte).1, true⟩, 2, 1⟩
      [.release, .put, .reclaim] ⟨none, 0, 0⟩ :=
    .cons .release (.cons (.put (Nat.zero_le _)) (.single (.reclaim rfl)))
  have hmiss : ∀ op ∈ [Op.release, Op.put, Op.reclaim], ∀ s, Misses s op := by simp [Misses]
  have hquiet : ∀ e ∈ [Op.release, Op.put, Op.reclaim].map fun op => ((0, op) : Nat × Op), ∀ s,
      Quiet testfile s e := by simp [Quiet]
  have hfound : Resolves (Function.update noDentries 0 ⟨none, 0, 0⟩) testfile (some newFile) := by
    refine .missed true fun d x hx => ?_
    rw [show Function.update noDentries 0 ⟨none, 0, 0⟩ = noDentries from Function.update_eq_self 0 noDentries] at hx
    cases hx.1
  refine ⟨_, _, _, newFile, hrun, hwrite, (hlose.lift hmiss noDentries).restrict hquiet, hfound, by decide, ?_⟩
  intro hback
  obtain ⟨i, hi, hread⟩ := hback _ hfound
  cases hi
  exact absurd (hread 64 64 (by decide)).1 (by decide)

/-! ## The directory listing -/

/-- The names `example_readdir` knows, in the order of its positions. -/
def dirNames : List String := [".", "..", testfile]

/-- One call emits the names from its position on, as many as fit. -/
theorem exampleReaddir_spec {pos : Nat} (hpos : pos ≤ 3) (room : Nat) :
    pos ≤ (exampleReaddir ⟨pos, room, []⟩).pos ∧ (exampleReaddir ⟨pos, room, []⟩).pos ≤ 3 ∧
      dirNames.take pos ++ (exampleReaddir ⟨pos, room, []⟩).emitted =
        dirNames.take (exampleReaddir ⟨pos, room, []⟩).pos := by
  match pos, room with
  | 0, 0 => decide
  | 0, 1 => decide
  | 0, 2 => decide
  | 0, room + 3 => simp [exampleReaddir, emitAt, dirNames, bind, Except.bind]
  | 1, 0 => decide
  | 1, 1 => decide
  | 1, room + 2 => simp [exampleReaddir, emitAt, dirNames, bind, Except.bind]
  | 2, 0 => decide
  | 2, room + 1 => simp [exampleReaddir, emitAt, dirNames, bind, Except.bind]
  | 3, room => simp [exampleReaddir, emitAt, dirNames, bind, Except.bind]
  | pos + 4, _ => omega

/-- Any calls emit the names up to the position they reach. -/
theorem getdents_spec {pos : Nat} (hpos : pos ≤ 3) (rooms : List Nat) :
    (getdents pos (dirNames.take pos) rooms).1 ≤ 3 ∧
      (getdents pos (dirNames.take pos) rooms).2 = dirNames.take (getdents pos (dirNames.take pos) rooms).1 := by
  induction rooms generalizing pos with
  | nil => exact ⟨hpos, rfl⟩
  | cons room rooms ih =>
    obtain ⟨-, hle, hnames⟩ := exampleReaddir_spec hpos room
    rw [getdents, hnames]
    exact ih hle

/-- A complete listing has the three names. -/
theorem getdents_complete {rooms : List Nat} {names : List String} (h : getdents 0 [] rooms = (3, names)) :
    names = dirNames := by
  have hspec := (getdents_spec (Nat.zero_le 3) rooms).2
  rw [List.take_zero, h] at hspec
  exact hspec

/-- Under a name that is not cached only the test file can be found. -/
theorem resolves_iff {s : Nat → Slot} {name : String} :
    (∃ i, Resolves s name (some i)) ↔
      (∃ d x, (s d).Cached name x ∧ x.inode.isSome = true) ∨ ((∀ d x, ¬(s d).Cached name x) ∧ name = testfile) := by
  constructor
  · rintro ⟨i, hr⟩
    generalize hi : some i = r at hr
    cases hr with
    | @cached d x hx => exact .inl ⟨d, x, hx, by rw [← hi]; rfl⟩
    | missed kmalloc hmiss =>
      refine .inr ⟨hmiss, ?_⟩
      by_contra hname
      rw [exampleLookup_dAlloc, if_neg hname] at hi
      cases hi
  · rintro (⟨d, x, hx, hsome⟩ | ⟨hmiss, rfl⟩)
    · obtain ⟨i, hi⟩ := Option.isSome_iff_exists.mp hsome
      exact ⟨i, by rw [← hi]; exact .cached hx⟩
    · exact ⟨_, .missed true hmiss⟩

/-- **The listing.** In every reachable state: a complete listing has the names that resolve to an inode iff every
cached dentry has an inode exactly if it is the test file. -/
theorem example_vfs_listing (tr : List (Nat × Op)) (s : Nat → Slot) (h : vfs.Run tr s) (rooms : List Nat)
    (names : List String) (hlist : getdents 0 [] rooms = (3, names)) :
    (∀ name, (name ∈ names ∧ name ≠ "." ∧ name ≠ "..") ↔ ∃ i, Resolves s name (some i)) ↔
      (∀ d name x, (s d).Cached name x → (x.inode.isSome = true ↔ name = testfile)) := by
  have hu := run_unique h
  have hmem : ∀ name, (name ∈ names ∧ name ≠ "." ∧ name ≠ "..") ↔ name = testfile := by
    intro name
    rw [getdents_complete hlist]
    constructor
    · rintro ⟨hname, hdot, hdotdot⟩
      simpa [dirNames, hdot, hdotdot] using hname
    · rintro rfl
      decide
  constructor
  · intro hagree d name x hx
    have hname := (hmem name).symm.trans ((hagree name).trans resolves_iff)
    constructor
    · intro hsome
      exact hname.mpr (.inl ⟨d, x, hx, hsome⟩)
    · intro htest
      rcases hname.mp htest with ⟨d', y, hy, hsome⟩ | ⟨hmiss, -⟩
      · obtain rfl := hu d' d name y x hy hx
        obtain rfl : y = x := Option.some.inj (hy.1.symm.trans hx.1)
        exact hsome
      · exact absurd hx (hmiss d x)
  · intro hcond name
    rw [hmem, resolves_iff]
    constructor
    · intro htest
      by_cases hcached : ∃ d x, (s d).Cached name x
      · obtain ⟨d, x, hx⟩ := hcached
        exact .inl ⟨d, x, hx, (hcond d name x hx).mpr htest⟩
      · exact .inr ⟨fun d x hx => hcached ⟨d, x, hx⟩, htest⟩
    · rintro (⟨d, x, hx, hsome⟩ | ⟨-, htest⟩)
      · exact (hcond d name x hx).mp hsome
      · exact htest

/-- A file is created and unlinked again: as before, only the test file resolves, and it is listed. -/
theorem example_vfs_listing_unlinked : ∃ s, vfs.Run createThenUnlink s ∧
    (∃ i, Resolves s testfile (some i)) ∧ ¬∃ i, Resolves s "a" (some i) := by
  have hcached : ∀ d name x, (Function.update noDentries 0 ⟨some ⟨"a", 1, none, true⟩, 1, 0⟩ d).Cached name x →
      (x.inode.isSome = true ↔ name = testfile) := by
    intro d name x hx
    by_cases hd : d = 0
    · -- the dentry of the unlinked file is negative
      subst hd
      obtain ⟨hsome, -, rfl⟩ := hx
      cases hsome
      decide
    · rw [Function.update_of_ne hd] at hx
      cases hx.1
  have hagree := (example_vfs_listing _ _ run_createThenUnlink [3] dirNames rfl).mpr hcached
  exact ⟨_, run_createThenUnlink, (hagree testfile).mp (by decide), fun h => absurd ((hagree "a").mpr h) (by decide)⟩

/-- A created file resolves but is not listed. -/
theorem example_vfs_unlisted : ∃ s names i, vfs.Run [(0, .lookup "a" true), (0, .create true 0)] s ∧
    getdents 0 [] [3] = (3, names) ∧ Resolves s "a" (some i) ∧ "a" ∉ names := by
  have hpath : slot.Path ⟨some ⟨"a", 1, none, true⟩, 1, 0⟩ [.create true 0] ⟨some ⟨"a", 2, some newFile, true⟩, 1, 0⟩ :=
    .single (.create rfl rfl Nat.one_pos rfl)
  have hrun := run_single (.lookup "a" true) hpath (by simp [Misses])
  refine ⟨_, dirNames, newFile, hrun, rfl, ?_, by decide⟩
  exact @Resolves.cached _ _ 0 ⟨"a", 2, some newFile, true⟩ ⟨rfl, rfl, rfl⟩

end KernelModules.Vfs
