import KernelModules.Lib.Runs
import KernelModules.Vfs.SimpleVfs

/-!
# The dentry cache of the example file system

Each dentry is a slot: the dentry while it exists, the references the VFS holds on it, and how many of these belong to
open files. The VFS looks names up, creates, unlinks, opens and closes files, takes and drops references, and frees
dentries without references, in any order (`vfs`).

- `owned`: the references that the file system itself has taken, by the operations called. The count of a dentry is
  always what the VFS holds plus that (`SlotInv`, `slot_inv`, `step_slotInv`);
- the file system owns the reference of `example_create` and no other iff it unlinks only what it created
  (`example_vfs_balance`); a file found by `example_lookup` and unlinked violates it (`example_vfs_unbalanced`).
-/

namespace KernelModules.Vfs

open Lib

/-! ## Slots -/

/-- A dentry with the references the VFS holds on it, those of open files among them. -/
structure Slot where
  dentry : Option Dentry
  held : Nat
  files : Nat

/-- An operation on one dentry. -/
inductive Op
  | lookup (name : String) (kmalloc : Bool)
  | create (kmalloc : Bool) (ret : Int)
  | unlink
  | get
  | put
  | opened
  | release
  | read (ppos count : UInt64) (room : Nat) (result : ReadResult)
  | write (w : Write) (ret : Int)
  | reclaim

inductive SlotStep : Slot → Op → Slot → Prop
  /-- A name that is not cached: a new dentry is looked up. -/
  | lookup (name : String) (kmalloc : Bool) :
      SlotStep ⟨none, 0, 0⟩ (.lookup name kmalloc) ⟨some (exampleLookup (dAlloc name) kmalloc), 1, 0⟩
  | create {x x' : Dentry} {held files : Nat} {kmalloc : Bool} {ret : Int} : x.hashed = true → x.inode = none →
      0 < held → exampleCreate x kmalloc = (x', ret) →
      SlotStep ⟨some x, held, files⟩ (.create kmalloc ret) ⟨some x', held, files⟩
  | unlink {x x' : Dentry} {held files : Nat} : x.hashed = true → 0 < held → vfsUnlink x = some x' →
      SlotStep ⟨some x, held, files⟩ .unlink ⟨some x', held, files⟩
  /-- The cache finds the dentry, or a reference is duplicated. -/
  | get {x : Dentry} {held files : Nat} : x.hashed = true ∨ 0 < held →
      SlotStep ⟨some x, held, files⟩ .get ⟨some x.dget, held + 1, files⟩
  | put {x : Dentry} {held files : Nat} : files ≤ held →
      SlotStep ⟨some x, held + 1, files⟩ .put ⟨x.dput.retained, held, files⟩
  /-- An open file holds a reference of its own. -/
  | opened {x : Dentry} {held files : Nat} : x.inode.isSome → 0 < held → exampleOpen = 0 →
      SlotStep ⟨some x, held, files⟩ .opened ⟨some x.dget, held + 1, files + 1⟩
  | release {x : Dentry} {held files : Nat} :
      SlotStep ⟨some x, held + 1, files + 1⟩ .release ⟨x.dput.retained, held, files⟩
  | read {x : Dentry} {i : Inode} {held files : Nat} (ppos count : UInt64) (room : Nat) : x.inode = some i → 0 < files →
      SlotStep ⟨some x, held, files⟩ (.read ppos count room (exampleRead i ppos count room)) ⟨some x, held, files⟩
  | write {x : Dentry} {i : Inode} {held files : Nat} (w : Write) : x.inode = some i → 0 < files →
      SlotStep ⟨some x, held, files⟩ (.write w (exampleWrite i w).2)
        ⟨some { x with inode := some (exampleWrite i w).1 }, held, files⟩
  /-- The kernel frees a dentry whose count is zero, with its inode. -/
  | reclaim {x : Dentry} {held files : Nat} : x.dCount = 0 →
      SlotStep ⟨some x, held, files⟩ .reclaim ⟨none, held, files⟩

def slot : System Slot Op where
  init c := c = ⟨none, 0, 0⟩
  step := SlotStep

/-- The dentry is in the cache under a name. -/
def Slot.Cached (c : Slot) (name : String) (x : Dentry) : Prop := c.dentry = some x ∧ x.hashed = true ∧ x.name = name

/-- `example_lookup` is called only for names that are not cached. -/
def Misses (s : Nat → Slot) : Op → Prop
  | .lookup name _ => ∀ d x, ¬(s d).Cached name x
  | _ => True

/-- The file system under the VFS: one slot per dentry. -/
def vfs : System (Nat → Slot) (Nat × Op) := slot.family fun s _ op => Misses s op

/-! ## The references of the file system -/

/-- How an operation changes the number of references that the file system has taken. -/
def Op.owned (n : Int) : Op → Int
  | .lookup _ _ => 0
  | .create _ ret => if ret = 0 then n + 1 else n
  | .unlink => n - 1
  | _ => n

/-- The references taken by `example_create` less those dropped by `example_unlink`, since the dentry was allocated. -/
def owned (ops : List Op) : Int := ops.foldl Op.owned 0

def Op.made (b : Bool) : Op → Bool
  | .lookup _ _ => false
  | .create _ ret => if ret = 0 then true else b
  | .unlink => false
  | _ => b

/-- The dentry was made by `example_create` and not yet unlinked. -/
def madeByCreate (ops : List Op) : Bool := ops.foldl Op.made false

@[simp] theorem owned_snoc (ops : List Op) (op : Op) : owned (ops ++ [op]) = op.owned (owned ops) := by simp [owned]

@[simp] theorem madeByCreate_snoc (ops : List Op) (op : Op) :
    madeByCreate (ops ++ [op]) = op.made (madeByCreate ops) := by simp [madeByCreate]

/-- What is true of one dentry after the operations on it. -/
structure SlotInv (ops : List Op) (c : Slot) : Prop where
  count : ∀ x, c.dentry = some x → x.dCount = c.held + owned ops
  files : c.files ≤ c.held
  data : ∀ x i, c.dentry = some x → x.inode = some i → i.data.length = dataSize
  positive : ∀ x, c.dentry = some x → madeByCreate ops = true → x.inode.isSome = true
  born : ∀ x, c.dentry = some x → ∃ b : Int, (b = 0 ∨ (b = -1 ∧ x.name = testfile)) ∧
    owned ops = b + if x.hashed = true ∧ x.inode.isSome = true then 1 else 0

theorem SlotInv.gone (ops : List Op) {held files : Nat} (h : files ≤ held) : SlotInv ops ⟨none, held, files⟩ where
  count := by rintro x ⟨⟩
  files := h
  data := by rintro x i ⟨⟩
  positive := by rintro x ⟨⟩
  born := by rintro x ⟨⟩

section SlotSteps

variable {ops : List Op} {op : Op} {x x' : Dentry} {held files held' files' : Nat}

/-- An operation that takes no reference for the file system and keeps name and inode: the count follows what the VFS
holds. -/
theorem SlotInv.same (h : SlotInv ops ⟨some x, held, files⟩) (hown : ∀ n, op.owned n = n) (hmade : ∀ b, op.made b = b)
    (hname : x'.name = x.name) (hhash : x'.hashed = x.hashed) (hsome : x'.inode.isSome = x.inode.isSome)
    (hdata : ∀ i, x'.inode = some i → i.data.length = dataSize) (hcount : x'.dCount - held' = x.dCount - held)
    (hfiles : files' ≤ held') : SlotInv (ops ++ [op]) ⟨some x', held', files'⟩ := by
  refine ⟨?_, hfiles, ?_, ?_, ?_⟩
  · rintro _ ⟨⟩
    have := h.count x rfl
    rw [owned_snoc, hown]
    simp only at this ⊢
    omega
  · rintro _ i ⟨⟩ hi
    exact hdata i hi
  · rintro _ ⟨⟩ hm
    rw [madeByCreate_snoc, hmade] at hm
    rw [hsome]
    exact h.positive x rfl hm
  · rintro _ ⟨⟩
    obtain ⟨b, hb, hown'⟩ := h.born x rfl
    exact ⟨b, by rw [hname]; exact hb, by rw [owned_snoc, hown, hhash, hsome]; exact hown'⟩

/-- A reference dropped: the dentry stays with one reference less, or is freed. -/
theorem SlotInv.dropped (h : SlotInv ops ⟨some x, held + 1, files⟩) (hown : ∀ n, op.owned n = n)
    (hmade : ∀ b, op.made b = b) (hfiles : files' ≤ held) : SlotInv (ops ++ [op]) ⟨x.dput.retained, held, files'⟩ := by
  rcases x.dput.retained_cases with ⟨-, -, hgone⟩ | hstay
  · rw [hgone]
    exact .gone _ hfiles
  · rw [hstay]
    refine h.same hown hmade rfl rfl rfl (fun i hi => h.data x i rfl hi) ?_ hfiles
    simp only [Dentry.dput]
    omega

/-- `example_lookup` on a new dentry. -/
theorem SlotInv.looked (ops : List Op) (name : String) (kmalloc : Bool) :
    SlotInv (ops ++ [.lookup name kmalloc]) ⟨some (exampleLookup (dAlloc name) kmalloc), 1, 0⟩ := by
  rw [exampleLookup_dAlloc]
  refine ⟨?_, Nat.zero_le _, ?_, ?_, ?_⟩
  · rintro _ ⟨⟩
    rw [owned_snoc]
    rfl
  · rintro _ i ⟨⟩ hi
    simp only at hi
    by_cases hname : name = testfile
    · rw [if_pos hname] at hi
      rw [exampleAllocInode_some hi]
      exact List.length_replicate
    · rw [if_neg hname] at hi
      cases hi
  · rintro _ ⟨⟩ hm
    rw [madeByCreate_snoc] at hm
    cases hm
  · rintro _ ⟨⟩
    rw [owned_snoc]
    simp only [Op.owned]
    by_cases hname : name = testfile
    · -- only this name can be born positive, without a reference of the file system
      cases kmalloc with
      | true => exact ⟨-1, .inr ⟨rfl, hname⟩, by simp [hname, exampleAllocInode]⟩
      | false => exact ⟨0, .inl rfl, by simp [exampleAllocInode]⟩
    · exact ⟨0, .inl rfl, by simp [hname]⟩

/-- A successful `example_create`. -/
theorem SlotInv.created (h : SlotInv ops ⟨some x, held, files⟩) (hhash : x.hashed = true) (hneg : x.inode = none)
    {i : Inode} {kmalloc : Bool} (hi : exampleAllocInode kmalloc = some i) :
    SlotInv (ops ++ [.create kmalloc 0]) ⟨some ⟨x.name, x.dCount + 1, some i, x.hashed⟩, held, files⟩ := by
  refine ⟨?_, h.files, ?_, ?_, ?_⟩
  · rintro _ ⟨⟩
    have := h.count x rfl
    simp only [owned_snoc, Op.owned, ↓reduceIte] at this ⊢
    omega
  · rintro _ j ⟨⟩ hj
    obtain rfl := Option.some.inj hj
    rw [exampleAllocInode_some hi]
    exact List.length_replicate
  · rintro _ ⟨⟩ -
    rfl
  · rintro _ ⟨⟩
    obtain ⟨b, hb, hown⟩ := h.born x rfl
    refine ⟨b, hb, ?_⟩
    simp only [owned_snoc, Op.owned, hown, hneg, hhash, ↓reduceIte]
    simp

/-- `vfs_unlink` takes back one reference of the file system, whether it has one or not. -/
theorem SlotInv.unlinked (h : SlotInv ops ⟨some x, held, files⟩) (hhash : x.hashed = true)
    (hx : vfsUnlink x = some x') :
    SlotInv (ops ++ [.unlink]) ⟨some x', held, files⟩ := by
  obtain ⟨hpos, hx'⟩ := vfsUnlink_cases hx
  have hcount : x'.dCount = x.dCount - 1 ∧ x'.name = x.name ∧ ¬(x'.hashed = true ∧ x'.inode.isSome = true) ∧
      ∀ i, x'.inode = some i → x.inode = some i := by
    rcases hx' with ⟨htwo, rfl⟩ | ⟨-, rfl⟩
    · exact ⟨by simp only; omega, rfl, by simp, by rintro i ⟨⟩⟩
    · exact ⟨rfl, rfl, by simp, fun i hi => hi⟩
  obtain ⟨hcount, hname, hneg, hinode⟩ := hcount
  refine ⟨?_, h.files, ?_, ?_, ?_⟩
  · rintro _ ⟨⟩
    have := h.count x rfl
    simp only [owned_snoc, Op.owned] at this ⊢
    omega
  · rintro _ i ⟨⟩ hi
    exact h.data x i rfl (hinode i hi)
  · rintro _ ⟨⟩ hm
    rw [madeByCreate_snoc] at hm
    cases hm
  · rintro _ ⟨⟩
    obtain ⟨b, hb, hown⟩ := h.born x rfl
    refine ⟨b, by rw [hname]; exact hb, ?_⟩
    rw [if_pos ⟨hhash, hpos⟩] at hown
    rw [owned_snoc, if_neg hneg, Op.owned, hown]
    omega

end SlotSteps

/-- **One operation** keeps the account of its dentry. -/
theorem step_slotInv {ops : List Op} {op : Op} {c c' : Slot} (h : SlotInv ops c) (hs : SlotStep c op c') :
    SlotInv (ops ++ [op]) c' := by
  cases hs with
  | lookup name kmalloc => exact .looked ops name kmalloc
  | @create x x' held files kmalloc ret hhash hneg hheld hx =>
    rcases exampleCreate_cases hx with ⟨rfl, rfl⟩ | ⟨i, hi, rfl, rfl⟩
    · refine h.same (fun n => ?_) (fun b => ?_) rfl rfl rfl (fun i hi => h.data _ i rfl hi) rfl h.files
      · simp +decide [Op.owned]
      · simp +decide [Op.made]
    · exact h.created hhash hneg hi
  | unlink hhash hheld hx => exact h.unlinked hhash hx
  | @get x held files hfound =>
    refine h.same (fun _ => rfl) (fun _ => rfl) rfl rfl rfl (fun i hi => h.data x i rfl hi) ?_
      (Nat.le_succ_of_le h.files)
    simp only [Dentry.dget]
    omega
  | put hfiles => exact h.dropped (fun _ => rfl) (fun _ => rfl) hfiles
  | @opened x held files hpos hheld =>
    refine h.same (fun _ => rfl) (fun _ => rfl) rfl rfl rfl (fun i hi => h.data x i rfl hi) ?_
      (Nat.succ_le_succ h.files)
    simp only [Dentry.dget]
    omega
  | release => exact h.dropped (fun _ => rfl) (fun _ => rfl) (Nat.le_of_succ_le_succ h.files)
  | read ppos count room hi =>
    exact h.same (fun _ => rfl) (fun _ => rfl) rfl rfl rfl (fun i hi => h.data _ i rfl hi) rfl h.files
  | @write x i held files w hi =>
    refine h.same (fun _ => rfl) (fun _ => rfl) rfl rfl (by simp [hi]) (fun j hj => ?_) rfl h.files
    obtain rfl := Option.some.inj hj
    exact length_exampleWrite (h.data x i rfl hi) w
  | reclaim => exact .gone _ h.files

theorem slot_inv {ops : List Op} {c : Slot} (h : slot.Run ops c) : SlotInv ops c := by
  refine System.Run.history (P := fun ops c => SlotInv ops c) ?_ ?_ h
  · rintro c rfl
    exact .gone [] (Nat.le_refl _)
  · intro ops c op c' _ hinv hs
    exact step_slotInv hinv hs

/-- **The account of every dentry** along a run of the file system. -/
theorem run_slotInv {tr : List (Nat × Op)} {s : Nat → Slot} (h : vfs.Run tr s) (d : Nat) :
    SlotInv (System.labelsOf d tr) (s d) := slot_inv (h.component d)

/-! ## Balance -/

/-- Every count is what the VFS holds, plus one exactly if the dentry was made by `example_create` and not yet
unlinked. -/
def Balanced (tr : List (Nat × Op)) (s : Nat → Slot) : Prop :=
  ∀ d x, (s d).dentry = some x →
    x.dCount = (s d).held + if madeByCreate (System.labelsOf d tr) = true then 1 else 0

/-- `example_unlink` drops only references that `example_create` took. -/
def UnlinksMade (tr : List (Nat × Op)) : Prop :=
  ∀ pre d post, tr = pre ++ (d, .unlink) :: post → madeByCreate (System.labelsOf d pre) = true

theorem UnlinksMade.init {tr : List (Nat × Op)} {e : Nat × Op} (h : UnlinksMade (tr ++ [e])) : UnlinksMade tr := by
  rintro pre d post rfl
  exact h pre d (post ++ [e]) (by rw [List.append_assoc, List.cons_append])

/-- The file system owns the reference of `example_create` and no other. -/
def OwnsMade (ops : List Op) (c : Slot) : Prop :=
  ∀ x, c.dentry = some x → owned ops = if madeByCreate ops = true then 1 else 0

/-- One operation keeps this, if it does not unlink what was not made. -/
theorem step_ownsMade {ops : List Op} {op : Op} {c c' : Slot} (hinv : SlotInv ops c) (h : OwnsMade ops c)
    (hs : SlotStep c op c') (hmade : op = .unlink → madeByCreate ops = true) : OwnsMade (ops ++ [op]) c' := by
  intro y hy
  rw [owned_snoc, madeByCreate_snoc]
  cases hs with
  | lookup name kmalloc => rfl
  | @create x x' held files kmalloc ret hhash hneg hheld hx =>
    have hbefore := h x rfl
    rcases exampleCreate_cases hx with ⟨rfl, rfl⟩ | ⟨i, hi, rfl, rfl⟩
    · have hfail : ¬(-eNospc : Int) = 0 := by decide
      simpa only [Op.owned, Op.made, hfail, ↓reduceIte] using hbefore
    · -- a negative dentry is not made
      have hnot : ¬madeByCreate ops = true := fun hm => by
        have := hinv.positive x rfl hm
        rw [hneg] at this
        cases this
      rw [if_neg hnot] at hbefore
      simp only [Op.owned, Op.made, hbefore, ↓reduceIte]
      rfl
  | unlink hhash hheld hx =>
    have hbefore := h _ rfl
    rw [if_pos (hmade rfl)] at hbefore
    rw [Op.owned, hbefore]
    rfl
  | get => exact h _ rfl
  | put => exact h _ rfl
  | opened => exact h _ rfl
  | release => exact h _ rfl
  | read => exact h _ rfl
  | write => exact h _ rfl
  | reclaim => cases hy

theorem run_ownsMade {tr : List (Nat × Op)} {s : Nat → Slot} (h : vfs.Run tr s) (hmade : UnlinksMade tr) (d : Nat) :
    OwnsMade (System.labelsOf d tr) (s d) := by
  refine @System.Run.history _ _ vfs (fun tr s => UnlinksMade tr → OwnsMade (System.labelsOf d tr) (s d)) ?_ ?_
    _ _ h hmade
  · intro s hs _ x hx
    rw [hs d] at hx
    cases hx
  · rintro tr s ⟨j, op⟩ s' hrun ih ⟨c, hc, -, rfl⟩ hmade
    by_cases hj : j = d
    · subst hj
      rw [System.labelsOf_self, Function.update_self]
      refine step_ownsMade (run_slotInv hrun j) (ih hmade.init) hc ?_
      rintro rfl
      exact hmade tr j [] rfl
    · rw [System.labelsOf_ne hj, Function.update_of_ne (Ne.symm hj)]
      exact ih hmade.init

/-- Between balanced states an unlinked dentry was made. -/
theorem made_of_balanced {tr : List (Nat × Op)} {s s' : Nat → Slot} {d : Nat} (h : Balanced tr s)
    (h' : Balanced (tr ++ [(d, .unlink)]) s') (hs : vfs.step s (d, .unlink) s') :
    madeByCreate (System.labelsOf d tr) = true := by
  obtain ⟨c, hc, -, rfl⟩ := hs
  have hafter := h' d
  rw [Function.update_self, System.labelsOf_self, madeByCreate_snoc] at hafter
  have hbefore := h d
  simp only at hc
  generalize s d = c₀ at hc hbefore
  cases hc with
  | @unlink x x' held files hhash hheld hx =>
    have hx' := hafter x' rfl
    have hcount := hbefore x rfl
    by_contra hnot
    rw [if_neg hnot] at hcount
    rcases vfsUnlink_cases hx with ⟨-, ⟨htwo, rfl⟩ | ⟨-, rfl⟩⟩
    · simp only [Op.made, Bool.false_eq_true, ↓reduceIte] at hx' hcount
      omega
    · simp only [Op.made, Bool.false_eq_true, ↓reduceIte] at hx' hcount
      omega

/-- **Reference balance.** All states of a run are balanced iff every unlink in it is of a dentry that was made by
`example_create` and not yet unlinked. -/
theorem example_vfs_balance (tr : List (Nat × Op)) (s : Nat → Slot) (h : vfs.Run tr s) :
    (∀ pre post s₁, tr = pre ++ post → vfs.Run pre s₁ → vfs.Path s₁ post s → Balanced pre s₁) ↔ UnlinksMade tr := by
  constructor
  · rintro hbal pre d post rfl
    obtain ⟨s₁, s₂, hrun, hstep, hpath⟩ := h.cut
    refine made_of_balanced (hbal pre _ s₁ rfl hrun (.cons hstep hpath)) ?_ hstep
    exact hbal _ post s₂ (by rw [List.append_assoc, List.singleton_append]) (hrun.snoc hstep) hpath
  · rintro hmade pre post s₁ rfl hrun - d x hx
    have hpre : UnlinksMade pre := by
      rintro pre' d' post' rfl
      exact hmade pre' d' (post' ++ post) (by rw [List.append_assoc, List.cons_append])
    rw [(run_slotInv hrun d).count x hx, run_ownsMade hrun hpre d x hx]

/-- No dentry is cached. -/
def noDentries : Nat → Slot := fun _ => ⟨none, 0, 0⟩

/-- Operations on one dentry, the first of which finds nothing cached, are a run of the file system. -/
theorem run_single {ops : List Op} {c c' : Slot} {name : String} {kmalloc : Bool}
    (hfirst : SlotStep ⟨none, 0, 0⟩ (.lookup name kmalloc) c) (h : slot.Path c ops c')
    (hmiss : ∀ op ∈ ops, ∀ s, Misses s op) :
    vfs.Run (((0, .lookup name kmalloc) : Nat × Op) :: ops.map fun op => (0, op))
      (Function.update noDentries 0 c') := by
  refine ⟨noDentries, fun _ => rfl, .cons ⟨c, hfirst, ?_, rfl⟩ (h.lift hmiss noDentries)⟩
  rintro d x ⟨hx, -⟩
  cases hx

/-- A file is created under a name that was looked up, and unlinked. -/
def createThenUnlink : List (Nat × Op) := [(0, .lookup "a" true), (0, .create true 0), (0, .unlink)]

theorem run_createThenUnlink :
    vfs.Run createThenUnlink (Function.update noDentries 0 ⟨some ⟨"a", 1, none, true⟩, 1, 0⟩) := by
  have hpath : slot.Path ⟨some ⟨"a", 1, none, true⟩, 1, 0⟩ [.create true 0, .unlink]
    ⟨some ⟨"a", 1, none, true⟩, 1, 0⟩ :=
    .cons (.create rfl rfl Nat.one_pos rfl) (.single (.unlink rfl Nat.one_pos rfl))
  exact run_single (.lookup "a" true) hpath (by simp [Misses])

theorem example_vfs_balance_createThenUnlink : ∃ s, vfs.Run createThenUnlink s ∧ Balanced createThenUnlink s := by
  have hmade : UnlinksMade createThenUnlink := by
    rintro (_ | ⟨e₁, _ | ⟨e₂, _ | ⟨e₃, pre⟩⟩⟩) d post hpre
    · cases hpre
    · cases hpre
    · cases hpre
      rfl
    · simp [createThenUnlink] at hpre
  have hbal := (example_vfs_balance createThenUnlink _ run_createThenUnlink).mpr hmade
  exact ⟨_, run_createThenUnlink, hbal _ [] _ rfl run_createThenUnlink (.nil _)⟩

/-- The test file is looked up and unlinked. -/
def lookupThenUnlink : List (Nat × Op) := [(0, .lookup testfile true), (0, .unlink)]

/-- Unlinking the file that `example_lookup` made drops the reference of the caller. -/
theorem example_vfs_unbalanced : ∃ s, vfs.Run lookupThenUnlink s ∧ ¬Balanced lookupThenUnlink s := by
  have hpath : slot.Path ⟨some (exampleLookup (dAlloc testfile) true), 1, 0⟩ [.unlink]
      ⟨some ⟨testfile, 0, exampleAllocInode true, false⟩, 1, 0⟩ := .single (.unlink rfl Nat.one_pos rfl)
  have hrun := run_single (.lookup testfile true) hpath (by simp [Misses])
  refine ⟨_, hrun, fun hbal => ?_⟩
  have := hbal 0 ⟨testfile, 0, exampleAllocInode true, false⟩ rfl
  exact absurd this (by decide)

end KernelModules.Vfs
