import KernelModules.DataStructures.Calls

/-!
# Load and unload of the data structures demo

`data_structures_exit` takes the three structures apart while it walks them. A loop that runs out of fuel has not
ended; a node that is followed, unlinked or freed after it was freed is a fault.

- `freeTask`, `freeUser`, `freeInterval`: one round of each loop keeps the structures in order;
- `freeTasks_spec`, `freeUsers_spec`, `freeIntervals_spec`: so each loop ends and leaves its structure empty;
- `data_structures_freed_once`: after any calls, the unload has freed every node exactly once;
- `dataStructuresInit_leaks`: a load that fails has freed none.
-/

namespace KernelModules.DataStructures

open Lib

/-! ## The code -/

namespace Structures

/-- `list_next_entry`. -/
def nextEntry (s : Structures) (p : Link) : Option Link := do
  s.heap.accessLink p
  some (s.taskList.next p)

/-- `list_for_each_entry_safe` with `list_del` and `kfree`: the entry behind the current one is read before the body. -/
def freeTasks (s : Structures) : Nat → Link → Link → Option Structures
  | 0, _, _ => none
  | _ + 1, .head, _ => some s
  | _ + 1, .poison, _ => none
  | fuel + 1, .node task, tmpTask => do
    let taskList ← Ring.listDel s.heap s.taskList task
    let heap ← s.heap.free task
    let s := { s with heap := heap, taskList := taskList }
    let next ← s.nextEntry tmpTask
    s.freeTasks fuel tmpTask next

/-- The inner loop of `hash_for_each_safe` with `hash_del` and `kfree`. -/
def freeBucket (s : Structures) : Nat → Option Nat → Option Structures
  | 0, _ => none
  | _ + 1, none => some s
  | fuel + 1, some user => do
    s.heap.access user
    let tmpHash := s.userTable.next user
    let userTable ← HashTable.hashDel s.heap s.userTable user
    let heap ← s.heap.free user
    { s with heap := heap, userTable := userTable }.freeBucket fuel tmpHash

/-- `hash_for_each_safe`. The inner loop ends with `user` being `NULL`, so the outer one goes on to the last bucket. -/
def freeUsers (s : Structures) (fuel : Nat) : Option Structures :=
  (List.finRange (2 ^ userHashBits)).foldlM (fun s bkt => s.freeBucket fuel (s.userTable.first bkt)) s

/-- The loop over `rb_first` with `rb_erase` and `kfree`; every removal may rearrange the tree in another way. -/
def freeIntervals (rbErase : Nat → Erasure IntervalNode) (s : Structures) : Nat → Option Structures
  | 0 => none
  | fuel + 1 => do
    accessTree s.heap s.intervalTree
    match leftmost s.intervalTree with
    | none => some s
    | some interval => do
      let heap ← s.heap.free interval.addr
      freeIntervals rbErase { s with
        heap := heap
        intervalTree := (rbErase fuel).apply interval s.intervalTree } fuel

/-- `data_structures_exit`. `proc_remove` touches none of the structures. -/
def dataStructuresExit (s : Structures) (rbErase : Nat → Erasure IntervalNode) (fuel : Nat) : Option Structures := do
  let task := s.taskList.next .head
  let tmpTask ← s.nextEntry task
  let s ← s.freeTasks fuel task tmpTask
  let s ← s.freeUsers fuel
  s.freeIntervals rbErase fuel

end Structures

/-- The calls of `data_structures_init`. -/
def initCalls (ok : Nat → Bool) (color : Nat → Rebalance IntervalNode) : List Call :=
  [.addTask (ok 0) 10 (ascii "high_priority"), .addTask (ok 1) 5 (ascii "normal_task"),
    .sendMessage 1 (ascii "Hello"), .sendMessage 2 (ascii "World"),
    .addUser (ok 2) 1001 (ascii "alice"), .addUser (ok 3) 1002 (ascii "bob"),
    .insertInterval (ok 4) (color 0) 100 200, .insertInterval (ok 5) (color 1) 300 400]

/-- `data_structures_init`, which looks at nothing but whether the file was created. -/
def dataStructuresInit (memory : Structures) (ok : Nat → Bool) (color : Nat → Rebalance IntervalNode)
    (procCreated : Bool) : Option (Int × Structures) :=
  (memory.loaded.run (initCalls ok color)).map fun (_, s) => (if procCreated then 0 else -eNomem, s)

/-! ## One round -/

namespace Structures.Holds

variable {s : Structures} {ts : List Nat} {us : Bucket → List Nat} {a : Nat} {as : List Nat} {b : Bucket}

theorem freeTask (h : s.Holds (a :: ts) us) :
    ∃ heap, Ring.listDel s.heap s.taskList a = some (s.taskList.unlink a) ∧ s.heap.free a = some heap ∧
      s.heap.Released heap ∧ ({ s with heap := heap, taskList := s.taskList.unlink a } : Structures).Holds ts us := by
  have howns : s.heap.Owns (a ::ₘ owned ts us (inorder s.intervalTree)) := owned_task [] ts ▸ h.owns
  obtain ⟨heap, hfree, howned, hreleased⟩ := howns.release
  have hdel := h.tasks.listDel h.owns fun x hx => mem_owned.mpr (.inl hx)
  exact ⟨heap, hdel, hfree, hreleased, h.tasks.unlink_first.1, h.users, h.ordered, howned⟩

theorem freeUser (h : s.Holds ts us) (hb : us b = a :: as) :
    ∃ heap, s.heap.access a = some () ∧ HashTable.hashDel s.heap s.userTable a =
      some (s.userTable.unlink a (.first b)) ∧
      s.heap.free a = some heap ∧ s.heap.Released heap ∧
      ({ s with heap := heap, userTable := s.userTable.unlink a (.first b) } : Structures).Holds ts
        (Function.update us b as) := by
  have hnodes : owned ts us (inorder s.intervalTree) =
      a ::ₘ owned ts (Function.update us b as) (inorder s.intervalTree) := by
    rw [owned, HashTable.nodes_eq_cons hb, Multiset.add_cons, Multiset.cons_add, owned]
  have howns : s.heap.Owns (a ::ₘ _) := hnodes ▸ h.owns
  obtain ⟨heap, hfree, howned, hreleased⟩ := howns.release
  have hdel := h.users.hashDel hb h.owns fun x hx => mem_owned.mpr (.inr (.inl ⟨b, hb ▸ hx⟩))
  exact ⟨heap, howns.access (Multiset.mem_cons_self _ _), hdel, hfree, hreleased, h.tasks,
    (h.users.unlink_first hb).1, h.ordered, howned⟩

theorem freeInterval (h : s.Holds ts us) (rbErase : Erasure IntervalNode) {x : IntervalNode} {xs : List IntervalNode}
    (hinorder : inorder s.intervalTree = x :: xs) :
    ∃ heap, s.heap.free x.addr = some heap ∧ s.heap.Released heap ∧
      inorder (rbErase.apply x s.intervalTree) = xs ∧
      ({ s with heap := heap, intervalTree := rbErase.apply x s.intervalTree } : Structures).Holds ts us := by
  have herase : inorder (rbErase.apply x s.intervalTree) = xs :=
    rbErase.inorder_apply (l := []) hinorder List.not_mem_nil
  have howns : s.heap.Owns (x.addr ::ₘ owned ts us xs) := by
    have howned := h.owns
    rw [hinorder] at howned
    exact owned_interval x [] xs ▸ howned
  obtain ⟨heap, hfree, howned, hreleased⟩ := howns.release
  refine ⟨heap, hfree, hreleased, herase, h.tasks, h.users, ?_, ?_⟩
  · have hsorted := (ordered_iff startKey _).mp h.ordered
    rw [hinorder] at hsorted
    rw [ordered_iff, herase]
    exact hsorted.of_cons
  · rw [herase]
    exact howned

end Structures.Holds

/-! ## The loops -/

section Loops

variable {s : Structures} {ts : List Nat} {us : Bucket → List Nat}

/-- The loop over the tasks, with `tmp_task` read ahead. -/
theorem freeTasks_spec : ∀ {ts : List Nat} {s : Structures}, s.Holds ts us → ∀ fuel, ts.length < fuel →
    ∃ s', s.freeTasks fuel (s.taskList.next .head) (s.taskList.next (s.taskList.next .head)) = some s' ∧
      s'.Holds [] us ∧ s.heap.Released s'.heap
  | [], s, h, fuel + 1, _ => by
    refine ⟨s, ?_, h, .refl _⟩
    rw [h.tasks.chain.1]
    rfl
  | a :: ts, s, h, fuel + 1, hfuel => by
    obtain ⟨heap, hdel, hfree, hreleased, hholds⟩ := h.freeTask
    obtain ⟨s', hrun, hholds', hreleased'⟩ := freeTasks_spec hholds fuel (Nat.lt_of_succ_lt_succ hfuel)
    refine ⟨s', ?_, hholds', hreleased.trans hreleased'⟩
    -- what was read ahead is where the list begins after the removal
    have hahead := h.tasks.unlink_first.2
    have hnext : ({ s with heap := heap, taskList := s.taskList.unlink a } : Structures).nextEntry
        (s.taskList.next (.node a)) = some ((s.taskList.unlink a).next (s.taskList.next (.node a))) := by
      rw [Structures.nextEntry,
        Ring.accessLink_of_mem hholds.owns (fun x hx => mem_owned.mpr (.inl hx)) h.tasks.next_first]
      rfl
    rw [h.tasks.chain.1, Structures.freeTasks, hdel, hfree]
    simp only [Option.bind_eq_bind, Option.bind_some, hnext]
    rw [← hahead]
    exact hrun

/-- The loop over one bucket. -/
theorem freeBucket_spec (b : Bucket) : ∀ {as : List Nat} {s : Structures} {us : Bucket → List Nat}, s.Holds ts us →
    us b = as → ∀ fuel, as.length < fuel →
    ∃ s', s.freeBucket fuel (s.userTable.first b) = some s' ∧ s'.Holds ts (Function.update us b []) ∧
      s.heap.Released s'.heap
  | [], s, us, h, hb, fuel + 1, _ => by
    refine ⟨s, ?_, ?_, .refl _⟩
    · rw [h.users.first_eq, hb]
      rfl
    · rw [← hb, Function.update_eq_self]
      exact h
  | a :: as, s, us, h, hb, fuel + 1, hfuel => by
    obtain ⟨heap, haccess, hdel, hfree, hreleased, hholds⟩ := h.freeUser hb
    obtain ⟨s', hrun, hholds', hreleased'⟩ :=
      freeBucket_spec b hholds (Function.update_self b as us) fuel (Nat.lt_of_succ_lt_succ hfuel)
    rw [Function.update_idem] at hholds'
    refine ⟨s', ?_, hholds', hreleased.trans hreleased'⟩
    have hahead := (h.users.unlink_first hb).2
    rw [h.users.first_eq, hb, List.head?_cons, Structures.freeBucket, haccess, hdel, hfree]
    simp only [Option.bind_eq_bind, Option.bind_some]
    rw [← hahead]
    exact hrun

/-- The loop over the buckets. -/
theorem freeUsers_spec (h : s.Holds ts us) {fuel : Nat} (hfuel : s.heap.allocated < fuel) :
    ∃ s', s.freeUsers fuel = some s' ∧ (s'.Holds ts fun _ => []) ∧ s.heap.Released s'.heap := by
  let I : List Bucket → Structures → Prop := fun left s' =>
    ∃ us', s'.Holds ts us' ∧ (∀ b, b ∉ left → us' b = []) ∧ s.heap.Released s'.heap
  have hinit : I (List.finRange _) s := ⟨us, h, fun b hb => absurd (List.mem_finRange b) hb, .refl _⟩
  have hbody : ∀ b left s₁, I (b :: left) s₁ → ∃ s₂, s₁.freeBucket fuel (s₁.userTable.first b) = some s₂ ∧
      I left s₂ := by
    rintro b left s₁ ⟨us₁, hholds, hdone, hreleased⟩
    have hlen := hholds.lengths.2.1 b
    rw [hreleased.1] at hlen
    obtain ⟨s₂, hrun, hholds₂, hreleased₂⟩ := freeBucket_spec b hholds rfl fuel (by omega)
    refine ⟨s₂, hrun, _, hholds₂, fun b' hb' => ?_, hreleased.trans hreleased₂⟩
    by_cases heq : b' = b
    · rw [heq, Function.update_self]
    · rw [Function.update_of_ne heq]
      exact hdone b' (by simp [heq, hb'])
  obtain ⟨s', hrun, us', hholds, hdone, hreleased⟩ := foldlM_invariant hbody _ s hinit
  have hempty : us' = fun _ => [] := funext fun b => hdone b List.not_mem_nil
  exact ⟨s', hrun, hempty ▸ hholds, hreleased⟩

/-- The loop over the tree. -/
theorem freeIntervals_spec (rbErase : Nat → Erasure IntervalNode) : ∀ {is : List IntervalNode} {s : Structures},
    s.Holds ts us → inorder s.intervalTree = is → ∀ fuel, is.length < fuel →
    ∃ s', s.freeIntervals rbErase fuel = some s' ∧ s'.Holds ts us ∧ s'.intervalTree = .nil ∧ s.heap.Released s'.heap
  | [], s, h, hinorder, fuel + 1, _ => by
    refine ⟨s, ?_, h, eq_nil_of_inorder hinorder, .refl _⟩
    rw [Structures.freeIntervals, accessTree_owned h.owns, leftmost_eq_head, hinorder]
    rfl
  | x :: is, s, h, hinorder, fuel + 1, hfuel => by
    obtain ⟨heap, hfree, hreleased, herase, hholds⟩ := h.freeInterval (rbErase fuel) hinorder
    obtain ⟨s', hrun, hholds', htree, hreleased'⟩ :=
      freeIntervals_spec rbErase hholds herase fuel (Nat.lt_of_succ_lt_succ hfuel)
    refine ⟨s', ?_, hholds', htree, hreleased.trans hreleased'⟩
    rw [Structures.freeIntervals, accessTree_owned h.owns, leftmost_eq_head, hinorder]
    simp only [Option.bind_eq_bind, Option.bind_some, List.head?_cons, hfree]
    exact hrun

/-- **The unload** ends, with every structure empty and every node freed exactly once. -/
theorem dataStructuresExit_spec (h : s.Holds ts us) (rbErase : Nat → Erasure IntervalNode) {fuel : Nat}
    (hfuel : s.heap.allocated < fuel) :
    ∃ s', s.dataStructuresExit rbErase fuel = some s' ∧ s'.taskList.Holds [] ∧ (∀ b, s'.userTable.first b = none) ∧
      s'.intervalTree = .nil ∧ s.heap.Released s'.heap ∧ s'.heap.freed.Perm (List.range s'.heap.allocated) := by
  have hnext : s.nextEntry (s.taskList.next .head) = some (s.taskList.next (s.taskList.next .head)) := by
    rw [Structures.nextEntry, Ring.accessLink_of_mem h.owns (fun x hx => mem_owned.mpr (.inl hx)) h.tasks.next_head]
    rfl
  obtain ⟨s₁, hrun₁, hholds₁, hreleased₁⟩ := freeTasks_spec h fuel (by have := h.lengths.1; omega)
  obtain ⟨s₂, hrun₂, hholds₂, hreleased₂⟩ := freeUsers_spec hholds₁ (hreleased₁.1 ▸ hfuel)
  have hreleased := hreleased₁.trans hreleased₂
  obtain ⟨s', hrun₃, hholds, htree, hreleased₃⟩ := freeIntervals_spec rbErase hholds₂ rfl fuel
    (by have := hholds₂.lengths.2.2; have := hreleased.1; omega)
  refine ⟨s', ?_, hholds.tasks, fun b => hholds.users.first_eq b, htree, hreleased.trans hreleased₃, ?_⟩
  · rw [Structures.dataStructuresExit, hnext, Option.bind_eq_bind, Option.bind_some, hrun₁, Option.bind_eq_bind,
      Option.bind_some, hrun₂]
    exact hrun₃
  · have howns := hholds.owns
    rw [htree, inorder, owned_nothing] at howns
    exact howns.perm_range

end Loops

/-! ## Load, calls, unload -/

/-- **Every node is freed exactly once.** After any calls, whichever allocations failed, only the nodes of insertions
that returned `-EEXIST` are freed. Then the loops of the unload end without touching a freed node; the list, the table
and the tree are empty, and the nodes freed before and now are all that were ever allocated, each of them once. -/
theorem data_structures_freed_once (memory : Structures) (calls : List Call) (rbErase : Nat → Erasure IntervalNode) :
    ∃ rets s, memory.loaded.run calls = some (rets, s) ∧ s.heap.allocated = calls.countP Call.allocates ∧
      s.heap.freed.length = rets.count (-eExist) ∧
      ∀ fuel > s.heap.allocated, ∃ s', s.dataStructuresExit rbErase fuel = some s' ∧
        (s'.taskList.next .head = .head ∧ s'.taskList.prev .head = .head) ∧ (∀ b, s'.userTable.first b = none) ∧
        s'.intervalTree = .nil ∧ s'.heap.allocated = s.heap.allocated ∧ s.heap.freed <+: s'.heap.freed ∧
        s'.heap.freed.Perm (List.range s'.heap.allocated) := by
  obtain ⟨rets, s, hrun, ts, us, hholds, hreflects, hfreed⟩ := run_spec memory calls
  refine ⟨rets, s, hrun, hreflects.allocated, hfreed, fun fuel hfuel => ?_⟩
  obtain ⟨s', hexit, htasks, husers, htree, ⟨halloc, hpart⟩, hperm⟩ := dataStructuresExit_spec hholds rbErase hfuel
  exact ⟨s', hexit, htasks.chain, husers, htree, halloc, hpart, hperm⟩

/-- A load that fails because the file cannot be created leaves its nodes behind. -/
theorem dataStructuresInit_leaks (memory : Structures) {ok : Nat → Bool} (color : Nat → Rebalance IntervalNode)
    (hok : ok 0 = true ∨ ok 1 = true) :
    ∃ s, dataStructuresInit memory ok color false = some (-eNomem, s) ∧ ∃ a, s.heap.Live a := by
  obtain ⟨rets, s, hrun, ts, us, hholds, hreflects, -⟩ := run_spec memory (initCalls ok color)
  refine ⟨s, by rw [dataStructuresInit, hrun]; rfl, ?_⟩
  have htask : (initCalls ok color).filterMap Call.task ≠ [] := by
    rcases hok with hok | hok
    · simp [initCalls, hok, Call.task]
    · cases h : ok 0 <;> simp [initCalls, hok, h, Call.task]
  rw [← hreflects.tasks] at htask
  obtain ⟨a, ha⟩ := List.exists_mem_of_ne_nil ts fun hnil => htask (by rw [hnil, List.map_nil])
  exact ⟨a, hholds.owns.live (mem_owned.mpr (.inl ha))⟩

end KernelModules.DataStructures
