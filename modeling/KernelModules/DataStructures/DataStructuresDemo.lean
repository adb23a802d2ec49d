import Mathlib.Data.Fintype.Basic
import KernelModules.Lib.CString
import KernelModules.Lib.Linked
import KernelModules.Lib.SearchTree

/-!
# The data structures demo

A task list, a message queue, a hash table of users and a tree of intervals, whose nodes are allocated and linked by
the four calls. A pointer to a node that is not live is a fault. Of the tree functions of the kernel it is known what
they do to the sequence of the nodes; they may touch every node of the tree. An allocation succeeds or not, and every
insertion may rearrange the tree in another way.

- `descend_spec`: the search for a start ends at its node, or at the link where it belongs with the node above it;
- `Holds`: what the list, the table and the tree hold, and that no other node is live; `Holds.addTask`, `Holds.addUser`,
  `Holds.insertInterval_taken`, `Holds.insertInterval_free`: what a call with memory does to it.
-/

namespace KernelModules.DataStructures

open Lib

/-! ## The structures -/

/-- `struct task_item` without its list head. -/
structure TaskItem where
  priority : Int32
  name : List UInt8
deriving DecidableEq, Repr

/-- `struct message`. -/
structure Message where
  id : Int32
  data : List UInt8
deriving DecidableEq, Repr

/-- `struct user_entry` without its hash node. -/
structure UserEntry where
  userId : Int32
  name : List UInt8
deriving DecidableEq, Repr

/-- `struct interval_node` with its address; where it is in the tree is in the tree. -/
structure IntervalNode where
  addr : Nat
  start : UInt64
  end_ : UInt64
deriving DecidableEq, Repr

def queueSize : Nat := 32

def userHashBits : Nat := 4

abbrev Bucket := Fin (2 ^ userHashBits)

/-- The global variables and the memory of the nodes. -/
structure Structures where
  heap : Heap
  taskItem : Nat → TaskItem
  taskList : Ring
  msgQueue : List Message
  userEntry : Nat → UserEntry
  userTable : HashTable Bucket
  intervalTree : BinaryTree IntervalNode

/-- `LIST_HEAD`, `DEFINE_KFIFO`, `DEFINE_HASHTABLE` and `RB_ROOT`: nothing is there yet, whatever the memory holds. -/
def Structures.loaded (memory : Structures) : Structures := { memory with
  heap := .empty
  taskList := (memory.taskList.setNext .head .head).setPrev .head .head
  msgQueue := []
  userTable := { memory.userTable with first := fun _ => none }
  intervalTree := .nil }

/-! ## The calls -/

namespace Structures

/-- `add_task`. `ok` is whether the allocation succeeds. -/
def addTask (s : Structures) (ok : Bool) (priority : Int32) (name : List UInt8) : Option (Int × Structures) :=
  match s.heap.alloc ok with
  | (none, _) => some (-eNomem, s)
  | (some newTask, heap) => do
    heap.access newTask
    let taskList ← Ring.listAddTail heap s.taskList newTask
    some (0, { s with
      heap := heap
      taskItem := Function.update s.taskItem newTask ⟨priority, paddedField 31 name⟩
      taskList := taskList })

/-- `send_message`; `kfifo_in` of one message stores it if there is room. -/
def sendMessage (s : Structures) (id : Int32) (data : List UInt8) : Option (Int × Structures) :=
  if s.msgQueue.length < queueSize then some (0, { s with msgQueue := s.msgQueue ++ [⟨id, paddedField 63 data⟩] })
  else some (-eNospc, s)

end Structures

/-- `hash_32(user_id, USER_HASH_BITS)`: the top bits of the product with the golden ratio. -/
def hashMin (userId : Int32) : Bucket :=
  ⟨(userId.toUInt32 * 0x61C88647).toNat / 2 ^ (32 - userHashBits), by
    have h := (userId.toUInt32 * 0x61C88647).toNat_lt
    rw [userHashBits]
    omega⟩

/-- `add_user`. -/
def Structures.addUser (s : Structures) (ok : Bool) (userId : Int32) (name : List UInt8) : Option (Int × Structures) :=
  match s.heap.alloc ok with
  | (none, _) => some (-eNomem, s)
  | (some entry, heap) => do
    heap.access entry
    let userTable ← HashTable.hashAdd heap s.userTable (hashMin userId) entry
    some (0, { s with
      heap := heap
      userEntry := Function.update s.userEntry entry ⟨userId, paddedField 31 name⟩
      userTable := userTable })

/-- How the loop of `insert_interval` ends: a node with that start was found, or `*link` is `NULL`. -/
inductive Search
  | taken
  | free (parent : Option IntervalNode) (link : List (Frame IntervalNode))

/-- The loop of `insert_interval`, from `*link` on. -/
def descend (heap : Heap) (start : UInt64) (parent : Option IntervalNode) (link : List (Frame IntervalNode)) :
    BinaryTree IntervalNode → Option Search
  | .nil => some (.free parent link)
  | .node curr l r => do
    heap.access curr.addr
    if start < curr.start then descend heap start (some curr) (.left curr r :: link) l
    else if start > curr.start then descend heap start (some curr) (.right curr l :: link) r
    else some .taken

/-- `rb_link_node`. The parent it stores has to be the node in which the link lies. -/
def rbLinkNode (node : IntervalNode) (parent : Option IntervalNode) (link : List (Frame IntervalNode)) :
    Option (BinaryTree IntervalNode) :=
  if parent = link.head?.map Frame.value then some (plug link (.node node .nil .nil)) else none

/-- A tree function of the kernel touches nodes of the tree. -/
def accessTree (heap : Heap) (tree : BinaryTree IntervalNode) : Option Unit :=
  heap.accessAll ((inorder tree).map IntervalNode.addr)

/-- `insert_interval`; `rbInsertColor` is how this call rearranges the tree. -/
def Structures.insertInterval (s : Structures) (ok : Bool) (rbInsertColor : Rebalance IntervalNode)
    (start end_ : UInt64) : Option (Int × Structures) :=
  match s.heap.alloc ok with
  | (none, _) => some (-eNomem, s)
  | (some newNode, heap) => do
    heap.access newNode
    match ← descend heap start none [] s.intervalTree with
    | .taken => do
      let heap ← heap.free newNode
      some (-eExist, { s with heap := heap })
    | .free parent link => do
      let tree ← rbLinkNode ⟨newNode, start, end_⟩ parent link
      accessTree heap tree
      some (0, { s with heap := heap, intervalTree := rbInsertColor.apply tree })

/-- A call with what the kernel does in it. -/
inductive Call
  | addTask (ok : Bool) (priority : Int32) (name : List UInt8)
  | sendMessage (id : Int32) (data : List UInt8)
  | addUser (ok : Bool) (userId : Int32) (name : List UInt8)
  | insertInterval (ok : Bool) (rbInsertColor : Rebalance IntervalNode) (start end_ : UInt64)

def Structures.step (s : Structures) : Call → Option (Int × Structures)
  | .addTask ok priority name => s.addTask ok priority name
  | .sendMessage id data => s.sendMessage id data
  | .addUser ok userId name => s.addUser ok userId name
  | .insertInterval ok color start end_ => s.insertInterval ok color start end_

/-- Calls one after the other, with what they return. -/
def Structures.run (s : Structures) (calls : List Call) : Option (List Int × Structures) :=
  calls.foldlM (fun (rets, s) c => (s.step c).map fun (ret, s) => (rets ++ [ret], s)) ([], s)

/-! ## The file -/

/-- What `data_structures_show` prints. -/
structure Shown where
  tasks : List (List UInt8 × Int32)
  queue : Nat × Nat
  users : List (Int32 × List UInt8)
  intervals : List (UInt64 × UInt64)

namespace Structures

/-- `list_for_each_entry`, from `pos` on. -/
def showTasks (s : Structures) : Nat → Link → Option (List (List UInt8 × Int32))
  | 0, _ => none
  | _ + 1, .head => some []
  | _ + 1, .poison => none
  | fuel + 1, .node task => do
    s.heap.access task
    let shown ← s.showTasks fuel (s.taskList.next (.node task))
    some ((cstr (s.taskItem task).name, (s.taskItem task).priority) :: shown)

/-- The inner loop of `hash_for_each`, from `pos` on. -/
def showBucket (s : Structures) : Nat → Option Nat → Option (List (Int32 × List UInt8))
  | 0, _ => none
  | _ + 1, none => some []
  | fuel + 1, some user => do
    s.heap.access user
    let shown ← s.showBucket fuel (s.userTable.next user)
    some (((s.userEntry user).userId, cstr (s.userEntry user).name) :: shown)

/-- `hash_for_each`. -/
def showUsers (s : Structures) (fuel : Nat) : Option (List (Int32 × List UInt8)) :=
  (List.finRange (2 ^ userHashBits)).foldlM (fun shown bkt =>
    (s.showBucket fuel (s.userTable.first bkt)).map (shown ++ ·)) []

/-- The loop over `rb_next`, from `node` on. -/
def showIntervals (s : Structures) : Nat → Option IntervalNode → Option (List (UInt64 × UInt64))
  | 0, _ => none
  | _ + 1, none => some []
  | fuel + 1, some interval => do
    accessTree s.heap s.intervalTree
    let shown ← s.showIntervals fuel (successor interval (inorder s.intervalTree))
    some ((interval.start, interval.end_) :: shown)

/-- `data_structures_show`. -/
def dataStructuresShow (s : Structures) (fuel : Nat) : Option Shown := do
  let tasks ← s.showTasks fuel (s.taskList.next .head)
  let users ← s.showUsers fuel
  let intervals ← s.showIntervals fuel (leftmost s.intervalTree)
  some ⟨tasks, (s.msgQueue.length, queueSize), users, intervals⟩

end Structures

/-! ## What is held -/

/-- The order of the tree. -/
def startKey (x : IntervalNode) : Nat := x.start.toNat

/-- The nodes of the three structures. -/
def owned (ts : List Nat) (us : Bucket → List Nat) (is : List IntervalNode) : Multiset Nat :=
  ts + HashTable.nodes us + (is.map IntervalNode.addr : List Nat)

/-- The list and the table hold the given nodes, the tree is ordered, and no other node is live. -/
structure Structures.Holds (s : Structures) (ts : List Nat) (us : Bucket → List Nat) : Prop where
  tasks : s.taskList.Holds ts
  users : s.userTable.Holds us
  ordered : Ordered startKey s.intervalTree
  owns : s.heap.Owns (owned ts us (inorder s.intervalTree))

section Owned

variable {ts : List Nat} {us : Bucket → List Nat} {is : List IntervalNode} {a : Nat}

theorem mem_owned : a ∈ owned ts us is ↔ a ∈ ts ∨ (∃ b, a ∈ us b) ∨ ∃ x ∈ is, x.addr = a := by
  simp [owned, HashTable.mem_nodes, or_assoc]

theorem coe_middle (l r : List Nat) : ((l ++ a :: r : List Nat) : Multiset Nat) = a ::ₘ (l ++ r : List Nat) :=
  Multiset.coe_eq_coe.mpr List.perm_middle

theorem owned_task (l r : List Nat) : owned (l ++ a :: r) us is = a ::ₘ owned (l ++ r) us is := by
  rw [owned, coe_middle, Multiset.cons_add, Multiset.cons_add, owned]

theorem owned_user (b : Bucket) : owned ts (Function.update us b (a :: us b)) is = a ::ₘ owned ts us is := by
  rw [owned, HashTable.nodes_update_cons, Multiset.add_cons, Multiset.cons_add, owned]

theorem owned_interval (x : IntervalNode) (l r : List IntervalNode) :
    owned ts us (l ++ x :: r) = x.addr ::ₘ owned ts us (l ++ r) := by
  rw [owned, List.map_append, List.map_cons, coe_middle, ← List.map_append, Multiset.add_cons, owned]

theorem accessTree_owned {heap : Heap} {tree : BinaryTree IntervalNode} (h : heap.Owns (owned ts us (inorder tree))) :
    accessTree heap tree = some () :=
  h.accessAll fun a ha => by
    obtain ⟨x, hx, rfl⟩ := List.mem_map.mp ha
    exact mem_owned.mpr (.inr (.inr ⟨x, hx, rfl⟩))

theorem owned_nothing : owned [] (fun _ => []) [] = 0 :=
  Multiset.eq_zero_of_forall_notMem fun a ha => by simp [mem_owned] at ha

end Owned

namespace Structures.Holds

variable {s : Structures} {ts : List Nat} {us : Bucket → List Nat}

/-- A new node is none of those that are held. -/
theorem new_notMem (h : s.Holds ts us) : s.heap.allocated ∉ owned ts us (inorder s.intervalTree) :=
  fun hmem => Nat.lt_irrefl _ (h.owns.lt hmem)

/-- None of the structures has more nodes than were allocated. -/
theorem lengths (h : s.Holds ts us) : ts.length ≤ s.heap.allocated ∧ (∀ b, (us b).length ≤ s.heap.allocated) ∧
    (inorder s.intervalTree).length ≤ s.heap.allocated := by
  have hcard := h.owns.card_le
  rw [owned, Multiset.card_add, Multiset.card_add, Multiset.coe_card, Multiset.coe_card, List.length_map] at hcard
  refine ⟨by omega, fun b => ?_, by omega⟩
  have hlen := HashTable.length_le_card_nodes us b
  omega

theorem loaded (memory : Structures) : memory.loaded.Holds [] fun _ => [] where
  tasks := ⟨.nil, by simp [Ring.Chain, Structures.loaded, Ring.setNext, Ring.setPrev]⟩
  users := ⟨fun _ => .nil, fun _ _ _ => List.disjoint_nil_left _, fun _ => rfl⟩
  ordered := trivial
  owns := by
    show Heap.empty.Owns (owned [] (fun _ => []) [])
    rw [owned_nothing]
    exact Heap.empty_owns

end Structures.Holds

/-! ## The search -/

/-- **The search** finds the start, or ends at the link where it belongs; `parent` is the node above the link. -/
theorem descend_spec {heap : Heap} {m : Multiset Nat} (hm : heap.Owns m) (start : UInt64) :
    ∀ {t : BinaryTree IntervalNode} {parent : Option IntervalNode} {link : List (Frame IntervalNode)},
      parent = link.head?.map Frame.value → Ordered startKey t → Splits startKey start.toNat link →
      (∀ x ∈ inorder t, x.addr ∈ m) →
      (descend heap start parent link t = some .taken ∧ ∃ x ∈ inorder t, x.start = start) ∨
        ∃ fs, descend heap start parent link t = some (.free (fs.head?.map Frame.value) fs) ∧
          Splits startKey start.toNat fs ∧ plug fs .nil = plug link t
  | .nil, parent, link, hparent, _, hsplits, _ => .inr ⟨link, by rw [descend, hparent], hsplits, rfl⟩
  | .node curr l r, parent, link, _, ⟨hl, hr, hleft, hright⟩, hsplits, hlive => by
    have hcurr : heap.access curr.addr = some () := hm.access (hlive curr (by simp [inorder]))
    rw [descend, hcurr, Option.bind_eq_bind, Option.bind_some]
    split
    · rename_i hlt
      have hlink := hsplits.left (UInt64.lt_iff_toNat_lt.mp hlt) hr
      have hl' : ∀ x ∈ inorder l, x.addr ∈ m := fun x hx => hlive x (by simp [inorder, hx])
      rcases descend_spec hm start rfl hleft hlink hl' with ⟨hd, x, hx, hs⟩ | hfree
      · exact .inl ⟨hd, x, by simp [inorder, hx], hs⟩
      · exact .inr hfree
    · rename_i hnlt
      split
      · rename_i hgt
        have hlink := hsplits.right (UInt64.lt_iff_toNat_lt.mp hgt) hl
        have hr' : ∀ x ∈ inorder r, x.addr ∈ m := fun x hx => hlive x (by simp [inorder, hx])
        rcases descend_spec hm start rfl hright hlink hr' with ⟨hd, x, hx, hs⟩ | hfree
        · exact .inl ⟨hd, x, by simp [inorder, hx], hs⟩
        · exact .inr hfree
      · rename_i hngt
        exact .inl ⟨rfl, curr, by simp [inorder], UInt64.le_antisymm (UInt64.not_lt.mp hnlt) (UInt64.not_lt.mp hngt)⟩

/-! ## One call -/

namespace Structures

/-- A new task at the end of the list. -/
def taskAdded (s : Structures) (priority : Int32) (name : List UInt8) : Structures := { s with
  heap := s.heap.grow
  taskItem := Function.update s.taskItem s.heap.allocated ⟨priority, paddedField 31 name⟩
  taskList := s.taskList.linkTail s.heap.allocated }

/-- A new user in front of the bucket. -/
def userAdded (s : Structures) (userId : Int32) (name : List UInt8) : Structures := { s with
  heap := s.heap.grow
  userEntry := Function.update s.userEntry s.heap.allocated ⟨userId, paddedField 31 name⟩
  userTable := s.userTable.linkHead (hashMin userId) s.heap.allocated }

/-- The tree with a new node. -/
def intervalAdded (s : Structures) (tree : BinaryTree IntervalNode) : Structures := { s with
  heap := s.heap.grow
  intervalTree := tree }

end Structures

namespace Structures.Holds

variable {s : Structures} {ts : List Nat} {us : Bucket → List Nat}

theorem new_access (h : s.Holds ts us) : s.heap.grow.access s.heap.allocated = some () :=
  h.owns.alloc.access (Multiset.mem_cons_self _ _)

theorem addTask (h : s.Holds ts us) (priority : Int32) (name : List UInt8) :
    s.addTask true priority name = some (0, s.taskAdded priority name) ∧
      (s.taskAdded priority name).Holds (ts ++ [s.heap.allocated]) us := by
  have howns := h.owns.alloc
  have hlink := h.tasks.listAddTail howns (fun x hx => Multiset.mem_cons_of_mem (mem_owned.mpr (.inl hx)))
    (Multiset.mem_cons_self _ _)
  refine ⟨?_, h.tasks.linkTail fun hmem => h.new_notMem (mem_owned.mpr (.inl hmem)), h.users, h.ordered, ?_⟩
  · rw [Structures.addTask, Heap.alloc, if_pos rfl]
    simp only [h.new_access, hlink, Option.bind_eq_bind, Option.bind_some]
    rfl
  · have hcons := @owned_task us (inorder s.intervalTree) s.heap.allocated ts []
    rw [List.append_nil] at hcons
    exact hcons ▸ howns

theorem addUser (h : s.Holds ts us) (userId : Int32) (name : List UInt8) :
    s.addUser true userId name = some (0, s.userAdded userId name) ∧ (s.userAdded userId name).Holds ts
      (Function.update us (hashMin userId) (s.heap.allocated :: us (hashMin userId))) := by
  have howns := h.owns.alloc
  have hlink := h.users.hashAdd howns
    (fun x hx => Multiset.mem_cons_of_mem (mem_owned.mpr (.inr (.inl ⟨hashMin userId, hx⟩))))
    (Multiset.mem_cons_self _ _)
  refine ⟨?_, h.tasks, h.users.linkHead fun b hmem => h.new_notMem (mem_owned.mpr (.inr (.inl ⟨b, hmem⟩))),
    h.ordered, ?_⟩
  · rw [Structures.addUser, Heap.alloc, if_pos rfl]
    simp only [h.new_access, hlink, Option.bind_eq_bind, Option.bind_some]
    rfl
  · exact owned_user (hashMin userId) ▸ howns

/-- The two ends of the search in `insert_interval`. -/
theorem search (h : s.Holds ts us) (start : UInt64) :
    (descend s.heap.grow start none [] s.intervalTree = some .taken ∧ ∃ x ∈ inorder s.intervalTree, x.start = start) ∨
      ∃ fs, descend s.heap.grow start none [] s.intervalTree = some (.free (fs.head?.map Frame.value) fs) ∧
        Splits startKey start.toNat fs ∧ inorder s.intervalTree = before fs ++ behind fs := by
  rcases descend_spec h.owns.alloc start rfl h.ordered splits_root fun x hx =>
    Multiset.mem_cons_of_mem (mem_owned.mpr (.inr (.inr ⟨x, hx, rfl⟩))) with htaken | ⟨fs, hfree, hsplits, hplug⟩
  · exact .inl htaken
  · refine .inr ⟨fs, hfree, hsplits, ?_⟩
    have htree : plug fs .nil = s.intervalTree := hplug
    rw [← htree, inorder_plug, inorder, List.append_nil]

/-- A start that is in the tree: the new node is freed. -/
theorem insertInterval_taken (h : s.Holds ts us) (color : Rebalance IntervalNode) {start : UInt64} (end_ : UInt64)
    (hstart : ∃ x ∈ inorder s.intervalTree, x.start = start) :
    ∃ heap, s.insertInterval true color start end_ = some (-eExist, { s with heap := heap }) ∧
      ({ s with heap := heap } : Structures).Holds ts us ∧ heap.freed = s.heap.freed ++ [s.heap.allocated] ∧
        heap.allocated = s.heap.allocated + 1 := by
  obtain ⟨heap, hfree, howned, hfreed, halloc⟩ := h.owns.alloc.free
  refine ⟨heap, ?_, ⟨h.tasks, h.users, h.ordered, howned⟩, hfreed, halloc⟩
  rcases h.search start with ⟨hdescend, -⟩ | ⟨fs, -, hsplits, hinorder⟩
  · rw [insertInterval, Heap.alloc, if_pos rfl]
    simp only [h.new_access, hdescend, hfree, Option.bind_eq_bind, Option.bind_some]
  · obtain ⟨x, hx, rfl⟩ := hstart
    exact absurd rfl (hsplits.ne (hinorder ▸ hx))

/-- A new start: the new node is in the tree, where it belongs. -/
theorem insertInterval_free (h : s.Holds ts us) (color : Rebalance IntervalNode) {start : UInt64} (end_ : UInt64)
    (hstart : ∀ x ∈ inorder s.intervalTree, x.start ≠ start) :
    ∃ tree l r, s.insertInterval true color start end_ = some (0, s.intervalAdded tree) ∧
      (s.intervalAdded tree).Holds ts us ∧ inorder s.intervalTree = l ++ r ∧
        inorder tree = l ++ ⟨s.heap.allocated, start, end_⟩ :: r := by
  rcases h.search start with ⟨-, x, hx, hxs⟩ | ⟨fs, hdescend, hsplits, hinorder⟩
  · exact absurd hxs (hstart x hx)
  set new : IntervalNode := ⟨s.heap.allocated, start, end_⟩ with hnew
  have hlinked : inorder (plug fs (.node new .nil .nil)) = before fs ++ new :: behind fs := by
    rw [inorder_plug]
    simp [inorder]
  have htree : inorder (color.apply (plug fs (.node new .nil .nil))) = before fs ++ new :: behind fs :=
    (color.inorder_apply _).trans hlinked
  have howns : s.heap.grow.Owns (owned ts us (before fs ++ new :: behind fs)) := by
    rw [owned_interval, ← hinorder]
    exact h.owns.alloc
  have haccess := accessTree_owned (hlinked.symm ▸ howns)
  refine ⟨color.apply (plug fs (.node new .nil .nil)), before fs, behind fs, ?_, ⟨h.tasks, h.users, ?_, ?_⟩, hinorder,
    htree⟩
  · rw [insertInterval, Heap.alloc, if_pos rfl]
    simp only [h.new_access, hdescend, rbLinkNode, if_true, ← hnew, haccess, Option.bind_eq_bind, Option.bind_some]
    rfl
  · have hsorted := (ordered_iff startKey _).mp h.ordered
    rw [hinorder] at hsorted
    rw [Structures.intervalAdded, ordered_iff, htree]
    exact hsplits.pairwise_insert hsorted
  · rw [Structures.intervalAdded, htree]
    exact howns

end Structures.Holds

end KernelModules.DataStructures
