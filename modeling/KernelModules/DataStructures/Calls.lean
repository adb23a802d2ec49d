import KernelModules.DataStructures.DataStructuresDemo
import KernelModules.Lib.Runs

/-!
# Calls to the data structures demo

What the structures hold after any calls is known from the calls: each task, each user, the first messages and the first
interval of each start.

- `step_spec`: a call keeps the structures in order; `run_spec`: so nothing faults in any run;
- `dataStructuresShow_spec`, `dataStructuresShow_calls`: what the file shows;
- `interval_tree_ordered_map`: the tree is a map from starts to ends, where the first interval of each start stays.
-/

namespace KernelModules.DataStructures

open Lib

/-! ## Runs -/

namespace Call

def allocates : Call → Bool
  | .addTask ok _ _ => ok
  | .sendMessage _ _ => false
  | .addUser ok _ _ => ok
  | .insertInterval ok _ _ _ => ok

/-- The task that a call adds. -/
def task : Call → Option TaskItem
  | .addTask true priority name => some ⟨priority, paddedField 31 name⟩
  | _ => none

def message : Call → Option Message
  | .sendMessage id data => some ⟨id, paddedField 63 data⟩
  | _ => none

/-- The user that a call adds to a bucket. -/
def user (b : Bucket) : Call → Option UserEntry
  | .addUser true userId name => if hashMin userId = b then some ⟨userId, paddedField 31 name⟩ else none
  | _ => none

/-- The end of the interval that a call has for a start. -/
def interval (k : UInt64) : Call → Option UInt64
  | .insertInterval true _ start end_ => if start = k then some end_ else none
  | _ => none

end Call

namespace Structures

/-- An interval of the tree. -/
def HasInterval (s : Structures) (k e : UInt64) : Prop := ∃ x ∈ inorder s.intervalTree, x.start = k ∧ x.end_ = e

/-- What the calls so far have left in the structures. -/
structure Reflects (s : Structures) (ts : List Nat) (us : Bucket → List Nat) (calls : List Call) : Prop where
  tasks : ts.map s.taskItem = calls.filterMap Call.task
  messages : s.msgQueue = (calls.filterMap Call.message).take queueSize
  users : ∀ b, (us b).map s.userEntry = (calls.filterMap (Call.user b)).reverse
  intervals : ∀ k e, s.HasInterval k e ↔ calls.findSome? (Call.interval k) = some e
  allocated : s.heap.allocated = calls.countP Call.allocates

/-- The calls have left the structures in order; so far only nodes of intervals that were there already were freed. -/
def Reached (s : Structures) (calls : List Call) (rets : List Int) : Prop :=
  ∃ ts us, s.Holds ts us ∧ s.Reflects ts us calls ∧ s.heap.freed.length = rets.count (-eExist)

end Structures

section Step

variable {s s' : Structures} {ts : List Nat} {us : Bucket → List Nat} {calls : List Call} {c : Call}

/-- A call that adds nothing to a list. -/
theorem filterMap_idle {α : Type} {f : Call → Option α} (hc : f c = none) :
    (calls ++ [c]).filterMap f = calls.filterMap f := by
  rw [System.filterMap_snoc, hc, Option.toList_none, List.append_nil]

theorem findSome?_idle {α : Type} {f : Call → Option α} (hc : f c = none) :
    (calls ++ [c]).findSome? f = calls.findSome? f := by rw [System.findSome?_snoc, hc, Option.or_none]

theorem reflects_idle (h : s.Reflects ts us calls) (htask : c.task = none) (hmessage : c.message = none)
    (huser : ∀ b, c.user b = none) (hinterval : ∀ k, c.interval k = none) (halloc : c.allocates = false) :
    s.Reflects ts us (calls ++ [c]) where
  tasks := h.tasks.trans (filterMap_idle htask).symm
  messages := h.messages.trans (by rw [filterMap_idle hmessage])
  users b := (h.users b).trans (by rw [filterMap_idle (huser b)])
  intervals k e := (h.intervals k e).trans (by rw [findSome?_idle (hinterval k)])
  allocated := by rw [System.countP_snoc, halloc, h.allocated]; rfl

/-- The contents of the nodes before are not those of the new node. -/
theorem map_update_new {α : Type} {as : List Nat} {f : Nat → α} {a : Nat} {x : α} (ha : a ∉ as) :
    as.map (Function.update f a x) = as.map f :=
  List.map_congr_left fun _ hy => Function.update_of_ne (ne_of_mem_of_not_mem hy ha) _ _

theorem reflects_addTask (hholds : s.Holds ts us) (h : s.Reflects ts us calls) (priority : Int32) (name : List UInt8) :
    (s.taskAdded priority name).Reflects (ts ++ [s.heap.allocated]) us (calls ++ [.addTask true priority name]) where
  tasks := by
    have hnew : s.heap.allocated ∉ ts := fun hmem => hholds.new_notMem (mem_owned.mpr (.inl hmem))
    rw [System.filterMap_snoc, List.map_append, ← h.tasks, Structures.taskAdded, map_update_new hnew]
    simp [Call.task]
  messages := h.messages.trans (by rw [filterMap_idle rfl])
  users b := (h.users b).trans (by rw [filterMap_idle rfl])
  intervals k e := (h.intervals k e).trans (by rw [findSome?_idle rfl])
  allocated := by
    rw [System.countP_snoc, ← h.allocated]
    rfl

theorem reflects_sendMessage (h : s.Reflects ts us calls) (id : Int32) (data : List UInt8) :
    ∃ ret s', s.sendMessage id data = some (ret, s') ∧ ret ≠ -eExist ∧
      s'.Reflects ts us (calls ++ [.sendMessage id data]) ∧ s' = { s with msgQueue := s'.msgQueue } := by
  have hlen : s.msgQueue.length = min queueSize (calls.filterMap Call.message).length := by
    rw [h.messages, List.length_take]
  -- the queue is full once it holds the first messages
  have hmessages : ∀ queue, queue = ((calls ++ [Call.sendMessage id data]).filterMap Call.message).take queueSize →
      ({ s with msgQueue := queue } : Structures).Reflects ts us (calls ++ [.sendMessage id data]) :=
        fun queue hqueue =>
    { tasks := h.tasks.trans (filterMap_idle rfl).symm
      messages := hqueue
      users := fun b => (h.users b).trans (by rw [filterMap_idle rfl])
      intervals := fun k e => (h.intervals k e).trans (by rw [findSome?_idle rfl])
      allocated := by
        rw [System.countP_snoc, h.allocated]
        rfl }
  by_cases hroom : s.msgQueue.length < queueSize
  · refine ⟨0, _, if_pos hroom, by decide, hmessages _ ?_, rfl⟩
    rw [System.filterMap_snoc, h.messages, List.take_of_length_le (by omega), List.take_of_length_le ?_]
    · rfl
    · rw [List.length_append]
      simp [Call.message]
      omega
  · refine ⟨-eNospc, s, if_neg hroom, by decide, ?_, rfl⟩
    refine hmessages s.msgQueue ?_
    rw [System.filterMap_snoc, List.take_append_of_le_length (by omega)]
    exact h.messages

theorem reflects_addUser (hholds : s.Holds ts us) (h : s.Reflects ts us calls) (userId : Int32) (name : List UInt8) :
    (s.userAdded userId name).Reflects ts
      (Function.update us (hashMin userId) (s.heap.allocated :: us (hashMin userId)))
      (calls ++ [.addUser true userId name]) where
  tasks := h.tasks.trans (filterMap_idle rfl).symm
  messages := h.messages.trans (by rw [filterMap_idle rfl])
  users b := by
    have hnew : s.heap.allocated ∉ us b := fun hmem => hholds.new_notMem (mem_owned.mpr (.inr (.inl ⟨b, hmem⟩)))
    rw [System.filterMap_snoc, List.reverse_append, ← h.users b, Structures.userAdded]
    by_cases hb : b = hashMin userId
    · subst hb
      rw [Function.update_self, List.map_cons, map_update_new hnew]
      simp [Call.user]
    · rw [Function.update_of_ne hb, map_update_new hnew]
      simp [Call.user, Ne.symm hb]
  intervals k e := (h.intervals k e).trans (by rw [findSome?_idle rfl])
  allocated := by
    rw [System.countP_snoc, ← h.allocated]
    rfl

/-- What `insert_interval` with memory does, if the intervals after it are as they should be. -/
theorem reflects_insertInterval (h : s.Reflects ts us calls) {color : Rebalance IntervalNode} {start end_ : UInt64}
    {heap : Heap} {tree : BinaryTree IntervalNode} (halloc : heap.allocated = s.heap.allocated + 1)
    (hintervals : ∀ k e, ({ s with heap := heap, intervalTree := tree } : Structures).HasInterval k e ↔
      (calls.findSome? (Call.interval k)).or (if start = k then some end_ else none) = some e) :
    ({ s with heap := heap, intervalTree := tree } : Structures).Reflects ts us
      (calls ++ [.insertInterval true color start end_]) where
  tasks := h.tasks.trans (filterMap_idle rfl).symm
  messages := h.messages.trans (by rw [filterMap_idle rfl])
  users b := (h.users b).trans (by rw [filterMap_idle rfl])
  intervals k e := by
    rw [System.findSome?_snoc, Call.interval]
    exact hintervals k e
  allocated := by
    rw [System.countP_snoc, ← h.allocated]
    exact halloc

theorem freed_snoc {rets : List Int} {ret : Int} {heap : Heap} (h : s.heap.freed.length = rets.count (-eExist))
    (hheap : heap.freed = s.heap.freed) (hret : ret ≠ -eExist) :
      heap.freed.length = (rets ++ [ret]).count (-eExist) := by
  have hnone : [ret].count (-eExist) = 0 := List.count_eq_zero.mpr (by simpa using hret.symm)
  rw [List.count_append, hnone, hheap]
  exact h

/-- `insert_interval`, whatever it is called with. -/
theorem insertInterval_spec {rets : List Int} (h : s.Reached calls rets) (ok : Bool) (color : Rebalance IntervalNode)
    (start end_ : UInt64) :
    ∃ ret s', s.insertInterval ok color start end_ = some (ret, s') ∧
      s'.Reached (calls ++ [.insertInterval ok color start end_]) (rets ++ [ret]) ∧
      (ret = -eExist ↔ ok = true ∧ ∃ x ∈ inorder s.intervalTree, x.start = start) ∧
      (ret ≠ 0 → s'.intervalTree = s.intervalTree) := by
  obtain ⟨ts, us, hholds, hreflects, hfreed⟩ := h
  cases ok with
  | false =>
    have hidle : s.Reflects ts us (calls ++ [.insertInterval false color start end_]) :=
      reflects_idle hreflects rfl rfl (fun _ => rfl) (fun _ => rfl) rfl
    exact ⟨-eNomem, s, rfl, ⟨ts, us, hholds, hidle, freed_snoc hfreed rfl (by decide)⟩, by simp [eNomem, eExist],
      fun _ => rfl⟩
  | true =>
    by_cases hstart : ∃ x ∈ inorder s.intervalTree, x.start = start
    · obtain ⟨heap, hcall, hholds', hfreed', halloc⟩ := hholds.insertInterval_taken color end_ hstart
      refine ⟨-eExist, _, hcall, ⟨ts, us, hholds', reflects_insertInterval hreflects halloc ?_, ?_⟩, by simp [hstart],
        fun _ => rfl⟩
      · intro k e
        refine (hreflects.intervals k e).trans ?_
        by_cases hk : start = k
        · -- an earlier call had this start
          obtain ⟨x, hx, hxs⟩ := hstart
          rw [(hreflects.intervals k x.end_).mp ⟨x, hx, hxs.trans hk, rfl⟩, Option.some_or]
        · rw [if_neg hk, Option.or_none]
      · rw [hfreed', List.length_append, List.count_append, hfreed]
        rfl
    · have hnew : ∀ x ∈ inorder s.intervalTree, x.start ≠ start := fun x hx hxs => hstart ⟨x, hx, hxs⟩
      obtain ⟨tree, l, r, hcall, hholds', hinorder, htree⟩ := hholds.insertInterval_free color end_ hnew
      refine ⟨0, _, hcall, ⟨ts, us, hholds', reflects_insertInterval hreflects rfl ?_,
        freed_snoc hfreed rfl (by decide)⟩, by simp [eExist, hstart], fun h => absurd rfl h⟩
      intro k e
      have hhas : ({ s with heap := s.heap.grow, intervalTree := tree } : Structures).HasInterval k e ↔
          (start = k ∧ end_ = e) ∨ s.HasInterval k e := by
        simp only [Structures.HasInterval, htree, hinorder, List.mem_append, List.mem_cons]
        constructor
        · rintro ⟨x, hx | rfl | hx, hk⟩
          · exact .inr ⟨x, .inl hx, hk⟩
          · exact .inl hk
          · exact .inr ⟨x, .inr hx, hk⟩
        · rintro (hk | ⟨x, hx | hx, hk⟩)
          · exact ⟨_, .inr (.inl rfl), hk⟩
          · exact ⟨x, .inl hx, hk⟩
          · exact ⟨x, .inr (.inr hx), hk⟩
      rw [hhas, hreflects.intervals]
      by_cases hk : start = k
      · have hnone : calls.findSome? (Call.interval k) = none := by
          refine Option.eq_none_iff_forall_ne_some.mpr fun e' he' => ?_
          obtain ⟨x, hx, hxs, -⟩ := (hreflects.intervals k e').mpr he'
          exact hnew x hx (hxs.trans hk.symm)
        simp [hnone, hk]
      · simp [hk]

/-- **Every call** succeeds without a fault and leaves the structures in order. -/
theorem step_spec {rets : List Int} (h : s.Reached calls rets) (c : Call) :
    ∃ ret s', s.step c = some (ret, s') ∧ s'.Reached (calls ++ [c]) (rets ++ [ret]) := by
  have hall := h
  obtain ⟨ts, us, hholds, hreflects, hfreed⟩ := h
  have hidle : ∀ c : Call, c.task = none → c.message = none → (∀ b, c.user b = none) → (∀ k, c.interval k = none) →
      c.allocates = false → s.Reached (calls ++ [c]) (rets ++ [-eNomem]) := fun c h₁ h₂ h₃ h₄ h₅ =>
    ⟨ts, us, hholds, reflects_idle hreflects h₁ h₂ h₃ h₄ h₅, freed_snoc hfreed rfl (by decide)⟩
  cases c with
  | addTask ok priority name =>
    cases ok with
    | false => exact ⟨-eNomem, s, rfl, hidle _ rfl rfl (fun _ => rfl) (fun _ => rfl) rfl⟩
    | true =>
      obtain ⟨hcall, hholds'⟩ := hholds.addTask priority name
      exact ⟨0, _, hcall, _, us, hholds', reflects_addTask hholds hreflects priority name,
        freed_snoc hfreed rfl (by decide)⟩
  | sendMessage id data =>
    obtain ⟨ret, s', hcall, hret, hreflects', hframe⟩ := reflects_sendMessage hreflects id data
    rw [hframe] at hcall hreflects'
    exact ⟨ret, _, hcall, ts, us, ⟨hholds.tasks, hholds.users, hholds.ordered, hholds.owns⟩, hreflects',
      freed_snoc hfreed rfl hret⟩
  | addUser ok userId name =>
    cases ok with
    | false => exact ⟨-eNomem, s, rfl, hidle _ rfl rfl (fun _ => rfl) (fun _ => rfl) rfl⟩
    | true =>
      obtain ⟨hcall, hholds'⟩ := hholds.addUser userId name
      exact ⟨0, _, hcall, ts, _, hholds', reflects_addUser hholds hreflects userId name,
        freed_snoc hfreed rfl (by decide)⟩
  | insertInterval ok color start end_ =>
    obtain ⟨ret, s', hcall, hreached, -, -⟩ := insertInterval_spec hall ok color start end_
    exact ⟨ret, s', hcall, hreached⟩

/-- **Every run** from the load of the module on goes through, and what is held is known from the calls. -/
theorem run_spec (memory : Structures) (calls : List Call) :
    ∃ rets s, memory.loaded.run calls = some (rets, s) ∧ s.Reached calls rets := by
  let I : List Call → List Int × Structures → Prop := fun left p => ∃ done, done ++ left = calls ∧ p.2.Reached done p.1
  have hinit : I calls ([], memory.loaded) := by
    refine ⟨[], rfl, [], fun _ => [], .loaded memory, ⟨rfl, rfl, fun _ => rfl, fun k e => ?_, rfl⟩, rfl⟩
    simp [Structures.HasInterval, Structures.loaded, inorder]
  have hbody : ∀ c left p, I (c :: left) p →
      ∃ p', ((p.2.step c).map fun q => (p.1 ++ [q.1], q.2)) = some p' ∧ I left p' := by
    rintro c left ⟨rets, s⟩ ⟨done, hdone, hreached⟩
    obtain ⟨ret, s', hstep, hreached'⟩ := step_spec hreached c
    refine ⟨(rets ++ [ret], s'), by rw [hstep]; rfl, done ++ [c], ?_, hreached'⟩
    rw [List.append_assoc, List.singleton_append, hdone]
  obtain ⟨⟨rets, s⟩, hrun, done, hdone, hreached⟩ := foldlM_invariant hbody calls _ hinit
  rw [List.append_nil] at hdone
  exact ⟨rets, s, hrun, hdone ▸ hreached⟩

end Step

/-! ## What is shown -/

section Show

variable {s : Structures} {ts : List Nat} {us : Bucket → List Nat} {m : Multiset Nat}

def taskLine (t : TaskItem) : List UInt8 × Int32 := (cstr t.name, t.priority)

def userLine (u : UserEntry) : Int32 × List UInt8 := (u.userId, cstr u.name)

def intervalLine (x : IntervalNode) : UInt64 × UInt64 := (x.start, x.end_)

theorem showTasks_spec (hm : s.heap.Owns m) : ∀ {p : Link} {as : List Nat}, s.taskList.Chain p as → (∀ a ∈ as, a ∈ m) →
    ∀ fuel, as.length < fuel →
      s.showTasks fuel (s.taskList.next p) = some (as.map fun a => taskLine (s.taskItem a))
  | p, [], hchain, _, fuel + 1, _ => by
    rw [hchain.1]
    rfl
  | p, a :: as, ⟨hnext, _, hchain⟩, hlive, fuel + 1, hfuel => by
    have hrest := showTasks_spec hm hchain (fun x hx => hlive x (List.mem_cons_of_mem a hx)) fuel
      (Nat.lt_of_succ_lt_succ hfuel)
    rw [hnext, Structures.showTasks, hm.access (hlive a List.mem_cons_self), hrest]
    rfl

theorem showBucket_spec (hm : s.heap.Owns m) : ∀ {q : Slot Bucket} {as : List Nat}, s.userTable.Chain q as →
    (∀ a ∈ as, a ∈ m) → ∀ fuel, as.length < fuel →
      s.showBucket fuel (s.userTable.read q) = some (as.map fun a => userLine (s.userEntry a))
  | q, [], hchain, _, fuel + 1, _ => by
    rw [show s.userTable.read q = none from hchain]
    rfl
  | q, a :: as, ⟨hread, _, hchain⟩, hlive, fuel + 1, hfuel => by
    have hrest := showBucket_spec hm hchain (fun x hx => hlive x (List.mem_cons_of_mem a hx)) fuel
      (Nat.lt_of_succ_lt_succ hfuel)
    rw [HashTable.read] at hrest
    rw [hread, Structures.showBucket, hm.access (hlive a List.mem_cons_self), hrest]
    rfl

/-- The walk over `rb_next`, from any node on. -/
theorem showIntervals_spec (haccess : accessTree s.heap s.intervalTree = some ())
    (hnodup : (inorder s.intervalTree).Nodup) :
    ∀ {l r : List IntervalNode}, inorder s.intervalTree = l ++ r → ∀ fuel, r.length < fuel →
      s.showIntervals fuel r.head? = some (r.map intervalLine)
  | l, [], _, fuel + 1, _ => rfl
  | l, x :: r, heq, fuel + 1, hfuel => by
    have hx : x ∉ l := fun hmem => by
      rw [heq, List.nodup_append] at hnodup
      exact hnodup.2.2 x hmem x List.mem_cons_self rfl
    have heq' : inorder s.intervalTree = l ++ [x] ++ r := by rw [heq, List.append_assoc, List.singleton_append]
    have hrest := showIntervals_spec haccess hnodup heq' fuel (Nat.lt_of_succ_lt_succ hfuel)
    rw [List.head?_cons, Structures.showIntervals, haccess]
    simp only [heq, successor_append hx, hrest, Option.bind_eq_bind, Option.bind_some]
    rfl

/-- **The file** shows what the three structures hold, the intervals in the order of the tree. -/
theorem dataStructuresShow_spec (h : s.Holds ts us) {fuel : Nat} (hfuel : s.heap.allocated < fuel) :
    s.dataStructuresShow fuel = some {
      tasks := ts.map fun a => taskLine (s.taskItem a)
      queue := (s.msgQueue.length, queueSize)
      users := (List.finRange _).flatMap fun b => (us b).map fun a => userLine (s.userEntry a)
      intervals := (inorder s.intervalTree).map intervalLine } := by
  obtain ⟨htasksLen, husersLen, htreeLen⟩ := h.lengths
  have htasks := showTasks_spec h.owns h.tasks.chain (fun a ha => mem_owned.mpr (.inl ha)) fuel (by omega)
  have hbucket : ∀ b, s.showBucket fuel (s.userTable.first b) =
      some ((us b).map fun a => userLine (s.userEntry a)) := by
    intro b
    have hlen := husersLen b
    exact showBucket_spec h.owns (h.users.chain b) (fun a ha => mem_owned.mpr (.inr (.inl ⟨b, ha⟩))) fuel (by omega)
  have husers : s.showUsers fuel = _ := foldlM_append_map hbucket (List.finRange _) []
  have hintervals := showIntervals_spec (accessTree_owned h.owns) h.ordered.nodup (List.nil_append _).symm fuel
    (by omega)
  rw [Structures.dataStructuresShow, htasks, husers, leftmost_eq_head, hintervals]
  rfl

/-- **What is shown of the calls**: the tasks in the order in which they were added, how many messages were queued, and
bucket by bucket the users, the last one first. -/
theorem dataStructuresShow_calls (memory : Structures) (calls : List Call) :
    ∃ rets s, memory.loaded.run calls = some (rets, s) ∧
      ∀ fuel > s.heap.allocated, ∃ shown, s.dataStructuresShow fuel = some shown ∧
        shown.tasks = (calls.filterMap Call.task).map taskLine ∧
        shown.queue = (min queueSize (calls.filterMap Call.message).length, queueSize) ∧
        shown.users = (List.finRange _).flatMap fun b => (calls.filterMap (Call.user b)).reverse.map userLine := by
  obtain ⟨rets, s, hrun, ts, us, hholds, hreflects, -⟩ := run_spec memory calls
  refine ⟨rets, s, hrun, fun fuel hfuel => ⟨_, dataStructuresShow_spec hholds hfuel, ?_, ?_, ?_⟩⟩
  · rw [← hreflects.tasks, List.map_map]
    rfl
  · rw [hreflects.messages, List.length_take]
  · simp only [← hreflects.users, List.map_map]
    rfl

end Show

/-- **The tree is a map** from starts to ends. After any calls, whichever allocations failed and however the tree was
rearranged, it is a search tree; the file lists the intervals with strictly increasing starts, for each start the first
interval that got memory and no other; and an insertion is refused with `-EEXIST` iff it gets memory and its start is
there. An insertion that fails leaves the tree as it was. -/
theorem interval_tree_ordered_map (memory : Structures) (calls : List Call) :
    ∃ rets s, memory.loaded.run calls = some (rets, s) ∧ Ordered startKey s.intervalTree ∧
      (∀ fuel > s.heap.allocated, ∃ shown, s.dataStructuresShow fuel = some shown ∧
        shown.intervals.Pairwise (fun x y => x.1 < y.1) ∧
        ∀ start end_, (start, end_) ∈ shown.intervals ↔ calls.findSome? (Call.interval start) = some end_) ∧
      ∀ ok color start end_, ∃ ret s', s.insertInterval ok color start end_ = some (ret, s') ∧
        (ret = -eExist ↔ ok = true ∧ ∃ e, calls.findSome? (Call.interval start) = some e) ∧
        (ret ≠ 0 → s'.intervalTree = s.intervalTree) := by
  obtain ⟨rets, s, hrun, hreached⟩ := run_spec memory calls
  have hall := hreached
  obtain ⟨ts, us, hholds, hreflects, -⟩ := hreached
  refine ⟨rets, s, hrun, hholds.ordered, fun fuel hfuel => ⟨_, dataStructuresShow_spec hholds hfuel, ?_, ?_⟩, ?_⟩
  · refine List.pairwise_map.mpr (((ordered_iff startKey _).mp hholds.ordered).imp fun hlt => ?_)
    exact UInt64.lt_iff_toNat_lt.mpr hlt
  · intro start end_
    rw [← hreflects.intervals, List.mem_map]
    simp [Structures.HasInterval, intervalLine]
  · intro ok color start end_
    obtain ⟨ret, s', hcall, -, hret, htree⟩ := insertInterval_spec hall ok color start end_
    refine ⟨ret, s', hcall, hret.trans (and_congr_right fun _ => ?_), htree⟩
    simp only [← hreflects.intervals, Structures.HasInterval]
    exact ⟨fun ⟨x, hx, hxs⟩ => ⟨x.end_, x, hx, hxs, rfl⟩, fun ⟨_, x, hx, hxs, _⟩ => ⟨x, hx, hxs⟩⟩

end KernelModules.DataStructures
