import Mathlib.Algebra.BigOperators.Group.Finset.Basic
import Mathlib.Data.List.Nodup
import KernelModules.Lib.Heap

/-!
# Linked lists in memory

Objects carry the pointers of the lists they are in. `Ring` is the memory of a circular doubly linked list with a static
head, `HashTable` that of an array of chains, each node pointing back to the pointer that points to it. The operations
follow every pointer through the heap, so a pointer to an object that was freed, or a poisoned one, is a fault.

- `Ring.Holds r as`, `HashTable.Holds t us`: the lists that the memory represents;
- adding a node (`Ring.Holds.linkTail`, `HashTable.Holds.linkHead`) and taking the first one out
  (`Ring.Holds.unlink_first`, `HashTable.Holds.unlink_first`); what follows the first node is where the list begins
  then.
-/

namespace KernelModules.Lib

/-! ## Circular lists -/

/-- A pointer to the list head of the list or of an object, or `LIST_POISON`. -/
inductive Link
  | head
  | node (a : Nat)
  | poison
deriving DecidableEq, Repr

/-- What a pointer points to is accessed. -/
def Heap.accessLink (h : Heap) : Link → Option Unit
  | .head => some ()
  | .node a => h.access a
  | .poison => none

/-- `next` and `prev` of the list heads in memory. -/
structure Ring where
  next : Link → Link
  prev : Link → Link

namespace Ring

def setNext (r : Ring) (p q : Link) : Ring := { r with next := Function.update r.next p q }

def setPrev (r : Ring) (p q : Link) : Ring := { r with prev := Function.update r.prev p q }

/-- The assignments of `list_add_tail`. -/
def linkTail (r : Ring) (new : Nat) : Ring :=
  (((r.setPrev .head (.node new)).setNext (.node new) .head).setPrev (.node new) (r.prev .head)).setNext (r.prev .head)
    (.node new)

/-- The assignments of `list_del`. -/
def unlink (r : Ring) (a : Nat) : Ring :=
  (((r.setPrev (r.next (.node a)) (r.prev (.node a))).setNext (r.prev (.node a)) (r.next (.node a))).setNext (.node a)
    .poison).setPrev (.node a) .poison

/-- `list_add_tail`: the last node and the new one are written. -/
def listAddTail (h : Heap) (r : Ring) (new : Nat) : Option Ring := do
  h.accessLink (r.prev .head)
  h.access new
  some (r.linkTail new)

/-- `list_del`: the node is read and its neighbours are written. -/
def listDel (h : Heap) (r : Ring) (a : Nat) : Option Ring := do
  h.access a
  h.accessLink (r.prev (.node a))
  h.accessLink (r.next (.node a))
  some (r.unlink a)

/-- From a list head through the given nodes back to the head of the list. -/
def Chain (r : Ring) (p : Link) : List Nat → Prop
  | [] => r.next p = .head ∧ r.prev .head = p
  | a :: as => r.next p = .node a ∧ r.prev (.node a) = p ∧ r.Chain (.node a) as

/-- The memory represents the list. -/
structure Holds (r : Ring) (as : List Nat) : Prop where
  nodup : as.Nodup
  chain : r.Chain .head as

section Chain

variable {r r' : Ring} {p : Link} {a new : Nat} {as : List Nat}

/-- Only the pointers along the chain matter. -/
theorem Chain.congr : ∀ {p : Link} {as : List Nat}, (∀ q ∈ p :: as.map .node, r'.next q = r.next q) →
    (∀ q ∈ .head :: as.map .node, r'.prev q = r.prev q) → r.Chain p as → r'.Chain p as
  | p, [], hnext, hprev, h => ⟨(hnext p List.mem_cons_self).trans h.1, (hprev .head List.mem_cons_self).trans h.2⟩
  | p, a :: as, hnext, hprev, ⟨h₁, h₂, h⟩ => by
    refine ⟨(hnext p List.mem_cons_self).trans h₁, (hprev (.node a) (by simp)).trans h₂, ?_⟩
    refine h.congr (fun q hq => hnext q (List.mem_cons_of_mem _ hq)) fun q hq => hprev q ?_
    rcases List.mem_cons.mp hq with rfl | hq
    · exact List.mem_cons_self
    · exact List.mem_cons_of_mem _ (List.mem_cons_of_mem _ hq)

/-- The head of the list points back to the last node. -/
theorem Chain.last : ∀ {p : Link} {as : List Nat}, r.Chain p as → r.prev .head ∈ p :: as.map .node
  | _, [], h => List.mem_cons.mpr (.inl h.2)
  | _, _ :: _, ⟨_, _, h⟩ => List.mem_cons_of_mem _ h.last

theorem Chain.linkTail : ∀ {p : Link} {as : List Nat}, p ≠ .node new → new ∉ as → (p :: as.map .node).Nodup →
    r.Chain p as → (r.linkTail new).Chain p (as ++ [new])
  | p, [], hp, _, _, ⟨_, hlast⟩ => by
    simp [Ring.linkTail, Chain, setNext, setPrev, hlast, Ne.symm hp]
  | p, a :: as, hp, hnew, hnodup, ⟨h₁, h₂, h⟩ => by
    -- the last node is behind `p`, so the pointer of `p` stays
    have hnot : p ≠ r.prev .head := fun heq => (List.nodup_cons.mp hnodup).1 (heq ▸ h.last)
    have ha : a ≠ new := fun heq => hnew (heq ▸ List.mem_cons_self)
    refine ⟨?_, ?_, h.linkTail (by simpa using ha) (fun h => hnew (List.mem_cons_of_mem _ h)) hnodup.of_cons⟩
    · simp [Ring.linkTail, setNext, setPrev, Function.update_of_ne hnot, Function.update_of_ne hp, h₁]
    · simp [Ring.linkTail, setNext, setPrev, ha, h₂]

theorem nodup_links (h : as.Nodup) : (Link.head :: as.map .node).Nodup := by
  refine List.nodup_cons.mpr ⟨by simp, h.map fun _ _ h => Link.node.inj h⟩

/-- **A node is added** at the end. -/
theorem Holds.linkTail (h : r.Holds as) (hnew : new ∉ as) : (r.linkTail new).Holds (as ++ [new]) where
  nodup := List.nodup_append.mpr ⟨h.nodup, List.nodup_singleton new, fun x hx y hy hxy =>
    hnew (by rw [← List.mem_singleton.mp hy, ← hxy]; exact hx)⟩
  chain := h.chain.linkTail (by simp) hnew (nodup_links h.nodup)

/-- **The first node is taken out.** -/
theorem Holds.unlink_first (h : r.Holds (a :: as)) :
    (r.unlink a).Holds as ∧ (r.unlink a).next .head = r.next (.node a) := by
  obtain ⟨hnodup, h₁, h₂, h⟩ := h
  have hnext : (r.unlink a).next .head = r.next (.node a) := by simp [Ring.unlink, setNext, setPrev, h₂]
  refine ⟨⟨hnodup.of_cons, ?_⟩, hnext⟩
  cases as with
  | nil =>
    obtain ⟨h₃, h₄⟩ := h
    exact ⟨hnext.trans h₃, by simp [Ring.unlink, setNext, setPrev, h₂, h₃]⟩
  | cons b as =>
    obtain ⟨h₃, h₄, h⟩ := h
    have hab : b ≠ a := fun heq => (List.nodup_cons.mp hnodup).1 (heq ▸ List.mem_cons_self)
    have hb := (List.nodup_cons.mp hnodup.of_cons).1
    have has : a ∉ as := fun ha => (List.nodup_cons.mp hnodup).1 (List.mem_cons_of_mem _ ha)
    refine ⟨hnext.trans h₃, by simp [Ring.unlink, setNext, setPrev, h₂, h₃, hab], h.congr ?_ ?_⟩
    · intro q hq
      have hqa : q ≠ .node a := by
        rintro rfl
        simp [hab.symm, has] at hq
      have hqh : q ≠ .head := by
        rintro rfl
        simp at hq
      simp [Ring.unlink, setNext, setPrev, h₂, hqa, hqh]
    · intro q hq
      have hqa : q ≠ .node a := by
        rintro rfl
        simp [has] at hq
      have hqb : q ≠ .node b := by
        rintro rfl
        simp [hb] at hq
      simp [Ring.unlink, setNext, setPrev, h₃, hqa, hqb]

end Chain

/-! The pointers that the operations follow are live, if the heap owns the nodes. -/

section Checked

variable {h : Heap} {m : Multiset Nat} {r : Ring} {a new : Nat} {as : List Nat}

theorem accessLink_of_mem (hm : h.Owns m) (has : ∀ x ∈ as, x ∈ m) {p : Link} (hp : p ∈ .head :: as.map .node) :
    h.accessLink p = some () := by
  rcases List.mem_cons.mp hp with rfl | hp
  · rfl
  · obtain ⟨x, hx, rfl⟩ := List.mem_map.mp hp
    exact hm.access (has x hx)

theorem Holds.listAddTail (hr : r.Holds as) (hm : h.Owns m) (has : ∀ x ∈ as, x ∈ m) (hnew : new ∈ m) :
    listAddTail h r new = some (r.linkTail new) := by
  rw [Ring.listAddTail, accessLink_of_mem hm has hr.chain.last, hm.access hnew]
  rfl

/-- Where the first pointer of a chain leads. -/
theorem Chain.next_mem {p : Link} (hr : r.Chain p as) : r.next p ∈ .head :: as.map .node := by
  cases as with
  | nil => simp [hr.1]
  | cons b as => simp [hr.1]

theorem Holds.next_head (hr : r.Holds as) : r.next .head ∈ .head :: as.map .node := hr.chain.next_mem

/-- What follows the first node. -/
theorem Holds.next_first (hr : r.Holds (a :: as)) : r.next (.node a) ∈ .head :: as.map .node := hr.chain.2.2.next_mem

theorem Holds.listDel (hr : r.Holds (a :: as)) (hm : h.Owns m) (has : ∀ x ∈ a :: as, x ∈ m) :
    listDel h r a = some (r.unlink a) := by
  have hprev : r.prev (.node a) = .head := hr.chain.2.1
  have hnext := accessLink_of_mem hm (fun x hx => has x (List.mem_cons_of_mem a hx)) hr.next_first
  rw [Ring.listDel, hm.access (has a List.mem_cons_self), hprev, hnext]
  rfl

end Checked

end Ring

/-! ## Chains with back pointers -/

/-- A pointer that points to a node: the start of a chain, or `next` of a node. -/
inductive Slot (β : Type)
  | first (b : β)
  | next (a : Nat)

/-- The table, and `next` and `pprev` of the nodes in memory. -/
structure HashTable (β : Type) where
  first : β → Option Nat
  next : Nat → Option Nat
  pprev : Nat → Option (Slot β)

namespace HashTable

variable {β : Type}

def read (t : HashTable β) : Slot β → Option Nat
  | .first b => t.first b
  | .next a => t.next a

/-- From a pointer through the given nodes to `NULL`. -/
def Chain (t : HashTable β) (s : Slot β) : List Nat → Prop
  | [] => t.read s = none
  | a :: as => t.read s = some a ∧ t.pprev a = some s ∧ t.Chain (.next a) as

/-- The memory represents the lists, which have no node in common. -/
structure Holds (t : HashTable β) (us : β → List Nat) : Prop where
  nodup : ∀ b, (us b).Nodup
  disjoint : ∀ b b', b ≠ b' → (us b).Disjoint (us b')
  chain : ∀ b, t.Chain (.first b) (us b)

/-- Only the pointers along the chain matter. -/
theorem Chain.congr {t t' : HashTable β} : ∀ {s : Slot β} {as : List Nat}, t'.read s = t.read s →
    (∀ a ∈ as, t'.next a = t.next a ∧ t'.pprev a = t.pprev a) → t.Chain s as → t'.Chain s as
  | _, [], hs, _, h => hs.trans h
  | _, a :: _, hs, has, ⟨h₁, h₂, h⟩ =>
    ⟨hs.trans h₁, (has a List.mem_cons_self).2.trans h₂,
      h.congr (has a List.mem_cons_self).1 fun x hx => has x (List.mem_cons_of_mem _ hx)⟩

section Reads

variable {t : HashTable β} {us : β → List Nat} {b : β} {a : Nat} {as : List Nat}

/-- Where a pointer of a chain leads. -/
theorem Chain.read_eq_head {s : Slot β} (h : t.Chain s as) : t.read s = as.head? := by
  cases as with
  | nil => exact h
  | cons a as => exact h.1

theorem Holds.first_eq (ht : t.Holds us) (b : β) : t.first b = (us b).head? := (ht.chain b).read_eq_head

/-- What follows the first node. -/
theorem Holds.next_first (ht : t.Holds us) (hb : us b = a :: as) : t.next a = as.head? := by
  obtain ⟨-, -, hrest⟩ := hb ▸ ht.chain b
  exact hrest.read_eq_head

/-- All nodes, with their multiplicity. -/
def nodes [Fintype β] (us : β → List Nat) : Multiset Nat := ∑ b, (us b : Multiset Nat)

theorem mem_nodes [Fintype β] : a ∈ nodes us ↔ ∃ b, a ∈ us b := by simp [nodes, Multiset.mem_sum]

end Reads

variable [DecidableEq β]

def write (t : HashTable β) (s : Slot β) (a : Option Nat) : HashTable β :=
  match s with
  | .first b => { t with first := Function.update t.first b a }
  | .next x => { t with next := Function.update t.next x a }

/-- `pprev` of a node, if there is one. -/
def setPprev (t : HashTable β) (a : Option Nat) (s : Option (Slot β)) : HashTable β :=
  match a with
  | none => t
  | some a => { t with pprev := Function.update t.pprev a s }

/-- The assignments of `hlist_add_head`. -/
def linkHead (t : HashTable β) (b : β) (new : Nat) : HashTable β :=
  (((t.write (.next new) (t.first b)).setPprev (t.first b) (some (.next new))).write (.first b) (some new)).setPprev
    (some new) (some (.first b))

/-- The assignments of `hlist_del_init`, for a node that points back to a pointer. -/
def unlink (t : HashTable β) (a : Nat) (s : Slot β) : HashTable β :=
  (((t.write s (t.next a)).setPprev (t.next a) (some s)).write (.next a) none).setPprev (some a) none

/-- The node in which a pointer lies is accessed. -/
def accessSlot (h : Heap) : Slot β → Option Unit
  | .first _ => some ()
  | .next a => h.access a

/-- `hash_add`: the new node and the first one are written. -/
def hashAdd (h : Heap) (t : HashTable β) (b : β) (new : Nat) : Option (HashTable β) := do
  h.access new
  h.accessAll (t.first b).toList
  some (t.linkHead b new)

/-- `hash_del`: nothing is done for a node that is in no chain. -/
def hashDel (h : Heap) (t : HashTable β) (a : Nat) : Option (HashTable β) := do
  h.access a
  match t.pprev a with
  | none => some t
  | some s => do
    accessSlot h s
    h.accessAll (t.next a).toList
    some (t.unlink a s)

section Holds

variable {t : HashTable β} {us : β → List Nat} {b : β} {a new : Nat} {as : List Nat}

/-- One chain is replaced, and the others are left alone. -/
theorem Holds.replace {t' : HashTable β} (h : t.Holds us) (hnodup : as.Nodup)
    (hdisjoint : ∀ b', b' ≠ b → as.Disjoint (us b')) (hchain : t'.Chain (.first b) as)
    (hframe : ∀ b', b' ≠ b → t'.first b' = t.first b' ∧ ∀ y ∈ us b', t'.next y = t.next y ∧ t'.pprev y = t.pprev y) :
    t'.Holds (Function.update us b as) where
  nodup b' := by
    by_cases hb : b' = b
    · rw [hb, Function.update_self]
      exact hnodup
    · rw [Function.update_of_ne hb]
      exact h.nodup b'
  disjoint b₁ b₂ hne := by
    by_cases h₁ : b₁ = b
    · subst h₁
      rw [Function.update_self, Function.update_of_ne (Ne.symm hne)]
      exact hdisjoint b₂ (Ne.symm hne)
    · rw [Function.update_of_ne h₁]
      by_cases h₂ : b₂ = b
      · subst h₂
        rw [Function.update_self]
        exact (hdisjoint b₁ hne).symm
      · rw [Function.update_of_ne h₂]
        exact h.disjoint b₁ b₂ hne
  chain b' := by
    by_cases hb : b' = b
    · subst hb
      rw [Function.update_self]
      exact hchain
    · rw [Function.update_of_ne hb]
      exact (h.chain b').congr (hframe b' hb).1 (hframe b' hb).2

theorem linkHead_first (t : HashTable β) (b : β) (new : Nat) :
    (t.linkHead b new).first = Function.update t.first b (some new) := by
  cases hb : t.first b <;> simp [linkHead, write, setPprev, hb]

theorem linkHead_next (t : HashTable β) (b : β) (new : Nat) :
    (t.linkHead b new).next = Function.update t.next new (t.first b) := by
  cases hb : t.first b <;> simp [linkHead, write, setPprev, hb]

theorem linkHead_pprev_of_ne (hnew : a ≠ new) (hfirst : t.first b ≠ some a) :
    (t.linkHead b new).pprev a = t.pprev a := by
  cases hb : t.first b with
  | none => simp [linkHead, write, setPprev, hb, hnew]
  | some x =>
    have hax : a ≠ x := fun heq => hfirst (heq ▸ hb)
    simp [linkHead, write, setPprev, hb, hnew, hax]

/-- **A node is added** at the start of a chain. -/
theorem Holds.linkHead (h : t.Holds us) (hnew : ∀ b, new ∉ us b) :
    (t.linkHead b new).Holds (Function.update us b (new :: us b)) := by
  have hfirst := h.first_eq b
  have hnot := hnew b
  have hnodup := List.nodup_cons.mpr ⟨hnot, h.nodup b⟩
  have hdisjoint : ∀ b', b' ≠ b → (new :: us b).Disjoint (us b') := fun b' hb' =>
    List.disjoint_cons_left.mpr ⟨hnew b', h.disjoint b b' (Ne.symm hb')⟩
  refine h.replace hnodup hdisjoint ⟨?_, ?_, ?_⟩ fun b' hb' => ⟨by simp [linkHead_first, hb'], fun y hy => ?_⟩
  · simp [read, linkHead_first]
  · simp [HashTable.linkHead, setPprev]
  · have hnext : (t.linkHead b new).read (.next new) = t.first b := by simp [read, linkHead_next]
    have hchain := h.chain b
    cases hus : us b with
    | nil => rw [hus] at hfirst; exact hnext.trans hfirst
    | cons x xs =>
      rw [hus] at hfirst hchain hnodup hnot
      obtain ⟨hx, hxs⟩ := not_or.mp (List.mem_cons.not.mp hnot)
      refine ⟨hnext.trans hfirst, ?_, hchain.2.2.congr ?_ fun y hy => ⟨?_, linkHead_pprev_of_ne ?_ ?_⟩⟩
      · simp [HashTable.linkHead, write, setPprev, hfirst, Ne.symm hx]
      · simp [read, linkHead_next, Ne.symm hx]
      · simp [linkHead_next, ne_of_mem_of_not_mem hy hxs]
      · exact ne_of_mem_of_not_mem hy hxs
      · rw [hfirst]
        exact fun heq => (List.nodup_cons.mp hnodup.of_cons).1 (Option.some.inj heq ▸ hy)
  · have hy' : y ≠ new := ne_of_mem_of_not_mem hy (hnew b')
    refine ⟨by simp [linkHead_next, hy'], linkHead_pprev_of_ne hy' fun heq => ?_⟩
    -- a node of another chain is not the first one of this chain
    rw [hfirst] at heq
    exact h.disjoint b b' (Ne.symm hb') (List.mem_of_mem_head? (Option.mem_def.mpr heq)) hy

theorem unlink_first_eq (t : HashTable β) (a : Nat) (b : β) :
    (t.unlink a (.first b)).first = Function.update t.first b (t.next a) := by
  cases ha : t.next a <;> simp [unlink, write, setPprev, ha]

theorem unlink_next_eq (t : HashTable β) (a : Nat) (b : β) :
    (t.unlink a (.first b)).next = Function.update t.next a none := by
  cases ha : t.next a <;> simp [unlink, write, setPprev, ha]

theorem unlink_pprev_of_ne {x : Nat} (hx : x ≠ a) (hnext : t.next a ≠ some x) :
    (t.unlink a (.first b)).pprev x = t.pprev x := by
  cases ha : t.next a with
  | none => simp [unlink, write, setPprev, ha, hx]
  | some y =>
    have hxy : x ≠ y := fun heq => hnext (heq ▸ ha)
    simp [unlink, write, setPprev, ha, hx, hxy]

/-- **The first node is taken out** of a chain. -/
theorem Holds.unlink_first (h : t.Holds us) (hb : us b = a :: as) :
    (t.unlink a (.first b)).Holds (Function.update us b as) ∧ (t.unlink a (.first b)).first b = t.next a := by
  obtain ⟨_, _, hrest⟩ := hb ▸ h.chain b
  obtain ⟨hnot, hnodup⟩ := List.nodup_cons.mp (hb ▸ h.nodup b)
  have hfirst : (t.unlink a (.first b)).first b = t.next a := by simp [unlink_first_eq]
  have hnext : t.next a = as.head? := h.next_first hb
  have hother : ∀ b', b' ≠ b → (a :: as).Disjoint (us b') := fun b' hb' => hb ▸ h.disjoint b b' (Ne.symm hb')
  have hdisjoint : ∀ b', b' ≠ b → as.Disjoint (us b') := fun b' hb' => (List.disjoint_cons_left.mp (hother b' hb')).2
  refine ⟨h.replace hnodup hdisjoint ?_ fun b' hb' => ⟨by simp [unlink_first_eq, hb'], fun y hy => ?_⟩, hfirst⟩
  · cases as with
    | nil => exact hfirst.trans hnext
    | cons x xs =>
      -- the second node is where the chain begins now
      obtain ⟨hx, hxs⟩ := not_or.mp (List.mem_cons.not.mp hnot)
      refine ⟨hfirst.trans hnext, ?_, hrest.2.2.congr ?_ fun y hy => ⟨?_, unlink_pprev_of_ne ?_ ?_⟩⟩
      · simp [unlink, write, setPprev, show t.next a = some x from hnext, Ne.symm hx]
      · simp [read, unlink_next_eq, Ne.symm hx]
      · simp [unlink_next_eq, ne_of_mem_of_not_mem hy hxs]
      · exact ne_of_mem_of_not_mem hy hxs
      · rw [hnext]
        exact fun heq => (List.nodup_cons.mp hnodup).1 (Option.some.inj heq ▸ hy)
  · have hy' : y ≠ a := fun heq => hother b' hb' List.mem_cons_self (heq ▸ hy)
    refine ⟨by simp [unlink_next_eq, hy'], unlink_pprev_of_ne hy' fun heq => ?_⟩
    rw [hnext] at heq
    exact hdisjoint b' hb' (List.mem_of_mem_head? (Option.mem_def.mpr heq)) hy

end Holds

section Checked

variable {h : Heap} {m : Multiset Nat} {t : HashTable β} {us : β → List Nat} {b : β} {a new : Nat} {as : List Nat}

theorem Holds.hashAdd (ht : t.Holds us) (hm : h.Owns m) (hus : ∀ x ∈ us b, x ∈ m) (hnew : new ∈ m) :
    hashAdd h t b new = some (t.linkHead b new) := by
  have hfirst : ∀ x ∈ (t.first b).toList, x ∈ m := fun x hx => by
    rw [ht.first_eq b, Option.mem_toList] at hx
    exact hus x (List.mem_of_mem_head? hx)
  rw [HashTable.hashAdd, hm.access hnew, hm.accessAll hfirst]
  rfl

theorem Holds.hashDel (ht : t.Holds us) (hb : us b = a :: as) (hm : h.Owns m) (has : ∀ x ∈ a :: as, x ∈ m) :
    hashDel h t a = some (t.unlink a (.first b)) := by
  obtain ⟨-, hpprev, -⟩ := hb ▸ ht.chain b
  have hnext : ∀ x ∈ (t.next a).toList, x ∈ m := fun x hx => by
    rw [ht.next_first hb, Option.mem_toList] at hx
    exact has x (List.mem_cons_of_mem a (List.mem_of_mem_head? hx))
  rw [HashTable.hashDel, hm.access (has a List.mem_cons_self), hpprev]
  show (h.accessAll (t.next a).toList).bind _ = _
  rw [hm.accessAll hnext]
  rfl

end Checked

/-! ## The nodes of a table -/

section Nodes

variable [Fintype β] {us : β → List Nat} {b : β} {a : Nat} {as : List Nat}

theorem nodes_update (us : β → List Nat) (b : β) (as : List Nat) :
    nodes (Function.update us b as) = as + ∑ x ∈ Finset.univ.erase b, (us x : Multiset Nat) := by
  rw [nodes, ← Finset.add_sum_erase _ _ (Finset.mem_univ b), Function.update_self]
  refine congrArg _ (Finset.sum_congr rfl fun x hx => ?_)
  rw [Function.update_of_ne (Finset.ne_of_mem_erase hx)]

theorem nodes_eq (us : β → List Nat) (b : β) :
    nodes us = us b + ∑ x ∈ Finset.univ.erase b, (us x : Multiset Nat) := by
  rw [← nodes_update, Function.update_eq_self]

theorem nodes_update_cons (us : β → List Nat) (b : β) (a : Nat) :
    nodes (Function.update us b (a :: us b)) = a ::ₘ nodes us := by
  rw [nodes_update, nodes_eq us b, ← Multiset.cons_coe, Multiset.cons_add]

theorem length_le_card_nodes (us : β → List Nat) (b : β) : (us b).length ≤ (nodes us).card := by
  rw [nodes_eq us b, Multiset.card_add, Multiset.coe_card]
  exact Nat.le_add_right _ _

/-- A node more at the start of a chain. -/
theorem nodes_eq_cons (hb : us b = a :: as) : nodes us = a ::ₘ nodes (Function.update us b as) := by
  have h := nodes_update_cons (Function.update us b as) b a
  rwa [Function.update_self, Function.update_idem, ← hb, Function.update_eq_self] at h

end Nodes

end HashTable

end KernelModules.Lib
