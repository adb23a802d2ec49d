import Mathlib.Algebra.Order.Group.Multiset
import Mathlib.Data.Multiset.Range

/-!
# Objects that are allocated and freed

Objects are numbered in the order of their allocation; a number is never used again, so two allocations are never
mistaken for one. An access to an object or its release is a fault (`none`) unless the object is live.

- `Heap.Owns h m`: the live objects are those of the multiset `m`. An allocation adds one, a release takes one away
  (`Owns.alloc`, `Owns.free`), and what is owned can be accessed (`Owns.access`);
- if a heap owns the same as before, exactly the new objects were freed (`Balanced`, `Owns.balanced`);
- a sequence or a loop that may fault does not, if its parts keep an invariant (`bind_invariant`, `foldlM_invariant`,
  `foldlM_range`).
-/

namespace KernelModules.Lib

universe u v

/-- The number of objects so far, and those that were freed, in their order. -/
structure Heap where
  allocated : Nat
  freed : List Nat
  nodup : freed.Nodup
  old : ∀ a ∈ freed, a < allocated

namespace Heap

/-- Nothing was allocated yet. -/
def empty : Heap := ⟨0, [], .nil, fun _ h => by cases h⟩

def Live (h : Heap) (a : Nat) : Prop := a < h.allocated ∧ a ∉ h.freed

instance (h : Heap) (a : Nat) : Decidable (h.Live a) := inferInstanceAs (Decidable (_ ∧ _))

/-- One more object. -/
def grow (h : Heap) : Heap := { h with
  allocated := h.allocated + 1
  old := fun a ha => Nat.lt_succ_of_lt (h.old a ha) }

/-- An allocation, which succeeds or not. -/
def alloc (h : Heap) (ok : Bool) : Option Nat × Heap := if ok then (some h.allocated, h.grow) else (none, h)

/-- Fields of an object are read or written. -/
def access (h : Heap) (a : Nat) : Option Unit := if h.Live a then some () else none

def accessAll (h : Heap) : List Nat → Option Unit
  | [] => some ()
  | a :: as => do
    h.access a
    h.accessAll as

def free (h : Heap) (a : Nat) : Option Heap :=
  if ha : h.Live a then
    some { h with
      freed := h.freed ++ [a]
      nodup := List.nodup_append.mpr ⟨h.nodup, List.nodup_singleton a, fun x hx y hy hxy =>
        ha.2 (by rw [← List.mem_singleton.mp hy, ← hxy]; exact hx)⟩
      old := fun x hx => (List.mem_append.mp hx).elim (h.old x) fun hx => List.mem_singleton.mp hx ▸ ha.1 }
  else none

/-! ## Ownership -/

/-- The live objects are those of the multiset. -/
def Owns (h : Heap) (m : Multiset Nat) : Prop := (h.freed : Multiset Nat) + m = Multiset.range h.allocated

theorem empty_owns : empty.Owns 0 := rfl

section Owns

variable {h : Heap} {m : Multiset Nat} {a : Nat}

/-- Every heap owns something. -/
theorem exists_owns (h : Heap) : ∃ m, h.Owns m := by
  have hle : (h.freed : Multiset Nat) ≤ Multiset.range h.allocated :=
    (Multiset.le_iff_subset (Multiset.coe_nodup.mpr h.nodup)).mpr fun a ha =>
      Multiset.mem_range.mpr (h.old a (Multiset.mem_coe.mp ha))
  obtain ⟨m, hm⟩ := Multiset.le_iff_exists_add.mp hle
  exact ⟨m, hm.symm⟩

theorem Owns.live (hm : h.Owns m) (ha : a ∈ m) : h.Live a := by
  have hlt : a ∈ Multiset.range h.allocated := hm ▸ Multiset.mem_add.mpr (.inr ha)
  have hdisjoint := (Multiset.nodup_add.mp (hm.symm ▸ Multiset.nodup_range h.allocated)).2.2
  refine ⟨Multiset.mem_range.mp hlt, fun hfreed => ?_⟩
  exact Multiset.disjoint_left.mp hdisjoint (Multiset.mem_coe.mpr hfreed) ha

theorem Owns.access (hm : h.Owns m) (ha : a ∈ m) : h.access a = some () := if_pos (hm.live ha)

theorem Owns.accessAll (hm : h.Owns m) : ∀ {as : List Nat}, (∀ a ∈ as, a ∈ m) → h.accessAll as = some ()
  | [], _ => rfl
  | a :: as, has => by
    rw [Heap.accessAll, hm.access (has a List.mem_cons_self)]
    exact hm.accessAll fun a ha => has a (List.mem_cons_of_mem _ ha)

theorem Owns.card_le (hm : h.Owns m) : m.card ≤ h.allocated := by
  have hcard := congrArg Multiset.card (hm : (h.freed : Multiset Nat) + m = Multiset.range h.allocated)
  rw [Multiset.card_add, Multiset.card_range] at hcard
  omega

/-- A new object is none of those before. -/
theorem Owns.lt (hm : h.Owns m) (ha : a ∈ m) : a < h.allocated := (hm.live ha).1

theorem Owns.alloc (hm : h.Owns m) : h.grow.Owns (h.allocated ::ₘ m) := by
  have hrange : (h.freed : Multiset Nat) + m = Multiset.range h.allocated := hm
  show (h.freed : Multiset Nat) + h.allocated ::ₘ m = Multiset.range (h.allocated + 1)
  rw [Multiset.range_succ, ← hrange, Multiset.add_cons]

/-- An owned object is freed once. -/
theorem Owns.free (hm : h.Owns (a ::ₘ m)) :
    ∃ h', h.free a = some h' ∧ h'.Owns m ∧ h'.freed = h.freed ++ [a] ∧ h'.allocated = h.allocated := by
  have hlive : h.Live a := hm.live (Multiset.mem_cons_self a m)
  refine ⟨_, dif_pos hlive, ?_, rfl, rfl⟩
  have hrange : (h.freed : Multiset Nat) + a ::ₘ m = Multiset.range h.allocated := hm
  show ((h.freed ++ [a] : List Nat) : Multiset Nat) + m = Multiset.range h.allocated
  rw [← hrange, ← Multiset.coe_add, Multiset.coe_singleton, add_assoc, Multiset.singleton_add]

/-- A heap that owns nothing has freed every object exactly once. -/
theorem Owns.perm_range (hm : h.Owns 0) : h.freed.Perm (List.range h.allocated) :=
  Multiset.coe_eq_coe.mp ((add_zero (h.freed : Multiset Nat)).symm.trans hm)

/-- Between two heaps objects were freed, and none was allocated. -/
def Released (h h' : Heap) : Prop := h'.allocated = h.allocated ∧ h.freed <+: h'.freed

theorem Released.refl (h : Heap) : h.Released h := ⟨rfl, List.prefix_refl _⟩

theorem Released.trans {h₁ h₂ : Heap} (hr : h.Released h₁) (hr' : h₁.Released h₂) : h.Released h₂ :=
  ⟨hr'.1.trans hr.1, hr.2.trans hr'.2⟩

theorem Owns.release (hm : h.Owns (a ::ₘ m)) : ∃ h', h.free a = some h' ∧ h'.Owns m ∧ h.Released h' := by
  obtain ⟨h', hfree, howns, hfreed, halloc⟩ := hm.free
  exact ⟨h', hfree, howns, halloc, hfreed ▸ List.prefix_append _ _⟩

/-- Between two heaps `k` objects were allocated, and exactly these were freed, each once. -/
def Balanced (h h' : Heap) (k : Nat) : Prop :=
  h'.allocated = h.allocated + k ∧ ∃ xs, h'.freed = h.freed ++ xs ∧ xs.Perm (List.range' h.allocated k)

theorem range_add_eq (n k : Nat) : Multiset.range (n + k) = Multiset.range n + (List.range' n k : Multiset Nat) := by
  have hrange : List.range (n + k) = List.range n ++ List.range' n k := by
    rw [List.range_add, List.range'_eq_map_range]
  exact congrArg _ hrange

theorem Owns.balanced {h' : Heap} {k : Nat} {xs : List Nat} (hm : h.Owns m) (hm' : h'.Owns m)
    (hfreed : h'.freed = h.freed ++ xs) (halloc : h'.allocated = h.allocated + k) : h.Balanced h' k := by
  refine ⟨halloc, xs, hfreed, Multiset.coe_eq_coe.mp ?_⟩
  have hafter : ((h.freed ++ xs : List Nat) : Multiset Nat) + m = Multiset.range (h.allocated + k) := by
    rw [← hfreed, ← halloc]
    exact hm'
  have hbefore : (h.freed : Multiset Nat) + m = Multiset.range h.allocated := hm
  rw [range_add_eq, ← hbefore, ← Multiset.coe_add, add_right_comm] at hafter
  exact add_left_cancel hafter

theorem Balanced.refl (h : Heap) : h.Balanced h 0 := ⟨rfl, [], (List.append_nil h.freed).symm, .nil⟩

/-- What was live before is live after. -/
theorem Balanced.owns {h' : Heap} {k : Nat} (hb : h.Balanced h' k) (hm : h.Owns m) : h'.Owns m := by
  obtain ⟨halloc, xs, hfreed, hperm⟩ := hb
  have hxs : (xs : Multiset Nat) = (List.range' h.allocated k : Multiset Nat) := Multiset.coe_eq_coe.mpr hperm
  have hbefore : (h.freed : Multiset Nat) + m = Multiset.range h.allocated := hm
  show (h'.freed : Multiset Nat) + m = Multiset.range h'.allocated
  rw [hfreed, halloc, range_add_eq, ← hbefore, ← Multiset.coe_add, hxs, add_right_comm]

theorem Balanced.trans {h₁ h₂ : Heap} {k k' : Nat} (hb : h.Balanced h₁ k) (hb' : h₁.Balanced h₂ k') :
    h.Balanced h₂ (k + k') := by
  obtain ⟨m, hm⟩ := h.exists_owns
  have howns := hb'.owns (hb.owns hm)
  obtain ⟨halloc, xs, hfreed, -⟩ := hb
  obtain ⟨halloc', ys, hfreed', -⟩ := hb'
  refine hm.balanced howns (?_ : h₂.freed = h.freed ++ (xs ++ ys)) ?_
  · rw [hfreed', hfreed, List.append_assoc]
  · rw [halloc', halloc, Nat.add_assoc]

end Owns

end Heap

/-! ## Sequences and loops -/

/-- **One part after another**: what the first gives is all that the second has to know. -/
theorem bind_invariant {σ τ : Type u} {x : Option σ} {f : σ → Option τ} {P : σ → Prop} {Q : τ → Prop}
    (hx : ∃ a, x = some a ∧ P a) (hf : ∀ a, P a → ∃ b, f a = some b ∧ Q b) : ∃ b, (x >>= f) = some b ∧ Q b := by
  obtain ⟨a, rfl, ha⟩ := hx
  exact hf a ha

/-- **Loops over a list.** The invariant speaks of what is left of the list. -/
theorem foldlM_invariant {σ : Type u} {β : Type v} {body : σ → β → Option σ} {I : List β → σ → Prop}
    (hbody : ∀ b bs s, I (b :: bs) s → ∃ s', body s b = some s' ∧ I bs s') :
    ∀ (bs : List β) (s : σ), I bs s → ∃ s', bs.foldlM body s = some s' ∧ I [] s'
  | [], s, hs => ⟨s, rfl, hs⟩
  | b :: bs, s, hs => by
    obtain ⟨s₁, hs₁, hI⟩ := hbody b bs s hs
    obtain ⟨s', hs', hI'⟩ := foldlM_invariant hbody bs s₁ hI
    refine ⟨s', ?_, hI'⟩
    rw [List.foldlM_cons, hs₁]
    exact hs'

/-- **Counting loops**: `for (i = 0; i < n; i++)`. -/
theorem foldlM_range {σ : Type u} {body : σ → Nat → Option σ} {I : Nat → σ → Prop} {n : Nat}
    (hbody : ∀ i < n, ∀ s, I i s → ∃ s', body s i = some s' ∧ I (i + 1) s') {s : σ} (hs : I 0 s) :
    ∃ s', (List.range n).foldlM body s = some s' ∧ I n s' := by
  induction n with
  | zero => exact ⟨s, rfl, hs⟩
  | succ n ih =>
    obtain ⟨s₁, hs₁, hI⟩ := ih fun i hi => hbody i (Nat.lt_succ_of_lt hi)
    obtain ⟨s', hs', hI'⟩ := hbody n (Nat.lt_succ_self n) s₁ hI
    refine ⟨s', ?_, hI'⟩
    rw [List.range_succ, List.foldlM_append, hs₁, Option.bind_eq_bind, Option.bind_some, List.foldlM_cons, hs']
    rfl

/-- A loop that appends what each round gives. -/
theorem foldlM_append_map {α : Type v} {β : Type u} {f : α → Option (List β)} {g : α → List β}
    (hf : ∀ a, f a = some (g a)) : ∀ (as : List α) (acc : List β),
      as.foldlM (fun acc a => (f a).map (acc ++ ·)) acc = some (acc ++ as.flatMap g)
  | [], acc => by simp
  | a :: as, acc => by
    rw [List.foldlM_cons, hf, Option.map_some, Option.bind_eq_bind, Option.bind_some, foldlM_append_map hf,
      List.flatMap_cons, List.append_assoc]

end KernelModules.Lib
