import Mathlib.Data.Tree.Basic
import Mathlib.Order.Lattice

/-!
# Binary search trees

What a tree means is the sequence of its values from left to right (`inorder`). A link of a tree is given by the frames
from it up to the root; a tree put in its place stands between what is before and behind the link (`inorder_plug`).

- a tree is ordered iff its sequence is strictly increasing (`ordered_iff`), so rearranging a tree keeps it ordered;
- the link at which a search for a key ends splits the sequence at that key (`Splits.left`, `Splits.right`), so a new
  value can be put there (`Splits.pairwise_insert`);
- `Rebalance` and `Erasure` are the operations of which nothing is known but what they do to the sequence.
-/

namespace KernelModules.Lib

universe u v

section Sequence

variable {α : Type u}

/-- The values of a tree from left to right. -/
def inorder : BinaryTree α → List α
  | .nil => []
  | .node a l r => inorder l ++ a :: inorder r

/-- The value reached by going left as long as possible. -/
def leftmost : BinaryTree α → Option α
  | .nil => none
  | .node a l _ => (leftmost l).or (some a)

theorem leftmost_eq_head : ∀ t : BinaryTree α, leftmost t = (inorder t).head?
  | .nil => rfl
  | .node a l r => by
    rw [leftmost, leftmost_eq_head l, inorder, List.head?_append, List.head?_cons]

theorem eq_nil_of_inorder {t : BinaryTree α} (h : inorder t = []) : t = .nil := by
  cases t with
  | nil => rfl
  | node a l r => simp [inorder] at h

/-- The value that follows a value of a sequence. -/
def successor [DecidableEq α] (a : α) : List α → Option α
  | [] => none
  | x :: xs => if x = a then xs.head? else successor a xs

theorem successor_append [DecidableEq α] {a : α} {r : List α} :
    ∀ {l : List α}, a ∉ l → successor a (l ++ a :: r) = r.head?
  | [], _ => if_pos rfl
  | x :: l, h => by
    have hx : x ≠ a := fun heq => h (heq ▸ List.mem_cons_self)
    rw [List.cons_append, successor, if_neg hx]
    exact successor_append fun ha => h (List.mem_cons_of_mem x ha)

end Sequence

/-! ## Links -/

section Links

variable {α : Type u}

/-- The node a link lies in, with the subtree on its other side. -/
inductive Frame (α : Type u)
  | left (value : α) (right : BinaryTree α)
  | right (value : α) (left : BinaryTree α)

namespace Frame

def value : Frame α → α
  | .left a _ => a
  | .right a _ => a

def fill : Frame α → BinaryTree α → BinaryTree α
  | .left a r, t => .node a t r
  | .right a l, t => .node a l t

end Frame

/-- The tree with `t` at the link. -/
def plug : List (Frame α) → BinaryTree α → BinaryTree α
  | [], t => t
  | f :: fs, t => plug fs (f.fill t)

/-- The values to the left of a link. -/
def before : List (Frame α) → List α
  | [] => []
  | .left _ _ :: fs => before fs
  | .right a l :: fs => before fs ++ (inorder l ++ [a])

/-- The values to the right of a link. -/
def behind : List (Frame α) → List α
  | [] => []
  | .left a r :: fs => a :: inorder r ++ behind fs
  | .right _ _ :: fs => behind fs

theorem inorder_plug : ∀ (fs : List (Frame α)) (t : BinaryTree α),
    inorder (plug fs t) = before fs ++ inorder t ++ behind fs
  | [], t => by simp [plug, before, behind]
  | .left a r :: fs, t => by
    rw [plug, inorder_plug fs]
    simp [Frame.fill, inorder, before, behind]
  | .right a l :: fs, t => by
    rw [plug, inorder_plug fs]
    simp [Frame.fill, inorder, before, behind]

end Links

/-! ## Order -/

section Order

variable {α : Type u} {κ : Type v} [LinearOrder κ] (key : α → κ)

/-- At every node, the keys to the left are smaller and those to the right are greater. -/
def Ordered : BinaryTree α → Prop
  | .nil => True
  | .node a l r => (∀ x ∈ inorder l, key x < key a) ∧ (∀ x ∈ inorder r, key a < key x) ∧ Ordered l ∧ Ordered r

/-- **Ordered trees** are those with a strictly increasing sequence. -/
theorem ordered_iff : ∀ t : BinaryTree α, Ordered key t ↔ (inorder t).Pairwise fun x y => key x < key y
  | .nil => by simp [Ordered, inorder]
  | .node a l r => by
    rw [Ordered, inorder, List.pairwise_append, List.pairwise_cons, ordered_iff l, ordered_iff r]
    constructor
    · rintro ⟨hl, hr, hleft, hright⟩
      refine ⟨hleft, ⟨hr, hright⟩, fun x hx y hy => ?_⟩
      rcases List.mem_cons.mp hy with rfl | hy
      · exact hl x hx
      · exact lt_trans (hl x hx) (hr y hy)
    · rintro ⟨hleft, ⟨hr, hright⟩, hcross⟩
      exact ⟨fun x hx => hcross x hx a List.mem_cons_self, hr, hleft, hright⟩

variable {key} in
/-- No value is in an ordered tree twice. -/
theorem Ordered.nodup {t : BinaryTree α} (h : Ordered key t) : (inorder t).Nodup :=
  ((ordered_iff key t).mp h).imp fun {x y} hlt (heq : x = y) => lt_irrefl (key y) (heq ▸ hlt)

/-- The link is where the key `k` belongs. -/
def Splits (k : κ) (fs : List (Frame α)) : Prop := (∀ x ∈ before fs, key x < k) ∧ ∀ x ∈ behind fs, k < key x

variable {key} {k : κ} {fs : List (Frame α)} {a new : α} {l r : BinaryTree α}

theorem splits_root : Splits key k [] := by simp [Splits, before, behind]

/-- The search goes left. -/
theorem Splits.left (h : Splits key k fs) (hlt : k < key a) (hr : ∀ x ∈ inorder r, key a < key x) :
    Splits key k (.left a r :: fs) := by
  refine ⟨h.1, fun x hx => ?_⟩
  rw [behind, List.cons_append, List.mem_cons, List.mem_append] at hx
  rcases hx with rfl | hx | hx
  · exact hlt
  · exact lt_trans hlt (hr x hx)
  · exact h.2 x hx

/-- The search goes right. -/
theorem Splits.right (h : Splits key k fs) (hlt : key a < k) (hl : ∀ x ∈ inorder l, key x < key a) :
    Splits key k (.right a l :: fs) := by
  refine ⟨fun x hx => ?_, h.2⟩
  rw [before, List.mem_append, List.mem_append, List.mem_singleton] at hx
  rcases hx with hx | hx | rfl
  · exact h.1 x hx
  · exact lt_trans (hl x hx) hlt
  · exact hlt

/-- A key that belongs at a link is not in the tree. -/
theorem Splits.ne (h : Splits key k fs) {x : α} (hx : x ∈ before fs ++ behind fs) : key x ≠ k := by
  rcases List.mem_append.mp hx with hx | hx
  · exact ne_of_lt (h.1 x hx)
  · exact (ne_of_lt (h.2 x hx)).symm

/-- **Insertion** where the key belongs keeps the sequence strictly increasing. -/
theorem Splits.pairwise_insert (h : Splits key (key new) fs)
    (hsorted : (before fs ++ behind fs).Pairwise fun x y => key x < key y) :
    (before fs ++ new :: behind fs).Pairwise fun x y => key x < key y := by
  obtain ⟨hbefore, hbehind, hcross⟩ := List.pairwise_append.mp hsorted
  refine List.pairwise_append.mpr ⟨hbefore, List.pairwise_cons.mpr ⟨h.2, hbehind⟩, fun x hx y hy => ?_⟩
  rcases List.mem_cons.mp hy with rfl | hy
  · exact h.1 x hx
  · exact hcross x hx y hy

end Order

/-! ## Operations on balanced trees -/

section Balance

/-- A rearrangement of trees that keeps the sequence. -/
structure Rebalance (α : Type u) where
  apply : BinaryTree α → BinaryTree α
  inorder_apply : ∀ t, inorder (apply t) = inorder t

instance {α : Type u} : Inhabited (Rebalance α) := ⟨⟨id, fun _ => rfl⟩⟩

/-- A way to take a value out of a tree that keeps the sequence of the others. -/
structure Erasure (α : Type u) where
  apply : α → BinaryTree α → BinaryTree α
  inorder_apply : ∀ {a t l r}, inorder t = l ++ a :: r → a ∉ l → inorder (apply a t) = l ++ r

/-- The tree without left branches. -/
def spine {α : Type u} : List α → BinaryTree α
  | [] => .nil
  | a :: as => .node a .nil (spine as)

theorem inorder_spine {α : Type u} : ∀ as : List α, inorder (spine as) = as
  | [] => rfl
  | a :: as => congrArg (a :: ·) (inorder_spine as)

instance {α : Type u} [DecidableEq α] : Inhabited (Erasure α) where
  default := {
    apply := fun a t => spine ((inorder t).erase a)
    inorder_apply := fun h ha => by
      rw [inorder_spine, h, List.erase_append_right _ ha, List.erase_cons_head] }

end Balance

end KernelModules.Lib
