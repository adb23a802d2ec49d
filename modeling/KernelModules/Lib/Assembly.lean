import Mathlib.Data.List.Basic
import Mathlib.Algebra.Order.Ring.Int
import Mathlib.Logic.Function.Basic

/-!
# Blocks of machine code with operands

A machine has registers of 64 bits, a memory of bytes of which not every address is mapped, and a world in which the
instructions `env` act. An access to an address that is not mapped is a fault (`none`).

- `Memory.load` and `Memory.store` move little-endian numbers of a given width: what was stored is loaded again
  (`load_store_same`), what lies apart is not changed (`load_store_apart`, `store_apart`), and nothing else can fault
  (`store_mapped`, `load_mapped`);
- `wp gate is Q m`: from `m` the instructions `is` run to their end without a fault, and `Q` holds there. The rules
  `wp_mov_reg`, `wp_mov_mem`, `wp_add_reg` and `wp_env` execute one instruction;
- a `Block` is code with holes `%0`, `%1`, … for operands, which are placed in memory or in registers outside the list
  of what the block says it overwrites. `Block.declared` is a check of the text of a block; a block that passes it
  changes no register outside that list and no memory outside its outputs, each as wide as its variable, however its
  operands are placed (`Block.run_kept`).
-/

namespace KernelModules.Lib

/-- A machine word: a register's contents or an address. -/
abbrev Word := BitVec 64

/-- Bytes by address; `none` where nothing is mapped. -/
abbrev Memory := Word → Option UInt8

namespace Memory

variable {mem mem' : Memory} {a b : Word} {n k : Nat}

/-- The `n` bytes from `a` on are mapped. -/
def Mapped (mem : Memory) (a : Word) (n : Nat) : Prop := ∀ i < n, (mem (a + BitVec.ofNat 64 i)).isSome

instance (mem : Memory) (a : Word) (n : Nat) : Decidable (mem.Mapped a n) :=
  inferInstanceAs (Decidable (∀ i < n, _))

/-- The little-endian number in the `n` bytes from `a` on. -/
def load (mem : Memory) (a : Word) : Nat → Option Nat
  | 0 => some 0
  | n + 1 => do
    let byte ← mem a
    let rest ← mem.load (a + 1#64) n
    return byte.toNat + 256 * rest

/-- The `n` low bytes of a number, put at `a`. -/
def store (mem : Memory) (a : Word) (n v : Nat) : Option Memory :=
  if mem.Mapped a n then
    some fun x => if (x - a).toNat < n then some (UInt8.ofNat (v / 256 ^ (x - a).toNat)) else mem x
  else none

/-- No byte of the first range is one of the second. -/
def Apart (a : Word) (n : Nat) (b : Word) (k : Nat) : Prop :=
  ∀ i < n, ∀ j < k, a + BitVec.ofNat 64 i ≠ b + BitVec.ofNat 64 j

instance (a : Word) (n : Nat) (b : Word) (k : Nat) : Decidable (Apart a n b k) :=
  inferInstanceAs (Decidable (∀ i < n, ∀ j < k, _))

theorem Apart.symm (h : Apart a n b k) : Apart b k a n := fun i hi j hj he => h j hj i hi he.symm

theorem succ_add (a : Word) (i : Nat) : a + 1#64 + BitVec.ofNat 64 i = a + BitVec.ofNat 64 (i + 1) := by
  rw [BitVec.add_assoc, show BitVec.ofNat 64 (i + 1) = 1#64 + BitVec.ofNat 64 i by bv_omega]

/-- An address is in a range iff it is one of its bytes. -/
theorem add_sub_toNat {i : Nat} (hi : i < 2 ^ 64) : (a + BitVec.ofNat 64 i - a).toNat = i := by
  rw [BitVec.add_comm, BitVec.add_sub_cancel, BitVec.toNat_ofNat, Nat.mod_eq_of_lt hi]

theorem add_sub_ofNat (x a : Word) : a + BitVec.ofNat 64 (x - a).toNat = x := by
  rw [BitVec.ofNat_toNat, BitVec.setWidth_eq, BitVec.add_comm, BitVec.sub_add_cancel]

/-- A load depends on its own bytes only. -/
theorem load_congr (h : ∀ i < n, mem (a + BitVec.ofNat 64 i) = mem' (a + BitVec.ofNat 64 i)) :
    mem.load a n = mem'.load a n := by
  induction n generalizing a with
  | zero => rfl
  | succ n ih =>
    have hfirst : mem a = mem' a := by simpa using h 0 (Nat.succ_pos n)
    have hrest : mem.load (a + 1#64) n = mem'.load (a + 1#64) n := by
      refine ih fun i hi => ?_
      rw [succ_add]
      exact h (i + 1) (by omega)
    simp only [load, hfirst, hrest]

/-- A load of mapped bytes does not fault, and its value has as many bytes. -/
theorem load_mapped (h : mem.Mapped a n) : ∃ v, mem.load a n = some v ∧ v < 256 ^ n := by
  induction n generalizing a with
  | zero => exact ⟨0, rfl, by simp⟩
  | succ n ih =>
    obtain ⟨byte, hbyte⟩ := Option.isSome_iff_exists.mp (by simpa using h 0 (Nat.succ_pos n))
    have hrest : mem.Mapped (a + 1#64) n := fun i hi => by
      rw [succ_add]
      exact h (i + 1) (by omega)
    obtain ⟨v, hv, hlt⟩ := ih hrest
    refine ⟨byte.toNat + 256 * v, by simp [load, hbyte, hv], ?_⟩
    have := byte.toNat_lt
    rw [Nat.pow_succ]
    omega

/-- A load that does not fault reads mapped bytes. -/
theorem mapped_of_load {v : Nat} (h : mem.load a n = some v) : mem.Mapped a n := by
  induction n generalizing a v with
  | zero => exact fun i hi => absurd hi (Nat.not_lt_zero i)
  | succ n ih =>
    simp only [load, Option.bind_eq_bind, Option.bind_eq_some_iff] at h
    obtain ⟨byte, hbyte, rest, hrest, -⟩ := h
    intro i hi
    cases i with
    | zero => simp [hbyte]
    | succ i =>
      rw [← succ_add]
      exact ih hrest i (by omega)

theorem load_lt {v : Nat} (h : mem.load a n = some v) : v < 256 ^ n := by
  obtain ⟨v', hv', hlt⟩ := load_mapped (mapped_of_load h)
  rw [h] at hv'
  exact Option.some.inj hv' ▸ hlt

/-- The bytes of a number, loaded, are the number. -/
theorem load_bytes {v : Nat} (h : ∀ i < n, mem (a + BitVec.ofNat 64 i) = some (UInt8.ofNat (v / 256 ^ i))) :
    mem.load a n = some (v % 256 ^ n) := by
  induction n generalizing a v with
  | zero => simp [load, Nat.mod_one]
  | succ n ih =>
    have hfirst : mem a = some (UInt8.ofNat v) := by simpa using h 0 (Nat.succ_pos n)
    have hrest : mem.load (a + 1#64) n = some (v / 256 % 256 ^ n) := by
      refine ih fun i hi => ?_
      rw [succ_add, h (i + 1) (by omega), Nat.pow_succ, Nat.mul_comm, Nat.div_div_eq_div_mul]
    simp [load, hfirst, hrest, Nat.pow_succ, Nat.mul_comm _ 256, Nat.mod_mul]

/-- The bytes of what was loaded. -/
theorem bytes_of_load {v : Nat} (h : mem.load a n = some v) {i : Nat} (hi : i < n) :
    mem (a + BitVec.ofNat 64 i) = some (UInt8.ofNat (v / 256 ^ i)) := by
  induction n generalizing a v i with
  | zero => exact absurd hi (Nat.not_lt_zero i)
  | succ n ih =>
    simp only [load, Option.bind_eq_bind, Option.bind_eq_some_iff] at h
    obtain ⟨byte, hbyte, rest, hrest, hv⟩ := h
    cases Option.some.inj hv
    have hlt := byte.toNat_lt
    cases i with
    | zero =>
      have hmod : UInt8.ofNat (byte.toNat + 256 * rest) = byte := by
        apply UInt8.toNat_inj.mp
        rw [UInt8.toNat_ofNat']
        omega
      simp [hbyte, hmod]
    | succ i =>
      have hdiv : (byte.toNat + 256 * rest) / 256 = rest := by omega
      rw [← succ_add, ih hrest (by omega), Nat.pow_succ, Nat.mul_comm (256 ^ i), ← Nat.div_div_eq_div_mul, hdiv]

/-- A narrower load gives the low bytes. -/
theorem load_narrow {v : Nat} (h : mem.load a n = some v) (hk : k ≤ n) : mem.load a k = some (v % 256 ^ k) :=
  load_bytes fun _ hi => bytes_of_load h (by omega)

section Store

variable {v : Nat} (h : mem.store a n v = some mem')
include h

theorem mapped_of_store : mem.Mapped a n := by
  unfold store at h
  split at h
  · assumption
  · cases h

theorem store_eq (x : Word) :
    mem' x = if (x - a).toNat < n then some (UInt8.ofNat (v / 256 ^ (x - a).toNat)) else mem x := by
  rw [store, if_pos (mapped_of_store h)] at h
  rw [← Option.some.inj h]

/-- **What was stored is loaded.** -/
theorem load_store_same (hn : n ≤ 2 ^ 64) : mem'.load a n = some (v % 256 ^ n) :=
  load_bytes fun i hi => by rw [store_eq h, add_sub_toNat (by omega), if_pos hi]

/-- A store changes no byte outside its range. -/
theorem store_apart {x : Word} (hx : ∀ i < n, x ≠ a + BitVec.ofNat 64 i) : mem' x = mem x := by
  rw [store_eq h, if_neg fun hlt => hx _ hlt (add_sub_ofNat x a).symm]

/-- **What lies apart is not changed.** -/
theorem load_store_apart (hd : Apart a n b k) : mem'.load b k = mem.load b k :=
  load_congr fun j hj => store_apart h fun i hi he => hd i hi j hj he.symm

/-- A store maps nothing and unmaps nothing. -/
theorem isSome_store (x : Word) : (mem' x).isSome = (mem x).isSome := by
  by_cases hx : (x - a).toNat < n
  · have := mapped_of_store h _ hx
    rw [add_sub_ofNat] at this
    rw [store_eq h, if_pos hx, this, Option.isSome_some]
  · rw [store_eq h, if_neg hx]

theorem mapped_store : mem'.Mapped b k ↔ mem.Mapped b k :=
  forall₂_congr fun _ _ => by rw [isSome_store h]

end Store

theorem store_mapped (h : mem.Mapped a n) (v : Nat) : ∃ mem', mem.store a n v = some mem' :=
  ⟨_, if_pos h⟩

end Memory

/-- The `n` low bytes of a word. -/
def lowBytes (n : Nat) (v : Word) : Word := BitVec.ofNat 64 (v.toNat % 256 ^ n)

theorem toNat_lowBytes {n : Nat} (v : Word) : (lowBytes n v).toNat = v.toNat % 256 ^ n := by
  rw [lowBytes, BitVec.toNat_ofNat, Nat.mod_eq_of_lt (lt_of_le_of_lt (Nat.mod_le _ _) v.isLt)]

theorem lowBytes_of_lt {n : Nat} {v : Word} (h : v.toNat < 256 ^ n) : lowBytes n v = v := by
  rw [lowBytes, Nat.mod_eq_of_lt h, BitVec.ofNat_toNat, BitVec.setWidth_eq]

theorem lowBytes_eight (v : Word) : lowBytes 8 v = v := lowBytes_of_lt (by have := v.isLt; omega)

theorem lowBytes_lowBytes {k n : Nat} (v : Word) (h : k ≤ n) : lowBytes k (lowBytes n v) = lowBytes k v := by
  apply BitVec.eq_of_toNat_eq
  rw [toNat_lowBytes, toNat_lowBytes, toNat_lowBytes, Nat.mod_mod_of_dvd _ (Nat.pow_dvd_pow 256 h)]

/-- Registers, memory and the world outside. -/
structure Machine (R W : Type) where
  regs : R → Word
  mem : Memory
  world : W

/-- Operands of an instruction. -/
inductive Operand (R : Type)
  | imm (v : Word)
  | reg (r : R)
  | mem (base : R) (disp : Word)
  deriving DecidableEq

/-- Instructions on operands `O`; the operations `E` are those of the world. The width is in bytes. -/
inductive Instr (O E : Type)
  | mov (width : Nat) (src dst : O)
  | add (width : Nat) (src dst : O)
  | env (e : E)
  deriving DecidableEq

namespace Machine

variable {R W E : Type} [DecidableEq R]

/-- A register gets a value. -/
def set (m : Machine R W) (r : R) (v : Word) : Machine R W := { m with regs := Function.update m.regs r v }

@[simp] theorem set_self (m : Machine R W) (r : R) (v : Word) : (m.set r v).regs r = v := by simp [set]
@[simp] theorem set_mem (m : Machine R W) (r : R) (v : Word) : (m.set r v).mem = m.mem := rfl
@[simp] theorem set_world (m : Machine R W) (r : R) (v : Word) : (m.set r v).world = m.world := rfl

theorem set_other (m : Machine R W) {r r' : R} (v : Word) (h : r' ≠ r) : (m.set r v).regs r' = m.regs r' := by
  simp [set, h]

end Machine

namespace Operand

variable {R W : Type} [DecidableEq R] {m : Machine R W} {r : R} {v : Word}

/-- The registers that an operand reads. -/
def reads : Operand R → List R
  | imm _ => []
  | reg r => [r]
  | mem base _ => [base]

/-- The address of a memory operand. -/
def address (m : Machine R W) : Operand R → Option Word
  | mem base disp => some (m.regs base + disp)
  | _ => none

/-- The value of an operand, read at the given width; a register's upper half counts as zero at a smaller width. -/
def value (width : Nat) (m : Machine R W) : Operand R → Option Word
  | imm v => some (lowBytes width v)
  | reg r => some (lowBytes width (m.regs r))
  | mem base disp => (m.mem.load (m.regs base + disp) width).map (BitVec.ofNat 64)

/-- An operand gets a value; a register's upper half is cleared at a smaller width. -/
def assign (width : Nat) (m : Machine R W) (v : Word) : Operand R → Option (Machine R W)
  | imm _ => none
  | reg r => some (m.set r (lowBytes width v))
  | mem base disp => (m.mem.store (m.regs base + disp) width v.toNat).map fun mem => { m with mem := mem }

/-- An operand does not depend on a register that it does not read. -/
theorem address_set {o : Operand R} (h : r ∉ o.reads) : o.address (m.set r v) = o.address m := by
  cases o with
  | imm w => rfl
  | reg x => rfl
  | mem base disp => simp only [address, Machine.set_other m v (Ne.symm (List.ne_of_not_mem_cons h))]

theorem value_set {o : Operand R} {width : Nat} (h : r ∉ o.reads) : o.value width (m.set r v) = o.value width m := by
  cases o with
  | imm w => rfl
  | reg x => simp only [value, Machine.set_other m v (Ne.symm (List.ne_of_not_mem_cons h))]
  | mem base disp =>
    simp only [value, Machine.set_mem, Machine.set_other m v (Ne.symm (List.ne_of_not_mem_cons h))]

omit [DecidableEq R] in
/-- A value has no more bytes than were read. -/
theorem lowBytes_value {o : Operand R} {width : Nat} (h : o.value width m = some v) :
    lowBytes width v = v := by
  have hpos : 0 < 256 ^ width := Nat.pow_pos (by decide)
  apply lowBytes_of_lt
  cases o with
  | imm w => rw [← Option.some.inj h, toNat_lowBytes]; exact Nat.mod_lt _ hpos
  | reg x => rw [← Option.some.inj h, toNat_lowBytes]; exact Nat.mod_lt _ hpos
  | mem base disp =>
    obtain ⟨n, hn, rfl⟩ := Option.map_eq_some_iff.mp h
    rw [BitVec.toNat_ofNat]
    exact lt_of_le_of_lt (Nat.mod_le _ _) (Memory.load_lt hn)

omit [DecidableEq R] in
/-- The value of an operand in memory is what is loaded from its address. -/
theorem value_of_address {o : Operand R} {a : Word} (h : o.address m = some a) (width : Nat) :
    o.value width m = (m.mem.load a width).map (BitVec.ofNat 64) := by
  cases o with
  | imm w => cases h
  | reg x => cases h
  | mem base disp => rw [value, Option.some.inj h]

omit [DecidableEq R] in
/-- Read at a smaller width, an operand has the low bytes of its value. -/
theorem value_narrow {o : Operand R} {k width : Nat} (h : o.value width m = some v) (hk : k ≤ width) (hword : k ≤ 8) :
    o.value k m = some (lowBytes k v) := by
  cases o with
  | imm w =>
    rw [← Option.some.inj h, lowBytes_lowBytes _ hk]
    rfl
  | reg x =>
    rw [← Option.some.inj h, lowBytes_lowBytes _ hk]
    rfl
  | mem base disp =>
    obtain ⟨n, hn, rfl⟩ := Option.map_eq_some_iff.mp h
    rw [value, Memory.load_narrow hn hk, Option.map_some]
    refine congrArg some (BitVec.eq_of_toNat_eq ?_)
    have hdvd : 256 ^ k ∣ 2 ^ 64 := Nat.pow_dvd_pow 256 hword
    have hlt : n % 256 ^ k < 2 ^ 64 :=
      lt_of_lt_of_le (Nat.mod_lt _ (Nat.pow_pos (by decide))) (Nat.le_of_dvd (by decide) hdvd)
    rw [toNat_lowBytes, BitVec.toNat_ofNat, BitVec.toNat_ofNat, Nat.mod_mod_of_dvd _ hdvd, Nat.mod_eq_of_lt hlt]

end Operand

section Run

variable {R W E : Type} [DecidableEq R] (gate : E → Machine R W → Option (Machine R W))

/-- One instruction; the operations of the world are what `gate` does. -/
def exec (m : Machine R W) : Instr (Operand R) E → Option (Machine R W)
  | .mov width src dst => do dst.assign width m (← src.value width m)
  | .add width src dst => do dst.assign width m ((← src.value width m) + (← dst.value width m))
  | .env e => gate e m

def run (is : List (Instr (Operand R) E)) (m : Machine R W) : Option (Machine R W) := is.foldlM (exec gate) m

/-- From `m` the instructions run to their end without a fault, and `Q` holds there. -/
def wp (is : List (Instr (Operand R) E)) (Q : Machine R W → Prop) (m : Machine R W) : Prop :=
  ∃ m', run gate is m = some m' ∧ Q m'

variable {gate} {is is' : List (Instr (Operand R) E)} {Q : Machine R W → Prop} {m : Machine R W}

theorem run_cons (i : Instr (Operand R) E) : run gate (i :: is) m = (exec gate m i).bind (run gate is) := rfl

theorem run_cons_some {i : Instr (Operand R) E} {m' : Machine R W} :
    run gate (i :: is) m = some m' ↔ ∃ m₁, exec gate m i = some m₁ ∧ run gate is m₁ = some m' := by
  rw [run_cons, Option.bind_eq_some_iff]

theorem wp_nil : wp gate [] Q m ↔ Q m := by simp [wp, run]

/-- One instruction, then the others. -/
theorem wp_cons {i : Instr (Operand R) E} {m₁ : Machine R W} (hi : exec gate m i = some m₁) (h : wp gate is Q m₁) :
    wp gate (i :: is) Q m := by
  obtain ⟨m', hrun, hq⟩ := h
  exact ⟨m', by rw [run_cons, hi]; exact hrun, hq⟩

/-- What a move to a register does, and when it can be done. -/
theorem exec_mov_reg {width : Nat} {src : Operand R} {r : R} {m₁ : Machine R W} :
    exec gate m (.mov width src (.reg r)) = some m₁ ↔
      ∃ v, src.value width m = some v ∧ m.set r (lowBytes width v) = m₁ := by
  simp [exec, Operand.assign, Option.bind_eq_some_iff]

theorem exec_add_reg {width : Nat} {src : Operand R} {r : R} {m₁ : Machine R W} :
    exec gate m (.add width src (.reg r)) = some m₁ ↔
      ∃ v, src.value width m = some v ∧ m.set r (lowBytes width (v + lowBytes width (m.regs r))) = m₁ := by
  have hdst : (Operand.reg r).value width m = some (lowBytes width (m.regs r)) := rfl
  simp [exec, hdst, Operand.assign, Option.bind_eq_some_iff]

theorem wp_mov_reg {width : Nat} {src : Operand R} {r : R} {v : Word} (hsrc : src.value width m = some v)
    (h : wp gate is Q (m.set r (lowBytes width v))) : wp gate (.mov width src (.reg r) :: is) Q m :=
  wp_cons (exec_mov_reg.mpr ⟨v, hsrc, rfl⟩) h

theorem wp_mov_mem {width : Nat} {src dst : Operand R} {v a : Word} {mem : Memory} (hdst : dst.address m = some a)
    (hsrc : src.value width m = some v) (hmem : m.mem.store a width v.toNat = some mem)
    (h : wp gate is Q { m with mem := mem }) : wp gate (.mov width src dst :: is) Q m := by
  refine wp_cons ?_ h
  cases dst with
  | imm w => cases hdst
  | reg x => cases hdst
  | mem base disp => simp [exec, hsrc, Operand.assign, Option.some.inj hdst, hmem]

theorem wp_add_reg {width : Nat} {src : Operand R} {r : R} {v : Word} (hsrc : src.value width m = some v)
    (h : wp gate is Q (m.set r (lowBytes width (v + lowBytes width (m.regs r))))) :
    wp gate (.add width src (.reg r) :: is) Q m :=
  wp_cons (exec_add_reg.mpr ⟨v, hsrc, rfl⟩) h

theorem wp_env {e : E} {m₁ : Machine R W} (he : gate e m = some m₁) (h : wp gate is Q m₁) :
    wp gate (.env e :: is) Q m := wp_cons he h

end Run

/-! ## Blocks and their operands -/

/-- An operand in the text of a block: itself, or the hole `%k`. -/
inductive AsmOperand (R : Type)
  | lit (o : Operand R)
  | arg (k : Nat)
  deriving DecidableEq

/-- What stands before an operand of a block: an output in memory, an input in memory, an input in a register. A
variable in memory has a width in bytes. -/
inductive Constraint
  | outMem (width : Nat)
  | inMem (width : Nat)
  | inReg
  deriving DecidableEq

/-- The operand is in memory. -/
def Constraint.inMemory : Constraint → Bool
  | outMem _ | inMem _ => true
  | inReg => false

/-- The width of the operand; a register has eight bytes. -/
def Constraint.width : Constraint → Nat
  | outMem width | inMem width => width
  | inReg => 8

/-- Code, the constraints of its operands, the registers that it names as outputs or as overwritten, and whether it
says that it overwrites memory. -/
structure Block (R E : Type) where
  code : List (Instr (AsmOperand R) E)
  args : List Constraint
  clobbers : List R
  memory : Bool

namespace Block

variable {R W E : Type}

/-- Operand `%k` is in memory. -/
def inMemory (B : Block R E) (k : Nat) : Bool := B.args[k]?.any Constraint.inMemory

/-- The width of operand `%k`. -/
def width (B : Block R E) (k : Nat) : Nat := (B.args[k]?.map Constraint.width).getD 0

def fill (place : Nat → Operand R) : AsmOperand R → Operand R
  | .lit o => o
  | .arg k => place k

def fillInstr (place : Nat → Operand R) : Instr (AsmOperand R) E → Instr (Operand R) E
  | .mov width src dst => .mov width (fill place src) (fill place dst)
  | .add width src dst => .add width (fill place src) (fill place dst)
  | .env e => .env e

/-- The code of a block with its operands placed. -/
def instrs (B : Block R E) (place : Nat → Operand R) : List (Instr (Operand R) E) := B.code.map (fillInstr place)

/-- Where an operand may be placed: in memory, addressed by a register that the block does not overwrite, or in such a
register. -/
def Allows (clobbers : List R) : Constraint → Operand R → Prop
  | .inReg, .reg r => r ∉ clobbers
  | .inReg, _ => False
  | _, .mem base _ => base ∉ clobbers
  | _, _ => False

/-- All operands are where their constraints allow it. -/
def Places (B : Block R E) (place : Nat → Operand R) : Prop :=
  ∀ k c, B.args[k]? = some c → Allows B.clobbers c (place k)

variable [DecidableEq R] in
instance (clobbers : List R) : ∀ (c : Constraint) (o : Operand R), Decidable (Allows clobbers c o)
  | .inReg, .reg r => inferInstanceAs (Decidable (r ∉ clobbers))
  | .inReg, .imm _ | .inReg, .mem _ _ => inferInstanceAs (Decidable False)
  | .inMem _, .mem base _ | .outMem _, .mem base _ => inferInstanceAs (Decidable (base ∉ clobbers))
  | .inMem _, .imm _ | .inMem _, .reg _ | .outMem _, .imm _ | .outMem _, .reg _ => inferInstanceAs (Decidable False)

theorem places_iff {B : Block R E} {place : Nat → Operand R} :
    B.Places place ↔ ∀ k (hk : k < B.args.length), Allows B.clobbers B.args[k] (place k) := by
  constructor
  · exact fun h k hk => h k _ (List.getElem?_eq_getElem hk)
  · intro h k c hc
    obtain ⟨hk, rfl⟩ := List.getElem?_eq_some_iff.mp hc
    exact h k hk

variable [DecidableEq R] in
/-- The destination of a write of some bytes is an output that is as wide, a register of the block's lists, or memory if
the block overwrites it. -/
def declaredDst (B : Block R E) (bytes : Nat) : AsmOperand R → Bool
  | .lit (.reg r) => r ∈ B.clobbers
  | .lit (.mem _ _) => B.memory
  | .lit (.imm _) => true
  | .arg k => match B.args[k]? with
    | some (.outMem width) => bytes ≤ width
    | _ => false

variable [DecidableEq R] in
/-- The check of one instruction. -/
def declaredInstr (touched : E → List R) (B : Block R E) : Instr (AsmOperand R) E → Bool
  | .mov width _ dst | .add width _ dst => B.declaredDst width dst
  | .env e => touched e ⊆ B.clobbers

variable [DecidableEq R] in
/-- Everything that the block overwrites is in its lists. -/
def declared (touched : E → List R) (B : Block R E) : Bool := B.code.all (B.declaredInstr touched)

/-- A placed operand reads no register that the block overwrites. -/
theorem Places.not_mem_reads {B : Block R E} {place : Nat → Operand R} (h : B.Places place) {k : Nat}
    (hk : k < B.args.length) {r : R} (hr : r ∈ B.clobbers) : r ∉ (place k).reads := by
  have hplace := places_iff.mp h k hk
  intro hread
  cases hop : place k with
  | imm v => simp [hop, Operand.reads] at hread
  | reg x =>
    rw [hop, Operand.reads, List.mem_singleton] at hread
    subst hread
    cases hc : B.args[k] <;> rw [hc, hop] at hplace <;> first | exact hplace | exact hplace hr
  | mem base disp =>
    rw [hop, Operand.reads, List.mem_singleton] at hread
    subst hread
    cases hc : B.args[k] <;> rw [hc, hop] at hplace <;> first | exact hplace | exact hplace hr

/-- A memory operand has an address. -/
theorem Places.address {B : Block R E} {place : Nat → Operand R} (h : B.Places place) {k : Nat}
    (hk : B.inMemory k = true) (m : Machine R W) :
    ∃ base disp, place k = .mem base disp ∧ (place k).address m = some (m.regs base + disp) := by
  obtain ⟨c, hc, hmem⟩ : ∃ c, B.args[k]? = some c ∧ c.inMemory = true := by
    rw [inMemory] at hk
    cases hc : B.args[k]? with
    | none => rw [hc] at hk; cases hk
    | some c => exact ⟨c, rfl, by rwa [hc] at hk⟩
  have hplace := h k c hc
  cases hop : place k with
  | imm v => rw [hop] at hplace; cases c <;> exact hplace.elim
  | reg x => rw [hop] at hplace; cases c <;> first | exact hplace.elim | cases hmem
  | mem base disp => exact ⟨base, disp, rfl, rfl⟩

section Sound

variable {gate : E → Machine R W → Option (Machine R W)} {touched : E → List R}

/-- The operations of the world change their own registers only, and no memory. -/
structure Tame (gate : E → Machine R W → Option (Machine R W)) (touched : E → List R) : Prop where
  regs : ∀ {e : E} {m m' : Machine R W}, gate e m = some m' → ∀ r ∉ touched e, m'.regs r = m.regs r
  mem : ∀ {e : E} {m m' : Machine R W}, gate e m = some m' → m'.mem = m.mem

variable {B : Block R E} {place : Nat → Operand R} {m m' : Machine R W}

/-- Nothing outside the lists of the block has changed: no register, and no byte outside the outputs unless the block
overwrites memory. -/
structure Kept (B : Block R E) (place : Nat → Operand R) (m m' : Machine R W) : Prop where
  regs : ∀ r ∉ B.clobbers, m'.regs r = m.regs r
  mem : B.memory = false → ∀ x, m'.mem x ≠ m.mem x →
    ∃ k width a, B.args[k]? = some (.outMem width) ∧ (place k).address m = some a ∧ (x - a).toNat < width

theorem Kept.refl (B : Block R E) (place : Nat → Operand R) (m : Machine R W) : Kept B place m m :=
  ⟨fun _ _ => rfl, fun _ _ hx => absurd rfl hx⟩

/-- The outputs stay where they are, so what two parts of a block keep the whole keeps. -/
theorem Kept.trans {m'' : Machine R W} (hplace : B.Places place)
    (h : Kept B place m m') (h' : Kept B place m' m'') : Kept B place m m'' := by
  refine ⟨fun r hr => (h'.regs r hr).trans (h.regs r hr), fun hm x hx => ?_⟩
  by_cases hfirst : m'.mem x = m.mem x
  · obtain ⟨k, width, a, hk, ha, hlt⟩ := h'.mem hm x (by rwa [hfirst])
    refine ⟨k, width, a, hk, ?_, hlt⟩
    obtain ⟨base, disp, hop, haddr⟩ := hplace.address (k := k) (by rw [inMemory, hk]; rfl) m
    have hlen : k < B.args.length := (List.getElem?_eq_some_iff.mp hk).1
    have hbase : base ∉ B.clobbers := fun hmem =>
      hplace.not_mem_reads hlen hmem (by simp [hop, Operand.reads])
    rw [← ha, hop, Operand.address, Operand.address, h.regs base hbase]
  · exact h.mem hm x hfirst

variable [DecidableEq R]

/-- What a destination that passes the check overwrites. -/
theorem assign_kept (hplace : B.Places place) {dst : AsmOperand R} {width : Nat} {v : Word}
    (hdst : B.declaredDst width dst = true) (h : (fill place dst).assign width m v = some m') : Kept B place m m' := by
  rcases dst with (w | r | ⟨base, disp⟩) | k
  · cases h
  · cases Option.some.inj h
    refine ⟨fun r' hr' => Machine.set_other m _ ?_, fun _ _ hx => absurd rfl hx⟩
    rintro rfl
    exact hr' (by simpa [declaredDst] using hdst)
  · obtain ⟨mem, -, rfl⟩ := Option.map_eq_some_iff.mp h
    refine ⟨fun _ _ => rfl, fun hmem => ?_⟩
    rw [declaredDst, hmem] at hdst
    cases hdst
  · obtain ⟨width', hk, hwidth⟩ : ∃ width', B.args[k]? = some (.outMem width') ∧ width ≤ width' := by
      rw [declaredDst] at hdst
      split at hdst
      · next width' hk => exact ⟨width', hk, of_decide_eq_true hdst⟩
      · cases hdst
    obtain ⟨base, disp, hop, haddr⟩ := hplace.address (k := k) (by rw [inMemory, hk]; rfl) m
    rw [fill, hop] at h
    obtain ⟨mem, hstore, rfl⟩ := Option.map_eq_some_iff.mp h
    refine ⟨fun _ _ => rfl, fun _ x hx => ⟨k, width', m.regs base + disp, hk, haddr, ?_⟩⟩
    by_contra hout
    exact hx ((Memory.store_eq hstore x).trans (if_neg (by omega)))

/-- One instruction that passes the check. -/
theorem exec_kept (hgate : Tame gate touched) (hplace : B.Places place) {i : Instr (AsmOperand R) E}
    (hi : B.declaredInstr touched i = true) (h : exec gate m (fillInstr place i) = some m') : Kept B place m m' := by
  cases i with
  | mov width src dst =>
    obtain ⟨v, -, hassign⟩ := Option.bind_eq_some_iff.mp h
    exact assign_kept hplace hi hassign
  | add width src dst =>
    obtain ⟨v, -, hsum⟩ := Option.bind_eq_some_iff.mp h
    obtain ⟨v', -, hassign⟩ := Option.bind_eq_some_iff.mp hsum
    exact assign_kept hplace hi hassign
  | env e =>
    simp only [declaredInstr, decide_eq_true_eq] at hi
    refine ⟨fun r hr => hgate.regs h r fun hmem => hr (hi hmem), fun _ x hx => ?_⟩
    exact absurd (congrFun (hgate.mem h) x) hx

/-- **A block that passes the check changes nothing that it does not name**, however its operands are placed. -/
theorem run_kept (hgate : Tame gate touched) (hdecl : B.declared touched = true) (hplace : B.Places place)
    (h : run gate (B.instrs place) m = some m') : Kept B place m m' := by
  -- Induction on the code; the operands of the rest are where they were, so what it keeps composes.
  have hcode : ∀ code : List (Instr (AsmOperand R) E), (∀ i ∈ code, B.declaredInstr touched i = true) →
      ∀ m, run gate (code.map (fillInstr place)) m = some m' → Kept B place m m' := by
    intro code
    induction code with
    | nil =>
      rintro - m hrun
      cases Option.some.inj hrun
      exact .refl B place _
    | cons i code ih =>
      intro hall m hrun
      obtain ⟨m₁, hexec, hrest⟩ := run_cons_some.mp hrun
      exact (exec_kept hgate hplace (hall i List.mem_cons_self) hexec).trans hplace
        (ih (fun i hi => hall i (List.mem_cons_of_mem _ hi)) m₁ hrest)
  exact hcode B.code (List.all_eq_true.mp hdecl) m h

end Sound

end Block

end KernelModules.Lib
