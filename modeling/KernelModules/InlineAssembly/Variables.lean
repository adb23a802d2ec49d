import KernelModules.InlineAssembly.Blocks

/-!
# Blocks as operations on C variables

The operands of a block are variables of the function around it. In a frame (`Frame`) the operands are where the block
allows them, and those in memory are mapped and do not overlap; then a block loads and stores the variables of one word
(`wp_load`, `wp_store`), whatever registers and addresses they were given.
-/

namespace KernelModules.InlineAssembly

open Lib

variable {B : Block Reg Env} {place : Nat → Operand Reg} {m : State}

/-- The C variable in the place of an operand. -/
def getVar (place : Nat → Operand Reg) (k : Nat) (m : State) : Option Word := (place k).value 8 m

def setVar (place : Nat → Operand Reg) (k : Nat) (v : Word) (m : State) : Option State := (place k).assign 8 m v

theorem lt_of_inMemory {k : Nat} (h : B.inMemory k = true) : k < B.args.length := by
  by_contra hlen
  rw [Block.inMemory, List.getElem?_eq_none (by omega)] at h
  cases h

/-- The operands are placed as the block allows; those in memory are mapped and do not overlap. -/
structure Frame (B : Block Reg Env) (place : Nat → Operand Reg) (m : State) : Prop where
  places : B.Places place
  mapped : ∀ {k a}, B.inMemory k = true → (place k).address m = some a → m.mem.Mapped a (B.width k)
  apart : ∀ {j k a b}, B.inMemory j = true → B.inMemory k = true → j ≠ k → (place j).address m = some a →
    (place k).address m = some b → Memory.Apart a (B.width j) b (B.width k)

/-- The rest of the machine after the registers of a block's list and some bytes were overwritten. -/
structure Undisturbed (B : Block Reg Env) (m m' : State) : Prop where
  regs : ∀ r ∉ B.clobbers, m'.regs r = m.regs r
  isSome : ∀ x, (m'.mem x).isSome = (m.mem x).isSome

theorem Undisturbed.set {r : Reg} (hr : r ∈ B.clobbers) (v : Word) : Undisturbed B m (m.set r v) :=
  ⟨fun _ hr' => Machine.set_other m v fun he => hr' (he ▸ hr), fun _ => rfl⟩

theorem Undisturbed.store {a : Word} {n v : Nat} {mem : Memory} (h : m.mem.store a n v = some mem) :
    Undisturbed B m { m with mem := mem } :=
  ⟨fun _ _ => rfl, Memory.isSome_store h⟩

/-- A variable in memory is addressed by a register that the block does not overwrite. -/
theorem Frame.base (h : Frame B place m) {k : Nat} (hk : B.inMemory k = true) :
    ∃ base disp, place k = .mem base disp ∧ (place k).address m = some (m.regs base + disp) ∧ base ∉ B.clobbers := by
  obtain ⟨base, disp, hop, ha⟩ := h.places.address hk m
  exact ⟨base, disp, hop, ha, fun hmem =>
    h.places.not_mem_reads (lt_of_inMemory hk) hmem (by simp [hop, Operand.reads])⟩

theorem Frame.address_eq (h : Frame B place m) {m' : State} (hm : Undisturbed B m m') {k : Nat}
    (hk : B.inMemory k = true) : (place k).address m' = (place k).address m := by
  obtain ⟨base, disp, hop, -, hbase⟩ := h.base hk
  rw [hop, Operand.address, Operand.address, hm.regs base hbase]

theorem Frame.of_undisturbed (h : Frame B place m) {m' : State} (hm : Undisturbed B m m') : Frame B place m' where
  places := h.places
  mapped hk ha := fun i hi => by
    rw [hm.isSome]
    exact h.mapped hk (by rwa [h.address_eq hm hk] at ha) i hi
  apart hj hk hne ha hb := h.apart hj hk hne (by rwa [h.address_eq hm hj] at ha) (by rwa [h.address_eq hm hk] at hb)

theorem Frame.set (h : Frame B place m) {r : Reg} (hr : r ∈ B.clobbers) (v : Word) : Frame B place (m.set r v) :=
  h.of_undisturbed (.set hr v)

/-- The operand is a variable of one word. -/
def IsWord (B : Block Reg Env) (k : Nat) : Prop := B.inMemory k = true ∧ B.width k = 8

instance (B : Block Reg Env) (k : Nat) : Decidable (IsWord B k) := inferInstanceAs (Decidable (_ ∧ _))

/-- The address of a variable, and its value as what is loaded from there. -/
theorem Frame.variable (h : Frame B place m) {k : Nat} (hk : IsWord B k) :
    ∃ a, (place k).address m = some a ∧ m.mem.Mapped a 8 ∧ ∀ m' : State, (∀ r ∉ B.clobbers, m'.regs r = m.regs r) →
      getVar place k m' = (m'.mem.load a 8).map (BitVec.ofNat 64) := by
  obtain ⟨base, disp, hop, ha, hbase⟩ := h.base hk.1
  refine ⟨_, ha, hk.2 ▸ h.mapped hk.1 ha, fun m' hregs => ?_⟩
  rw [getVar, hop, Operand.value, hregs base hbase]

/-- Two variables of one word are apart. -/
theorem Frame.words_apart (h : Frame B place m) {j k : Nat} (hj : IsWord B j) (hk : IsWord B k) (hne : j ≠ k)
    {a b : Word} (ha : (place j).address m = some a) (hb : (place k).address m = some b) : Memory.Apart a 8 b 8 := by
  have hapart := h.apart hj.1 hk.1 hne ha hb
  rwa [hj.2, hk.2] at hapart

/-- Neither does an address. -/
theorem address_set {k : Nat} (h : B.Places place) (hk : k < B.args.length) {r : Reg} (hr : r ∈ B.clobbers) (v : Word) :
    (place k).address (m.set r v) = (place k).address m :=
  Operand.address_set (h.not_mem_reads hk hr)

/-- Variables do not depend on the registers that the block overwrites. -/
theorem Frame.getVar_set (h : Frame B place m) {k : Nat} (hk : k < B.args.length) {r : Reg} (hr : r ∈ B.clobbers)
    (v : Word) : getVar place k (m.set r v) = getVar place k m :=
  Operand.value_set (h.places.not_mem_reads hk hr)

/-- An operand in a register, and the address of one in memory, depend on the registers only. -/
theorem getVar_inReg (h : B.Places place) {k : Nat} (hk : B.args[k]? = some .inReg) {m' : State}
    (hregs : m'.regs = m.regs) : getVar place k m' = getVar place k m := by
  have hallows := h k _ hk
  cases hop : place k with
  | imm v => rw [hop] at hallows; exact hallows.elim
  | reg r => rw [getVar, getVar, hop, Operand.value, Operand.value, hregs]
  | mem base disp => rw [hop] at hallows; exact hallows.elim

theorem address_regs {m' : State} (hregs : m'.regs = m.regs) (o : Operand Reg) : o.address m' = o.address m := by
  cases o with
  | imm v => rfl
  | reg r => rfl
  | mem base disp => rw [Operand.address, Operand.address, hregs]

/-- What holds after a variable got a value: the value is there, the other variables and everything but the memory are
as they were. -/
structure Stored (B : Block Reg Env) (place : Nat → Operand Reg) (k : Nat) (v : Word) (m m' : State) : Prop where
  frame : Frame B place m'
  regs : m'.regs = m.regs
  world : m'.world = m.world
  isSome : ∀ x, (m'.mem x).isSome = (m.mem x).isSome
  self : getVar place k m' = some v
  other : ∀ j, IsWord B j → j ≠ k → getVar place j m' = getVar place j m

/-- **A variable gets a value.** -/
theorem Frame.setVar (h : Frame B place m) {k : Nat} (hk : IsWord B k) (v : Word) :
    ∃ m', setVar place k v m = some m' ∧ Stored B place k v m m' := by
  obtain ⟨a, ha, hmapped, hval⟩ := h.variable hk
  obtain ⟨mem, hstore⟩ := Memory.store_mapped hmapped v.toNat
  obtain ⟨base, disp, hop, -⟩ := h.base hk.1
  have haddr : m.regs base + disp = a := by rw [hop] at ha; exact Option.some.inj ha
  have hself : getVar place k { m with mem := mem } = some v := by
    rw [hval { m with mem := mem } fun _ _ => rfl, Memory.load_store_same hstore (by decide), Option.map_some]
    exact congrArg some (lowBytes_eight v)
  refine ⟨{ m with mem := mem }, ?_, h.of_undisturbed (.store hstore), rfl, rfl, Memory.isSome_store hstore, hself,
    fun j hj hjk => ?_⟩
  · rw [InlineAssembly.setVar, hop, Operand.assign, haddr, hstore, Option.map_some]
  · obtain ⟨b, hb, -, hvalb⟩ := h.variable hj
    have hload := Memory.load_store_apart hstore (h.words_apart hk hj (Ne.symm hjk) ha hb)
    rw [hvalb { m with mem := mem } fun _ _ => rfl, hvalb m fun _ _ => rfl, hload]

/-- The variables one after another on the stack, as a compiler that keeps nothing in registers has them. -/
def onStack (k : Nat) : Operand Reg := .mem .rsp (BitVec.ofNat 64 (8 * k))

/-- Frames exist: on a mapped stack, if no variable but the last is wider than a word. -/
theorem frame_onStack (hmem : ∀ k < B.args.length, B.inMemory k = true)
    (hwidth : ∀ k < B.args.length, 8 * k + B.width k ≤ 128 ∧ (B.width k ≤ 8 ∨ k + 1 = B.args.length))
    (hrsp : .rsp ∉ B.clobbers) (hstack : m.mem.Mapped (m.regs .rsp) 128) : Frame B onStack m where
  places k c hk := by
    have hin := hmem k (List.getElem?_eq_some_iff.mp hk).1
    rw [Block.inMemory, hk] at hin
    cases c with
    | outMem width => exact hrsp
    | inMem width => exact hrsp
    | inReg => cases hin
  mapped {k a} hk ha i hi := by
    rw [← Option.some.inj ha, BitVec.add_assoc, ← BitVec.ofNat_add]
    exact hstack _ (by have := hwidth k (lt_of_inMemory hk); omega)
  apart {j k a b} hj hk hne ha hb x hx y hy heq := by
    rw [← Option.some.inj ha, ← Option.some.inj hb, BitVec.add_assoc, BitVec.add_assoc, ← BitVec.ofNat_add,
      ← BitVec.ofNat_add, BitVec.add_right_inj] at heq
    have hnat := congrArg BitVec.toNat heq
    simp only [BitVec.toNat_ofNat] at hnat
    have hjlt := lt_of_inMemory hj
    have hklt := lt_of_inMemory hk
    have hjw := hwidth j hjlt
    have hkw := hwidth k hklt
    omega

/-- A machine in which everything is mapped, with the given words from address 0 on, where the stack begins. The kernel
answers every call with the same number. -/
def stackOf (words : List Word) (answer : Word) : State where
  regs := fun _ => 0
  mem := fun a => some (UInt8.ofNat ((words.getD (a.toNat / 8) 0).toNat / 256 ^ (a.toNat % 8)))
  world := ⟨fun _ => ⟨0, 0, 0, 0⟩, 0, fun _ _ _ => answer, []⟩

theorem stackOf_mapped (words : List Word) (answer a : Word) (n : Nat) : (stackOf words answer).mem.Mapped a n :=
  fun _ _ => rfl

section Rules

variable {is : List (Instr (Operand Reg) Env)} {Q : State → Prop}

/-- `movq %k, %%r`. -/
theorem wp_load {k : Nat} {r : Reg} {v : Word} (hv : getVar place k m = some v) (hQ : wp gate is Q (m.set r v)) :
    wp gate (Block.fillInstr place (movq (arg k) (reg r)) :: is) Q m :=
  wp_mov_reg hv (by rwa [lowBytes_eight])

/-- `movq $v, %%r`. -/
theorem wp_imm {r : Reg} {v : Word} (hQ : wp gate is Q (m.set r v)) :
    wp gate (Block.fillInstr place (movq (imm v) (reg r)) :: is) Q m :=
  wp_mov_reg (v := v) (congrArg some (lowBytes_eight v)) (by rwa [lowBytes_eight])

/-- `movq disp(%%base), %%r`. -/
theorem wp_deref {r base : Reg} {disp v : Word} (hv : (Operand.mem base disp).value 8 m = some v)
    (hQ : wp gate is Q (m.set r v)) : wp gate (Block.fillInstr place (movq (deref disp base) (reg r)) :: is) Q m :=
  wp_mov_reg hv (by rwa [lowBytes_eight])

/-- `addq src, %%r`. -/
theorem wp_add {src : AsmOperand Reg} {r : Reg} {v : Word} (hv : (Block.fill place src).value 8 m = some v)
    (hQ : wp gate is Q (m.set r (v + m.regs r))) : wp gate (Block.fillInstr place (addq src (reg r)) :: is) Q m :=
  wp_add_reg hv (by rwa [lowBytes_eight, lowBytes_eight])

/-- `movq %%r, disp(%%base)`. -/
theorem wp_put {r base : Reg} {disp a : Word} (mem : Memory) (ha : m.regs base + disp = a)
    (hmem : m.mem.store a 8 (m.regs r).toNat = some mem) (hQ : wp gate is Q { m with mem := mem }) :
    wp gate (Block.fillInstr place (movq (reg r) (deref disp base)) :: is) Q m :=
  wp_mov_mem (v := m.regs r) (congrArg some ha) (congrArg some (lowBytes_eight _)) hmem hQ

/-- `movq %%r, %k`, where only `%k` is known to be mapped. -/
theorem wp_store_at {k : Nat} {r : Reg} {a : Word} (ha : (place k).address m = some a) (hmapped : m.mem.Mapped a 8)
    (hQ : ∀ mem, m.mem.store a 8 (m.regs r).toNat = some mem → wp gate is Q { m with mem := mem }) :
    wp gate (Block.fillInstr place (movq (reg r) (arg k)) :: is) Q m := by
  obtain ⟨mem, hmem⟩ := Memory.store_mapped hmapped (m.regs r).toNat
  exact wp_mov_mem (v := m.regs r) ha (congrArg some (lowBytes_eight _)) hmem (hQ mem hmem)

/-- `movq %%r, %k` in a frame. -/
theorem wp_store (h : Frame B place m) {k : Nat} (hk : IsWord B k) {r : Reg}
    (hQ : ∀ m', Stored B place k (m.regs r) m m' → wp gate is Q m') :
    wp gate (Block.fillInstr place (movq (reg r) (arg k)) :: is) Q m := by
  obtain ⟨m', hset, hstored⟩ := h.setVar hk (m.regs r)
  refine wp_cons ?_ (hQ m' hstored)
  have hsrc : (Operand.reg r).value 8 m = some (m.regs r) := congrArg some (lowBytes_eight _)
  simp only [movq, reg, arg, Block.fillInstr, Block.fill, exec, hsrc, Option.bind_eq_bind, Option.bind_some]
  exact hset

end Rules

end KernelModules.InlineAssembly
