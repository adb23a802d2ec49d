import KernelModules.Lib.Assembly

/-!
# The blocks of inline assembly

Ten functions of the repository are written in extended assembly: the eight examples of the inline-assembly module,
the swap of the first assignment, and the system call through `int $0x80`. A block is given by its text, by the
constraints of its operands and by the list of what it overwrites; which registers and addresses the operands get is
the compiler's choice.

- `blocks_kept`: no block changes a register that it does not list, or a byte outside its output variables unless it
  lists `"memory"`, wherever its operands are placed.

What the kernel does in a system call is not part of these files: `Outside.answer` may be any function, and the calls
are recorded as they are made. Of `int $0x80` itself it is taken that it changes `rax` only, and no memory: `write`
reads the memory of the process.
-/

namespace KernelModules.InlineAssembly

open Lib

/-! ## The machine -/

inductive Reg
  | rax | rbx | rcx | rdx | rsi | rdi | rbp | rsp | r8 | r9 | r10 | r11 | r12 | r13 | r14 | r15
  deriving DecidableEq

/-- Instructions whose result comes from outside the registers and the memory. -/
inductive Env
  | cpuid
  | rdtsc
  | int80
  deriving DecidableEq

/-- What `cpuid` gives for a leaf. -/
structure CpuidLeaf where
  eax : BitVec 32
  ebx : BitVec 32
  ecx : BitVec 32
  edx : BitVec 32

/-- The registers that the 32-bit system call interface reads: number and arguments. -/
structure Call where
  eax : BitVec 32
  ebx : BitVec 32
  ecx : BitVec 32
  edx : BitVec 32
  esi : BitVec 32
  edi : BitVec 32
  ebp : BitVec 32

/-- The processor and the kernel. The answer to a system call may depend on the memory and on all calls before. -/
structure Outside where
  cpuid : BitVec 32 → CpuidLeaf
  tsc : BitVec 64
  answer : List (Call × Memory) → Call → Memory → Word
  calls : List (Call × Memory)

abbrev State := Machine Reg Outside

/-- The low halves of the registers. -/
def callOf (m : State) : Call where
  eax := (m.regs .rax).setWidth 32
  ebx := (m.regs .rbx).setWidth 32
  ecx := (m.regs .rcx).setWidth 32
  edx := (m.regs .rdx).setWidth 32
  esi := (m.regs .rsi).setWidth 32
  edi := (m.regs .rdi).setWidth 32
  ebp := (m.regs .rbp).setWidth 32

/-- The call is recorded, and its answer is in `rax`. -/
def int80 (m : State) : State :=
  { m.set .rax (m.world.answer m.world.calls (callOf m) m.mem) with
    world := { m.world with calls := m.world.calls ++ [(callOf m, m.mem)] } }

def gate : Env → State → Option State
  | .cpuid, m =>
    let leaf := m.world.cpuid ((m.regs .rax).setWidth 32)
    some ((((m.set .rax (leaf.eax.setWidth 64)).set .rbx (leaf.ebx.setWidth 64)).set .rcx (leaf.ecx.setWidth 64)).set
      .rdx (leaf.edx.setWidth 64))
  | .rdtsc, m =>
    some ((m.set .rax ((m.world.tsc.setWidth 32).setWidth 64)).set .rdx
      (((m.world.tsc >>> 32).setWidth 32).setWidth 64))
  | .int80, m => some (int80 m)

/-- The registers in which these instructions leave their results. -/
def touched : Env → List Reg
  | .cpuid => [.rax, .rbx, .rcx, .rdx]
  | .rdtsc => [.rax, .rdx]
  | .int80 => [.rax]

theorem gate_tame : Block.Tame gate touched where
  regs {e m m'} h r hr := by
    cases e with
    | cpuid =>
      cases Option.some.inj h
      simp only [touched, List.mem_cons, List.not_mem_nil, or_false, not_or] at hr
      simp only [Machine.set_other _ _ hr.1, Machine.set_other _ _ hr.2.1, Machine.set_other _ _ hr.2.2.1,
        Machine.set_other _ _ hr.2.2.2]
    | rdtsc =>
      cases Option.some.inj h
      simp only [touched, List.mem_cons, List.not_mem_nil, or_false, not_or] at hr
      simp only [Machine.set_other _ _ hr.1, Machine.set_other _ _ hr.2]
    | int80 =>
      cases Option.some.inj h
      exact Machine.set_other m _ fun heq => hr (List.mem_singleton.mpr heq)
  mem {e m m'} h := by
    cases e with
    | cpuid => cases Option.some.inj h; rfl
    | rdtsc => cases Option.some.inj h; rfl
    | int80 => cases Option.some.inj h; rfl

/-! ## The text of the blocks -/

section Text

/-- `%%r` in the text. -/
def reg (r : Reg) : AsmOperand Reg := .lit (.reg r)

/-- `$v` in the text. -/
def imm (v : Word) : AsmOperand Reg := .lit (.imm v)

/-- `disp(%%base)` in the text. -/
def deref (disp : Word) (base : Reg) : AsmOperand Reg := .lit (.mem base disp)

/-- `%k` in the text. -/
def arg (k : Nat) : AsmOperand Reg := .arg k

def movq (src dst : AsmOperand Reg) : Instr (AsmOperand Reg) Env := .mov 8 src dst
def movl (src dst : AsmOperand Reg) : Instr (AsmOperand Reg) Env := .mov 4 src dst
def addq (src dst : AsmOperand Reg) : Instr (AsmOperand Reg) Env := .add 8 src dst

end Text

/-- `example_cpuid`. -/
def cpuidBlock : Block Reg Env where
  code := [.env .cpuid]
  args := []
  clobbers := [.rax, .rbx, .rcx, .rdx]
  memory := false

/-- `example_rdtsc`. -/
def rdtscBlock : Block Reg Env where
  code := [.env .rdtsc]
  args := []
  clobbers := [.rax, .rdx]
  memory := false

/-- `example_register_ops`: `%0` is `result`, `%1` is `input`. -/
def registerOpsBlock : Block Reg Env where
  code := [movq (arg 1) (reg .rax), addq (imm 10) (reg .rax), movq (reg .rax) (arg 0)]
  args := [.outMem 8, .inMem 8]
  clobbers := [.rax]
  memory := false

/-- `example_multi_commands`: `%0`, `%1`, `%2` are the variables `rax`, `rbx`, `rcx`. -/
def multiCommandsBlock : Block Reg Env where
  code := [movq (imm 100) (reg .rax), movq (imm 200) (reg .rbx), addq (reg .rbx) (reg .rax), movq (reg .rax) (arg 0),
    movq (reg .rbx) (arg 1), movq (imm 300) (reg .rcx), movq (reg .rcx) (arg 2)]
  args := [.outMem 8, .outMem 8, .outMem 8]
  clobbers := [.rax, .rbx, .rcx]
  memory := false

/-- `example_read_params`: `%0` is `result`, `%1` and `%2` are the inputs. -/
def readParamsBlock : Block Reg Env where
  code := [movq (arg 1) (reg .rax), movq (arg 2) (reg .rbx), addq (reg .rbx) (reg .rax), movq (reg .rax) (arg 0)]
  args := [.outMem 8, .inMem 8, .inMem 8]
  clobbers := [.rax, .rbx]
  memory := false

/-- `example_write_params`: `%0` and `%1` are the outputs. -/
def writeParamsBlock : Block Reg Env where
  code := [movq (imm 123) (reg .rax), movq (imm 456) (reg .rbx), movq (reg .rax) (arg 0), movq (reg .rbx) (arg 1)]
  args := [.outMem 8, .outMem 8]
  clobbers := [.rax, .rbx]
  memory := false

/-- `example_address_usage`: `%0` is `sum`, `%1` is the array of three words. -/
def addressUsageBlock : Block Reg Env where
  code := [movq (arg 1) (reg .rsi), movq (deref 0 .rsi) (reg .rax), addq (deref 8 .rsi) (reg .rax),
    addq (deref 16 .rsi) (reg .rax), movq (reg .rax) (arg 0)]
  args := [.outMem 8, .inMem 24]
  clobbers := [.rax, .rsi]
  memory := false

/-- The four instructions that exchange what `rax` and `rbx` point to. -/
def exchange : List (Instr (AsmOperand Reg) Env) :=
  [movq (deref 0 .rax) (reg .rcx), movq (deref 0 .rbx) (reg .rdx), movq (reg .rdx) (deref 0 .rax),
    movq (reg .rcx) (deref 0 .rbx)]

/-- `example_swap_variables`: `%0` and `%1` are `x` and `y`, `%2` and `%3` their addresses. -/
def swapVariablesBlock : Block Reg Env where
  code := movq (arg 2) (reg .rax) :: movq (arg 3) (reg .rbx) :: exchange
  args := [.outMem 8, .outMem 8, .inReg, .inReg]
  clobbers := [.rax, .rbx, .rcx, .rdx]
  memory := true

/-- `swap_asm` of the assignment: `%0` and `%1` are the pointers `a` and `b`, in memory. -/
def swapAsmBlock : Block Reg Env where
  code := movq (arg 0) (reg .rax) :: movq (arg 1) (reg .rbx) :: exchange
  args := [.inMem 8, .inMem 8]
  clobbers := [.rax, .rbx, .rcx, .rdx]
  memory := true

/-- `write_using_int80_direct`: `%0` is the `int` `result`, `%1` is the pointer `msg`, `%2` is the `int` `len`. -/
def int80Block : Block Reg Env where
  code := [movl (imm 4) (reg .rax), movl (imm 1) (reg .rbx), movl (arg 1) (reg .rcx), movl (arg 2) (reg .rdx),
    .env .int80, movl (reg .rax) (arg 0)]
  args := [.outMem 4, .inMem 8, .inMem 4]
  clobbers := [.rax, .rbx, .rcx, .rdx]
  memory := false

def blocks : List (Block Reg Env) :=
  [cpuidBlock, rdtscBlock, registerOpsBlock, multiCommandsBlock, readParamsBlock, writeParamsBlock, addressUsageBlock,
    swapVariablesBlock, swapAsmBlock, int80Block]

theorem blocks_declared : ∀ B ∈ blocks, B.declared touched = true := by decide

/-- **The blocks overwrite only what they list.** Wherever the operands of a block are placed, a run of it that does
not fault leaves every register outside its list as it was, and unless the list has `"memory"`, every byte that is not
in one of its output variables. -/
theorem blocks_kept {B : Block Reg Env} (hB : B ∈ blocks) {place : Nat → Operand Reg} (hplace : B.Places place)
    {m m' : State} (h : run gate (B.instrs place) m = some m') :
    (∀ r ∉ B.clobbers, m'.regs r = m.regs r) ∧
      (B.memory = false → ∀ x, m'.mem x ≠ m.mem x →
        ∃ k width a, B.args[k]? = some (.outMem width) ∧ (place k).address m = some a ∧ (x - a).toNat < width) := by
  have hkept := Block.run_kept gate_tame (blocks_declared B hB) hplace h
  exact ⟨hkept.regs, hkept.mem⟩

/-- The system call with its variables on the stack: `result` is overwritten, and the byte right behind it is not. -/
theorem blocks_kept_int80 : ∃ m m' : State,
    run gate (int80Block.instrs fun k => .mem .rsp (BitVec.ofNat 64 (8 * k))) m = some m' ∧
      m.mem 0 = some 9 ∧ m'.mem 0 = some 5 ∧ m.mem 4 = some 9 ∧ m'.mem 4 = some 9 := by
  let m : State := ⟨fun _ => 0, fun _ => some 9, ⟨fun _ => ⟨0, 0, 0, 0⟩, 0, fun _ _ _ => 5, []⟩⟩
  have hplace : int80Block.Places fun k => .mem .rsp (BitVec.ofNat 64 (8 * k)) := Block.places_iff.mpr (by decide)
  have hkept := blocks_kept (B := int80Block) (m := m) (by simp [blocks]) hplace rfl
  refine ⟨m, _, rfl, rfl, by decide, rfl, ?_⟩
  by_contra hchanged
  obtain ⟨k, width, a, hk, ha, hlt⟩ := hkept.2 rfl 4 hchanged
  match k with
  | 0 =>
    cases hk
    cases ha
    exact absurd hlt (by decide)
  | 1 | 2 => cases hk
  | k + 3 => cases hk

end KernelModules.InlineAssembly
