import KernelModules.InlineAssembly.Effects
import KernelModules.Lib.CString
import Mathlib.Tactic.IntervalCases

/-!
# The inline-assembly module

`inline_asm_init` runs one of eight examples, chosen by the module parameter, and fails for any other number. An example
gives its variables their values, runs its block and prints what is in the variables then; `none` is a fault in the
kernel.

- `inlineAsmInit_outcome`: what the module prints and returns is a function of the parameter and the processor, wherever
  the compiler puts the variables (`outcome`), except for example 6, which cannot be loaded without a fault while the
  first page is not mapped.
-/

namespace KernelModules.InlineAssembly

open Lib

/-! ## The code -/

/-- The four characters at `&r` of a 32-bit variable, as `%.4s` prints them. -/
def chars (r : BitVec 32) : List UInt8 := cstr ((List.range 4).map fun i => UInt8.ofNat (r.toNat / 256 ^ i))

/-- Texts of the messages. -/
def cpuidText (ebx edx ecx : BitVec 32) : List UInt8 :=
  ascii "CPUID Example - CPU Vendor: " ++ chars ebx ++ chars edx ++ chars ecx ++ ascii "\n"

def rdtscText (tsc : Word) : List UInt8 := ascii "RDTSC Example - TSC: " ++ decimal tsc.toNat ++ ascii "\n"

def registerOpsText (input result : Word) : List UInt8 :=
  ascii "Register Ops Example - Input: " ++ decimal input.toNat ++ ascii ", Result: " ++ decimal result.toNat ++
    ascii "\n"

def multiCommandsText (rax rbx rcx : Word) : List UInt8 :=
  ascii "Multi Commands Example - Results: rax=" ++ decimal rax.toNat ++ ascii ", rbx=" ++ decimal rbx.toNat ++
    ascii ", rcx=" ++ decimal rcx.toNat ++ ascii "\n"

def readParamsText (input1 input2 result : Word) : List UInt8 :=
  ascii "Read Params Example - Sum of " ++ decimal input1.toNat ++ ascii " + " ++ decimal input2.toNat ++ ascii " = " ++
    decimal result.toNat ++ ascii "\n"

def writeParamsText (output1 output2 : Word) : List UInt8 :=
  ascii "Write Params Example - Outputs: " ++ decimal output1.toNat ++ ascii ", " ++ decimal output2.toNat ++ ascii "\n"

def addressUsageText (sum : Word) : List UInt8 :=
  ascii "Address Usage Example - Array sum: " ++ decimal sum.toNat ++ ascii "\n"

def swapText (which : String) (x y : Word) : List UInt8 :=
  ascii "Swap Example - " ++ ascii which ++ ascii ": x=" ++ decimal x.toNat ++ ascii ", y=" ++ decimal y.toNat ++
    ascii "\n"

section Functions

variable (place : Nat → Operand Reg) (m : State)

/-- `"a"(0)` puts the leaf into `rax`. -/
def exampleCpuid : Option (List (List UInt8)) := do
  let m ← run gate (cpuidBlock.instrs place) (m.set .rax 0)
  return [cpuidText ((m.regs .rbx).setWidth 32) ((m.regs .rdx).setWidth 32) ((m.regs .rcx).setWidth 32)]

def exampleRdtsc : Option (List (List UInt8)) := do
  let m ← run gate (rdtscBlock.instrs place) m
  return [rdtscText ((m.regs .rdx <<< 32) ||| m.regs .rax)]

def exampleRegisterOps : Option (List (List UInt8)) := do
  let m ← setVar place 1 42 m
  let m ← run gate (registerOpsBlock.instrs place) m
  return [registerOpsText (← getVar place 1 m) (← getVar place 0 m)]

def exampleMultiCommands : Option (List (List UInt8)) := do
  let m ← run gate (multiCommandsBlock.instrs place) m
  return [multiCommandsText (← getVar place 0 m) (← getVar place 1 m) (← getVar place 2 m)]

def exampleReadParams : Option (List (List UInt8)) := do
  let m ← setVar place 1 42 m
  let m ← setVar place 2 84 m
  let m ← run gate (readParamsBlock.instrs place) m
  return [readParamsText (← getVar place 1 m) (← getVar place 2 m) (← getVar place 0 m)]

def exampleWriteParams : Option (List (List UInt8)) := do
  let m ← run gate (writeParamsBlock.instrs place) m
  return [writeParamsText (← getVar place 0 m) (← getVar place 1 m)]

/-- An element of the array that is the operand `%1`. -/
def setElement (i : Nat) (v : Word) (m : State) : Option State := do
  let a ← (place 1).address m
  let mem ← m.mem.store (a + BitVec.ofNat 64 (8 * i)) 8 v.toNat
  return { m with mem := mem }

def exampleAddressUsage : Option (List (List UInt8)) := do
  let m ← setElement place 0 10 m
  let m ← setElement place 1 20 m
  let m ← setElement place 2 30 m
  let m ← run gate (addressUsageBlock.instrs place) m
  return [addressUsageText (← getVar place 0 m)]

def exampleSwapVariables : Option (List (List UInt8)) := do
  let m ← setVar place 0 42 m
  let m ← setVar place 1 84 m
  let before := swapText "Before" (← getVar place 0 m) (← getVar place 1 m)
  let m ← run gate (swapVariablesBlock.instrs place) m
  return [before, swapText "After" (← getVar place 0 m) (← getVar place 1 m)]

end Functions

def loadedText : List UInt8 := ascii "Inline Assembly Examples Module Loaded\n"

def runningText (example_ : Int32) : List UInt8 := ascii "Running example " ++ ascii (toString example_) ++ ascii "\n"

def invalidText (example_ : Int32) : List UInt8 :=
  ascii "Invalid example number " ++ ascii (toString example_) ++ ascii " (valid: 0-7)\n"

def availableTexts : List (List UInt8) :=
  ["Available examples:\n", "  0: CPUID\n", "  1: RDTSC\n", "  2: Register Operations\n", "  3: Multiple Commands\n",
    "  4: Reading Parameters\n", "  5: Writing Parameters\n", "  6: Address Usage\n", "  7: Variable Swap\n"].map ascii

/-- The cases of the `switch`. -/
def exampleOf : Int → Option ((Nat → Operand Reg) → State → Option (List (List UInt8)))
  | 0 => some exampleCpuid
  | 1 => some exampleRdtsc
  | 2 => some exampleRegisterOps
  | 3 => some exampleMultiCommands
  | 4 => some exampleReadParams
  | 5 => some exampleWriteParams
  | 6 => some exampleAddressUsage
  | 7 => some exampleSwapVariables
  | _ => none

/-- The result of `inline_asm_init` and the lines it prints. -/
def inlineAsmInit (example_ : Int32) (place : Nat → Operand Reg) (m : State) : Option (Int × List (List UInt8)) :=
  match exampleOf example_.toInt with
  | some run => (run place m).map fun lines => (0, loadedText :: runningText example_ :: lines)
  | none => some (-eInval, loadedText :: runningText example_ :: invalidText example_ :: availableTexts)

/-! ## The blocks on any values -/

section Blocks

variable {place : Nat → Operand Reg} {m : State}

theorem cpuid_wp (place : Nat → Operand Reg) (m : State) :
    wp gate (cpuidBlock.instrs place) (fun m' =>
      m'.regs .rbx = (m.world.cpuid ((m.regs .rax).setWidth 32)).ebx.setWidth 64 ∧
      m'.regs .rcx = (m.world.cpuid ((m.regs .rax).setWidth 32)).ecx.setWidth 64 ∧
      m'.regs .rdx = (m.world.cpuid ((m.regs .rax).setWidth 32)).edx.setWidth 64) m :=
  wp_env rfl (wp_nil.mpr (by simp [Machine.set_other]))

/-- The halves that `rdtsc` leaves in two registers are the halves of the counter. -/
theorem tsc_halves (tsc : Word) :
    (((tsc >>> 32).setWidth 32).setWidth 64 <<< 32) ||| ((tsc.setWidth 32).setWidth 64) = tsc := by
  apply BitVec.eq_of_getLsbD_eq
  intro i hi
  by_cases hlow : i < 32
  · simp [hlow, hi]
  · have hshift : 32 + (i - 32) = i := by omega
    have hhigh : i - 32 < 32 := by omega
    simp [hlow, hi, hshift, hhigh]

theorem rdtsc_wp (place : Nat → Operand Reg) (m : State) :
    wp gate (rdtscBlock.instrs place) (fun m' => (m'.regs .rdx <<< 32) ||| m'.regs .rax = m.world.tsc) m :=
  wp_env rfl (wp_nil.mpr (by simpa [Machine.set_other] using tsc_halves m.world.tsc))

theorem registerOps_wp (h : Frame registerOpsBlock place m) {input : Word} (hinput : getVar place 1 m = some input) :
    wp gate (registerOpsBlock.instrs place)
      (fun m' => getVar place 0 m' = some (input + 10) ∧ getVar place 1 m' = some input) m := by
  refine wp_load hinput ?_
  refine wp_add (v := 10) (congrArg some (lowBytes_eight _)) ?_
  have hrax := h.set (r := .rax) (by decide) input
  refine wp_store (B := registerOpsBlock) (k := 0) (hrax.set (by decide) _) (by decide) fun m' hs => wp_nil.mpr ⟨?_, ?_⟩
  · rw [hs.self, Machine.set_self, Machine.set_self, BitVec.add_comm]
  · rw [hs.other 1 (by decide) (by decide), hrax.getVar_set (by decide) (by decide),
      h.getVar_set (by decide) (by decide), hinput]

theorem readParams_wp (h : Frame readParamsBlock place m) {input1 input2 : Word} (h1 : getVar place 1 m = some input1)
    (h2 : getVar place 2 m = some input2) :
    wp gate (readParamsBlock.instrs place) (fun m' => getVar place 0 m' = some (input1 + input2) ∧
      getVar place 1 m' = some input1 ∧ getVar place 2 m' = some input2) m := by
  have hrax := h.set (r := .rax) (by decide) input1
  have hrbx := hrax.set (r := .rbx) (by decide) input2
  refine wp_load h1 ?_
  refine wp_load ((h.getVar_set (k := 2) (by decide) (by decide) _).trans h2) ?_
  refine wp_add (v := input2) (congrArg some ((lowBytes_eight _).trans (Machine.set_self _ _ _))) ?_
  refine wp_store (B := readParamsBlock) (k := 0) (hrbx.set (by decide) _) (by decide) fun m' hs =>
    wp_nil.mpr ⟨?_, ?_, ?_⟩
  · rw [hs.self, Machine.set_self, Machine.set_other _ _ (by decide), Machine.set_self, BitVec.add_comm]
  · rw [hs.other 1 (by decide) (by decide), hrbx.getVar_set (by decide) (by decide),
      hrax.getVar_set (by decide) (by decide), h.getVar_set (by decide) (by decide), h1]
  · rw [hs.other 2 (by decide) (by decide), hrbx.getVar_set (by decide) (by decide),
      hrax.getVar_set (by decide) (by decide), h.getVar_set (by decide) (by decide), h2]

theorem multiCommands_wp (h : Frame multiCommandsBlock place m) :
    wp gate (multiCommandsBlock.instrs place) (fun m' => getVar place 0 m' = some 300 ∧
      getVar place 1 m' = some 200 ∧ getVar place 2 m' = some 300) m := by
  refine wp_imm (wp_imm ?_)
  refine wp_add (v := 200) (congrArg some ((lowBytes_eight _).trans (Machine.set_self _ _ _))) ?_
  refine wp_store (B := multiCommandsBlock) (k := 0) ?_ (by decide) fun m₁ h₁ => ?_
  · exact ((h.set (by decide) _).set (by decide) _).set (by decide) _
  refine wp_store (B := multiCommandsBlock) (k := 1) h₁.frame (by decide) fun m₂ h₂ => wp_imm ?_
  have hrcx := h₂.frame.set (r := .rcx) (by decide) 300
  refine wp_store (B := multiCommandsBlock) (k := 2) hrcx (by decide) fun m₃ h₃ => wp_nil.mpr ⟨?_, ?_, ?_⟩
  · rw [h₃.other 0 (by decide) (by decide), h₂.frame.getVar_set (by decide) (by decide),
      h₂.other 0 (by decide) (by decide), h₁.self]
    simp [Machine.set_other]
  · rw [h₃.other 1 (by decide) (by decide), h₂.frame.getVar_set (by decide) (by decide), h₂.self, h₁.regs]
    simp [Machine.set_other]
  · rw [h₃.self, Machine.set_self]

theorem writeParams_wp (h : Frame writeParamsBlock place m) :
    wp gate (writeParamsBlock.instrs place) (fun m' => getVar place 0 m' = some 123 ∧
      getVar place 1 m' = some 456) m := by
  refine wp_imm (wp_imm ?_)
  refine wp_store (B := writeParamsBlock) (k := 0) ?_ (by decide) fun m₁ h₁ => ?_
  · exact (h.set (by decide) _).set (by decide) _
  refine wp_store (B := writeParamsBlock) (k := 1) h₁.frame (by decide) fun m₂ h₂ => wp_nil.mpr ⟨?_, ?_⟩
  · rw [h₂.other 0 (by decide) (by decide), h₁.self, Machine.set_other _ _ (by decide), Machine.set_self]
  · rw [h₂.self, h₁.regs, Machine.set_self]

/-- `x` and `y` are apart, and the two input registers hold their addresses. -/
theorem swapVariables_wp (h : Frame swapVariablesBlock place m) (hx : getVar place 2 m = (place 0).address m)
    (hy : getVar place 3 m = (place 1).address m) {x y : Word} (h0 : getVar place 0 m = some x)
    (h1 : getVar place 1 m = some y) :
    wp gate (swapVariablesBlock.instrs place) (fun m' => getVar place 0 m' = some y ∧
      getVar place 1 m' = some x) m := by
  obtain ⟨a, ha, hmapa, hvala⟩ := h.variable (k := 0) (by decide)
  obtain ⟨b, hb, hmapb, hvalb⟩ := h.variable (k := 1) (by decide)
  have hapart : Memory.Apart a 8 b 8 := h.words_apart (j := 0) (k := 1) (by decide) (by decide) (by decide) ha hb
  obtain ⟨m', hrun, hex⟩ := load_exchange_wp h.places (by decide) (by decide) (hx.trans ha) (hy.trans hb) hmapa hmapb
    (.inr hapart)
  have hkept := (Block.run_kept gate_tame (by decide) h.places hrun).regs
  refine ⟨m', hrun, ?_, ?_⟩
  · rw [hvala m' hkept, ← h1, hvalb m fun _ _ => rfl]
    exact hex.first
  · rw [hvalb m' hkept, ← h0, hvala m fun _ _ => rfl]
    exact hex.second

end Blocks

/-! ## The examples -/

section Examples

variable {place : Nat → Operand Reg} {m : State}

theorem exampleCpuid_eq (place : Nat → Operand Reg) (m : State) :
    exampleCpuid place m =
      some [cpuidText (m.world.cpuid 0).ebx (m.world.cpuid 0).edx (m.world.cpuid 0).ecx] := by
  obtain ⟨m', hrun, hb, hc, hd⟩ := cpuid_wp place (m.set .rax 0)
  simp only [exampleCpuid, hrun, Option.bind_eq_bind, Option.bind_some, hb, hc, hd, Machine.set_self, Machine.set_world]
  simp

theorem exampleRdtsc_eq (place : Nat → Operand Reg) (m : State) :
    exampleRdtsc place m = some [rdtscText m.world.tsc] := by
  obtain ⟨m', hrun, htsc⟩ := rdtsc_wp place m
  simp only [exampleRdtsc, hrun, Option.bind_eq_bind, Option.bind_some, htsc, Option.pure_def]

theorem exampleRegisterOps_eq (h : Frame registerOpsBlock place m) :
    exampleRegisterOps place m = some [registerOpsText 42 52] := by
  obtain ⟨m₁, hset, h₁⟩ := h.setVar (k := 1) (by decide) 42
  obtain ⟨m₂, hrun, hresult, hinput⟩ := registerOps_wp h₁.frame h₁.self
  simp only [exampleRegisterOps, hset, hrun, Option.bind_eq_bind, Option.bind_some, hresult, hinput]
  rfl

theorem exampleMultiCommands_eq (h : Frame multiCommandsBlock place m) :
    exampleMultiCommands place m = some [multiCommandsText 300 200 300] := by
  obtain ⟨m₁, hrun, hrax, hrbx, hrcx⟩ := multiCommands_wp h
  simp only [exampleMultiCommands, hrun, Option.bind_eq_bind, Option.bind_some, hrax, hrbx, hrcx, Option.pure_def]

theorem exampleReadParams_eq (h : Frame readParamsBlock place m) :
    exampleReadParams place m = some [readParamsText 42 84 126] := by
  obtain ⟨m₁, hset₁, h₁⟩ := h.setVar (k := 1) (by decide) 42
  obtain ⟨m₂, hset₂, h₂⟩ := h₁.frame.setVar (k := 2) (by decide) 84
  have hinput1 : getVar place 1 m₂ = some 42 := (h₂.other 1 (by decide) (by decide)).trans h₁.self
  obtain ⟨m₃, hrun, hresult, hfst, hsnd⟩ := readParams_wp h₂.frame hinput1 h₂.self
  simp only [exampleReadParams, hset₁, hset₂, hrun, Option.bind_eq_bind, Option.bind_some, hresult, hfst, hsnd]
  rfl

theorem exampleWriteParams_eq (h : Frame writeParamsBlock place m) :
    exampleWriteParams place m = some [writeParamsText 123 456] := by
  obtain ⟨m₁, hrun, hfst, hsnd⟩ := writeParams_wp h
  simp only [exampleWriteParams, hrun, Option.bind_eq_bind, Option.bind_some, hfst, hsnd, Option.pure_def]

theorem exampleSwapVariables_eq (h : Frame swapVariablesBlock place m) (hx : getVar place 2 m = (place 0).address m)
    (hy : getVar place 3 m = (place 1).address m) :
    exampleSwapVariables place m = some [swapText "Before" 42 84, swapText "After" 84 42] := by
  obtain ⟨m₁, hset₁, h₁⟩ := h.setVar (k := 0) (by decide) 42
  obtain ⟨m₂, hset₂, h₂⟩ := h₁.frame.setVar (k := 1) (by decide) 84
  have hregs : m₂.regs = m.regs := h₂.regs.trans h₁.regs
  have h0 : getVar place 0 m₂ = some 42 := (h₂.other 0 (by decide) (by decide)).trans h₁.self
  have hx₂ : getVar place 2 m₂ = (place 0).address m₂ := by
    rw [getVar_inReg h.places rfl hregs, address_regs hregs, hx]
  have hy₂ : getVar place 3 m₂ = (place 1).address m₂ := by
    rw [getVar_inReg h.places rfl hregs, address_regs hregs, hy]
  obtain ⟨m₃, hrun, hfst, hsnd⟩ := swapVariables_wp h₂.frame hx₂ hy₂ h0 h₂.self
  simp only [exampleSwapVariables, hset₁, hset₂, hrun, h0, h₂.self, Option.bind_eq_bind, Option.bind_some, hfst, hsnd,
    Option.pure_def]

/-- Elements of the array are set at its address and leave what lies apart. -/
theorem setElement_some {i : Nat} {v : Word} {m' : State} (h : setElement place i v m = some m') :
    ∃ a, (place 1).address m = some a ∧ m.mem.store (a + BitVec.ofNat 64 (8 * i)) 8 v.toNat = some m'.mem ∧
      m'.regs = m.regs := by
  obtain ⟨a, ha, h⟩ := Option.bind_eq_some_iff.mp h
  obtain ⟨mem, hmem, h⟩ := Option.bind_eq_some_iff.mp h
  cases Option.some.inj h
  exact ⟨a, ha, hmem, rfl⟩

theorem apart_elements (a : Word) {i : Nat} (hi : 0 < i) (hlt : i < 3) :
    Memory.Apart (a + BitVec.ofNat 64 (8 * i)) 8 a 8 := by
  intro x hx y hy heq
  rw [BitVec.add_assoc, ← BitVec.ofNat_add, BitVec.add_right_inj] at heq
  have hnat := congrArg BitVec.toNat heq
  simp only [BitVec.toNat_ofNat] at hnat
  omega

/-- The example cannot be run while the first page is not mapped: `10` is in it. -/
theorem exampleAddressUsage_faults (hplace : addressUsageBlock.Places place)
    (hpage : ∀ a : Word, a.toNat < 4096 → m.mem a = none) : exampleAddressUsage place m = none := by
  cases hres : exampleAddressUsage place m with
  | none => rfl
  | some lines =>
    exfalso
    obtain ⟨m₁, h₁, hres⟩ := Option.bind_eq_some_iff.mp hres
    obtain ⟨m₂, h₂, hres⟩ := Option.bind_eq_some_iff.mp hres
    obtain ⟨m₃, h₃, hres⟩ := Option.bind_eq_some_iff.mp hres
    obtain ⟨m₄, hrun, -⟩ := Option.bind_eq_some_iff.mp hres
    obtain ⟨a, ha, hmem₁, hregs₁⟩ := setElement_some h₁
    obtain ⟨a₂, ha₂, hmem₂, hregs₂⟩ := setElement_some h₂
    obtain ⟨a₃, ha₃, hmem₃, hregs₃⟩ := setElement_some h₃
    rw [address_regs hregs₁, ha] at ha₂
    cases Option.some.inj ha₂
    rw [address_regs hregs₂, address_regs hregs₁, ha] at ha₃
    cases Option.some.inj ha₃
    -- The first element is still there when the block runs.
    have hten : getVar place 1 m₃ = some 10 := by
      obtain ⟨base, disp, hop, haddr⟩ := hplace.address (k := 1) rfl m₃
      rw [address_regs hregs₃, address_regs hregs₂, address_regs hregs₁, ha] at haddr
      rw [getVar, hop, value_mem, ← Option.some.inj haddr,
        wordAt_store_apart hmem₃ (apart_elements a (by decide) (by decide)),
        wordAt_store_apart hmem₂ (apart_elements a (by decide) (by decide))]
      simpa using wordAt_store hmem₁
    obtain ⟨⟨u, hu⟩, -, -⟩ := addressUsage_loads hten hrun
    have hmapped := mapped_of_wordAt hu 0 (by decide)
    rw [Memory.isSome_store hmem₃, Memory.isSome_store hmem₂, Memory.isSome_store hmem₁, hpage _ (by decide)] at hmapped
    cases hmapped

end Examples

/-! ## The module -/

/-- The variables of the example that is run have their places. -/
def Laid (place : Nat → Operand Reg) (m : State) : Int → Prop
  | 2 => Frame registerOpsBlock place m
  | 3 => Frame multiCommandsBlock place m
  | 4 => Frame readParamsBlock place m
  | 5 => Frame writeParamsBlock place m
  | 6 => addressUsageBlock.Places place
  | 7 => Frame swapVariablesBlock place m ∧ getVar place 2 m = (place 0).address m ∧
      getVar place 3 m = (place 1).address m
  | _ => True

/-- The lines that an example prints, by the processor; `none` for the one that faults. -/
def linesOf (w : Outside) : Int → Option (List (List UInt8))
  | 0 => some [cpuidText (w.cpuid 0).ebx (w.cpuid 0).edx (w.cpuid 0).ecx]
  | 1 => some [rdtscText w.tsc]
  | 2 => some [registerOpsText 42 52]
  | 3 => some [multiCommandsText 300 200 300]
  | 4 => some [readParamsText 42 84 126]
  | 5 => some [writeParamsText 123 456]
  | 7 => some [swapText "Before" 42 84, swapText "After" 84 42]
  | _ => none

/-- What the module prints and returns. -/
def outcome (example_ : Int32) (w : Outside) : Option (Int × List (List UInt8)) :=
  if 0 ≤ example_.toInt ∧ example_.toInt ≤ 7 then
    (linesOf w example_.toInt).map fun lines => (0, loadedText :: runningText example_ :: lines)
  else some (-eInval, loadedText :: runningText example_ :: invalidText example_ :: availableTexts)

theorem exampleOf_lines {n : Int} {run : (Nat → Operand Reg) → State → Option (List (List UInt8))}
    (hrun : exampleOf n = some run) {place : Nat → Operand Reg} {m : State} (h : Laid place m n)
    (hpage : n = 6 → ∀ a : Word, a.toNat < 4096 → m.mem a = none) : run place m = linesOf m.world n := by
  unfold exampleOf at hrun
  split at hrun <;> cases hrun
  · exact exampleCpuid_eq place m
  · exact exampleRdtsc_eq place m
  · exact exampleRegisterOps_eq h
  · exact exampleMultiCommands_eq h
  · exact exampleReadParams_eq h
  · exact exampleWriteParams_eq h
  · exact exampleAddressUsage_faults h (hpage rfl)
  · exact exampleSwapVariables_eq h.1 h.2.1 h.2.2

theorem exampleOf_eq_none {n : Int} : exampleOf n = none ↔ ¬(0 ≤ n ∧ n ≤ 7) := by
  constructor
  · intro h hn
    obtain ⟨h0, h7⟩ := hn
    interval_cases n <;> cases h
  · intro h
    unfold exampleOf
    split <;> first | rfl | exact absurd (by decide) h

/-- **The inline-assembly module.** For every value of the parameter and every placement of the variables, loading the
module prints and returns what `outcome` says; example 6 is a fault as long as the first page is not mapped. -/
theorem inlineAsmInit_outcome (example_ : Int32) {place : Nat → Operand Reg} {m : State}
    (h : Laid place m example_.toInt)
    (hpage : example_.toInt = 6 → ∀ a : Word, a.toNat < 4096 → m.mem a = none) :
    inlineAsmInit example_ place m = outcome example_ m.world := by
  unfold inlineAsmInit outcome
  cases hrun : exampleOf example_.toInt with
  | some run =>
    rw [if_pos (by by_contra hn; rw [exampleOf_eq_none.mpr hn] at hrun; cases hrun)]
    simp only [exampleOf_lines hrun h hpage]
  | none => rw [if_neg (exampleOf_eq_none.mp hrun)]

/-- The sum on a stack of one page above the first. -/
theorem inlineAsmInit_outcome_readParams : ∃ m : State, (∀ a : Word, a.toNat < 4096 → m.mem a = none) ∧
    inlineAsmInit 4 onStack m = some (0, [loadedText, runningText 4, readParamsText 42 84 126]) := by
  let m : State := ⟨fun _ => 4096, fun a => if 4096 ≤ a.toNat then some 0 else none,
    ⟨fun _ => ⟨0, 0, 0, 0⟩, 0, fun _ _ _ => 0, []⟩⟩
  have hpage : ∀ a : Word, a.toNat < 4096 → m.mem a = none := fun a ha => if_neg (by omega)
  have hstack : m.mem.Mapped (m.regs .rsp) 128 := fun i hi => by
    simp [m]
    omega
  exact ⟨m, hpage, (inlineAsmInit_outcome 4 (frame_onStack (by decide) (by decide) (by decide) hstack)
    fun _ => hpage).trans rfl⟩

end KernelModules.InlineAssembly
