import KernelModules.InlineAssembly.Variables

/-!
# The swaps, the array sum and the system call

The two blocks that exchange variables load the two addresses and then move the two words across. `swap_asm` gets the
addresses as pointer variables in memory, `example_swap_variables` in registers of the compiler's choice.

- `swaps_exchange`: for any two addresses that are equal or eight bytes apart, both blocks exchange the words there
  and change no other byte; the register constraint and the list of overwritten registers make this true for every
  placement;
- `address_usage_sum`: the block of `example_address_usage` does not add up its array. It takes the first element as an
  address and adds up the three words there, so it faults unless these are mapped;
- `int80_call`: `write_using_int80_direct` makes one system call, `write` to descriptor 1 with the low half of the
  pointer, and `result` is what it returned.
-/

namespace KernelModules.InlineAssembly

open Lib

variable {m : State}

/-- The word at an address. -/
def wordAt (mem : Memory) (a : Word) : Option Word := (mem.load a 8).map (BitVec.ofNat 64)

theorem value_mem (base : Reg) (disp : Word) : (Operand.mem base disp).value 8 m = wordAt m.mem (m.regs base + disp) :=
  rfl

/-- `x` and `y` were exchanged at `a` and `b`: the words, and nothing else. -/
structure Exchanged (a b : Word) (mem mem' : Memory) : Prop where
  first : wordAt mem' a = wordAt mem b
  second : wordAt mem' b = wordAt mem a
  rest : ∀ x, (∀ i < 8, x ≠ a + BitVec.ofNat 64 i) → (∀ i < 8, x ≠ b + BitVec.ofNat 64 i) → mem' x = mem x

theorem wordAt_store {mem mem' : Memory} {a v : Word} (h : mem.store a 8 v.toNat = some mem') :
    wordAt mem' a = some v := by
  rw [wordAt, Memory.load_store_same h (by decide)]
  exact congrArg some (lowBytes_eight v)

theorem wordAt_store_apart {mem mem' : Memory} {a b v : Word} (h : mem.store a 8 v.toNat = some mem')
    (hd : Memory.Apart a 8 b 8) : wordAt mem' b = wordAt mem b := by
  rw [wordAt, Memory.load_store_apart h hd, wordAt]

theorem wordAt_mapped {mem : Memory} {a : Word} (h : mem.Mapped a 8) : ∃ v, wordAt mem a = some v := by
  obtain ⟨v, hv, -⟩ := Memory.load_mapped h
  exact ⟨_, by rw [wordAt, hv]; rfl⟩

theorem mapped_of_wordAt {mem : Memory} {a v : Word} (h : wordAt mem a = some v) : mem.Mapped a 8 := by
  obtain ⟨n, hn, -⟩ := Option.map_eq_some_iff.mp h
  exact Memory.mapped_of_load hn

/-- The four moves, once the addresses are in `rax` and `rbx`. -/
theorem exchange_wp (place : Nat → Operand Reg) {a b : Word} (ha : m.mem.Mapped a 8) (hb : m.mem.Mapped b 8)
    (hab : a = b ∨ Memory.Apart a 8 b 8) (hrax : m.regs .rax = a) (hrbx : m.regs .rbx = b) :
    wp gate (exchange.map (Block.fillInstr place)) (fun m' => Exchanged a b m.mem m'.mem) m := by
  obtain ⟨x, hx⟩ := wordAt_mapped ha
  obtain ⟨y, hy⟩ := wordAt_mapped hb
  obtain ⟨mem₁, hmem₁⟩ := Memory.store_mapped ha y.toNat
  obtain ⟨mem₂, hmem₂⟩ := Memory.store_mapped ((Memory.mapped_store hmem₁).mpr hb) x.toNat
  refine wp_deref (v := x) (by simp [value_mem, hrax, hx]) ?_
  refine wp_deref (v := y) (by simp [value_mem, Machine.set_other, hrbx, hy]) ?_
  refine wp_put (a := a) mem₁ (by simp [Machine.set_other, hrax]) (by simp [hmem₁]) ?_
  refine wp_put (a := b) mem₂ (by simp [Machine.set_other, hrbx]) (by simp [Machine.set_other, hmem₂]) ?_
  -- The second store comes last, so `b` holds the old word of `a` in any case; `a` keeps the first store if it is
  -- apart.
  refine wp_nil.mpr ⟨?_, (wordAt_store hmem₂).trans hx.symm, fun z hza hzb => ?_⟩
  · rcases hab with rfl | hab
    · exact (wordAt_store hmem₂).trans hx.symm
    · rw [wordAt_store_apart hmem₂ hab.symm, wordAt_store hmem₁, hy]
  · exact (Memory.store_apart hmem₂ hzb).trans (Memory.store_apart hmem₁ hza)

/-- Two operands of a block give the addresses, then the four moves follow. -/
theorem load_exchange_wp {B : Block Reg Env} {place : Nat → Operand Reg} (hplace : B.Places place)
    (hclob : .rax ∈ B.clobbers) {i j : Nat} (hj : j < B.args.length) {a b : Word} (hi : getVar place i m = some a)
    (hjv : getVar place j m = some b) (ha : m.mem.Mapped a 8) (hb : m.mem.Mapped b 8)
    (hab : a = b ∨ Memory.Apart a 8 b 8) :
    wp gate ((movq (arg i) (reg .rax) :: movq (arg j) (reg .rbx) :: exchange).map (Block.fillInstr place))
      (fun m' => Exchanged a b m.mem m'.mem) m := by
  -- `%j` is read after `rax` was overwritten, so it must not be placed there.
  have hjv' : getVar place j (m.set .rax a) = some b :=
    (Operand.value_set (hplace.not_mem_reads hj hclob)).trans hjv
  refine wp_load hi (wp_load hjv' ?_)
  exact exchange_wp place ha hb hab (by simp [Machine.set_other]) (by simp)

/-- **The swaps.** Wherever the operands are placed, both blocks exchange the words at two mapped addresses that are
equal or do not overlap, and change no other byte and no register outside their lists. -/
theorem swaps_exchange (place : Nat → Operand Reg) {a b : Word} (ha : m.mem.Mapped a 8) (hb : m.mem.Mapped b 8)
    (hab : a = b ∨ Memory.Apart a 8 b 8) :
    (swapAsmBlock.Places place → getVar place 0 m = some a → getVar place 1 m = some b →
      ∃ m', run gate (swapAsmBlock.instrs place) m = some m' ∧ Exchanged a b m.mem m'.mem ∧
        ∀ r ∉ swapAsmBlock.clobbers, m'.regs r = m.regs r) ∧
    (swapVariablesBlock.Places place → getVar place 2 m = some a → getVar place 3 m = some b →
      ∃ m', run gate (swapVariablesBlock.instrs place) m = some m' ∧ Exchanged a b m.mem m'.mem ∧
        ∀ r ∉ swapVariablesBlock.clobbers, m'.regs r = m.regs r) := by
  constructor
  · intro hplace h0 h1
    obtain ⟨m', hrun, hm'⟩ := load_exchange_wp hplace (by decide) (by decide) h0 h1 ha hb hab
    exact ⟨m', hrun, hm', (Block.run_kept gate_tame (by decide) hplace hrun).regs⟩
  · intro hplace h2 h3
    obtain ⟨m', hrun, hm'⟩ := load_exchange_wp hplace (by decide) (by decide) h2 h3 ha hb hab
    exact ⟨m', hrun, hm', (Block.run_kept gate_tame (by decide) hplace hrun).regs⟩

/-- The operands of `example_swap_variables`: variables on the stack, their addresses in two registers. -/
def swapPlace (k : Nat) : Operand Reg := if k < 2 then onStack k else if k = 2 then .reg .rdi else .reg .rsi

/-- Both blocks exchange 42 and 84: pointers on the stack, and variables on the stack with their addresses in
registers. -/
theorem swaps_exchange_stack :
    (∃ m', run gate (swapAsmBlock.instrs onStack) (stackOf [16, 24, 42, 84] 0) = some m' ∧
      wordAt m'.mem 16 = some 84 ∧ wordAt m'.mem 24 = some 42) ∧
    ∃ m', run gate (swapVariablesBlock.instrs swapPlace) ((stackOf [42, 84] 0).set .rsi 8) = some m' ∧
      wordAt m'.mem 0 = some 84 ∧ wordAt m'.mem 8 = some 42 := by
  constructor
  · obtain ⟨m', hrun, hex, -⟩ := (swaps_exchange (m := stackOf [16, 24, 42, 84] 0) (a := 16) (b := 24) onStack
      (stackOf_mapped _ _ _ _) (stackOf_mapped _ _ _ _) (.inr (by decide))).1
      (Block.places_iff.mpr (by decide)) (by decide) (by decide)
    exact ⟨m', hrun, hex.first.trans (by decide), hex.second.trans (by decide)⟩
  · obtain ⟨m', hrun, hex, -⟩ := (swaps_exchange (m := (stackOf [42, 84] 0).set .rsi 8) (a := 0) (b := 8) swapPlace
      (stackOf_mapped _ 0 _ _) (stackOf_mapped _ 0 _ _) (.inr (by decide))).2
      (Block.places_iff.mpr (by decide)) (by decide) (by decide)
    exact ⟨m', hrun, hex.first.trans (by decide), hex.second.trans (by decide)⟩

/-! ## The array -/

/-- What the block of `example_address_usage` leaves in `sum` when the words at its first element can be loaded. -/
theorem addressUsage_wp {place : Nat → Operand Reg} (hplace : addressUsageBlock.Places place) {a p u v w : Word}
    (ha : (place 0).address m = some a) (hmapped : m.mem.Mapped a 8) (hp : getVar place 1 m = some p)
    (hu : wordAt m.mem p = some u) (hv : wordAt m.mem (p + 8#64) = some v)
    (hw : wordAt m.mem (p + 16#64) = some w) :
    wp gate (addressUsageBlock.instrs place) (fun m' => getVar place 0 m' = some (u + v + w)) m := by
  refine wp_load hp ?_
  refine wp_deref (v := u) (by simp [value_mem, hu]) ?_
  refine wp_add (v := v) ((value_mem _ _).trans (by simp [Machine.set_other, hv])) ?_
  refine wp_add (v := w) ((value_mem _ _).trans (by simp [Machine.set_other, hw])) ?_
  have haddr : ∀ {s : State} {r : Reg} (_ : r ∈ addressUsageBlock.clobbers) (x : Word),
      (place 0).address s = some a → (place 0).address (s.set r x) = some a :=
    fun hr x hs => (address_set hplace (by decide) hr x).trans hs
  have hsum := haddr (r := .rax) (by decide) (w + (v + u)) (haddr (r := .rax) (by decide) (v + u)
    (haddr (r := .rax) (by decide) u (haddr (r := .rsi) (by decide) p ha)))
  refine wp_store_at (a := a) (by simpa using hsum) hmapped fun mem hmem => wp_nil.mpr ?_
  rw [getVar, Operand.value_of_address (a := a) ?_]
  · rw [← wordAt, wordAt_store hmem]
    simp only [Machine.set_self]
    rw [BitVec.add_comm w, BitVec.add_comm v]
  · rw [← hsum]
    exact (address_regs (by simp) (place 0))

/-- The block of `example_address_usage` goes through only if it can load the three words at its first element. -/
theorem addressUsage_loads {place : Nat → Operand Reg} {m' : State} {p : Word} (hp : getVar place 1 m = some p)
    (h : run gate (addressUsageBlock.instrs place) m = some m') :
    (∃ u, wordAt m.mem p = some u) ∧ (∃ v, wordAt m.mem (p + 8#64) = some v) ∧
      ∃ w, wordAt m.mem (p + 16#64) = some w := by
  obtain ⟨m₁, h₁, h⟩ := run_cons_some.mp h
  obtain ⟨p', hp', rfl⟩ := exec_mov_reg.mp h₁
  cases Option.some.inj (hp'.symm.trans hp)
  obtain ⟨m₂, h₂, h⟩ := run_cons_some.mp h
  obtain ⟨u, hu, rfl⟩ := exec_mov_reg.mp h₂
  obtain ⟨m₃, h₃, h⟩ := run_cons_some.mp h
  obtain ⟨v, hv, rfl⟩ := exec_add_reg.mp h₃
  obtain ⟨m₄, h₄, h⟩ := run_cons_some.mp h
  obtain ⟨w, hw, rfl⟩ := exec_add_reg.mp h₄
  refine ⟨⟨u, ?_⟩, ⟨v, ?_⟩, ⟨w, ?_⟩⟩
  · simpa [deref, Block.fill, value_mem, lowBytes_eight] using hu
  · simpa [deref, Block.fill, value_mem, Machine.set_other, lowBytes_eight] using hv
  · simpa [deref, Block.fill, value_mem, Machine.set_other, lowBytes_eight] using hw

/-- **The array sum is not the sum of the array.** The operand `"m"(array)` is the array itself, so its first element
`p` is what gets loaded as the address. The block goes through iff the three words at `p` are mapped, and then `sum`
is their sum, whatever the other two elements are. -/
theorem address_usage_sum {place : Nat → Operand Reg} (hplace : addressUsageBlock.Places place) {a p : Word}
    (ha : (place 0).address m = some a) (hmapped : m.mem.Mapped a 8) (hp : getVar place 1 m = some p) :
    ((run gate (addressUsageBlock.instrs place) m).isSome ↔
      m.mem.Mapped p 8 ∧ m.mem.Mapped (p + 8#64) 8 ∧ m.mem.Mapped (p + 16#64) 8) ∧
    ∀ m', run gate (addressUsageBlock.instrs place) m = some m' →
      ∃ u v w, wordAt m.mem p = some u ∧ wordAt m.mem (p + 8#64) = some v ∧ wordAt m.mem (p + 16#64) = some w ∧
        getVar place 0 m' = some (u + v + w) := by
  refine ⟨⟨fun h => ?_, fun ⟨hp₀, hp₁, hp₂⟩ => ?_⟩, fun m' h => ?_⟩
  · obtain ⟨m', hrun⟩ := Option.isSome_iff_exists.mp h
    obtain ⟨⟨u, hu⟩, ⟨v, hv⟩, ⟨w, hw⟩⟩ := addressUsage_loads hp hrun
    exact ⟨mapped_of_wordAt hu, mapped_of_wordAt hv, mapped_of_wordAt hw⟩
  · obtain ⟨u, hu⟩ := wordAt_mapped hp₀
    obtain ⟨v, hv⟩ := wordAt_mapped hp₁
    obtain ⟨w, hw⟩ := wordAt_mapped hp₂
    obtain ⟨m', hrun, -⟩ := addressUsage_wp hplace ha hmapped hp hu hv hw
    rw [hrun, Option.isSome_some]
  · obtain ⟨⟨u, hu⟩, ⟨v, hv⟩, ⟨w, hw⟩⟩ := addressUsage_loads hp h
    obtain ⟨m'', hrun, hsum⟩ := addressUsage_wp hplace ha hmapped hp hu hv hw
    cases Option.some.inj (h.symm.trans hrun)
    exact ⟨u, v, w, hu, hv, hw, hsum⟩

/-- The array begins with 40, where 1, 2 and 3 are: `sum` is 6. -/
theorem address_usage_sum_stack :
    ∃ m', run gate (addressUsageBlock.instrs onStack) (stackOf [0, 40, 20, 30, 0, 1, 2, 3] 0) = some m' ∧
      getVar onStack 0 m' = some 6 := by
  have hplace : addressUsageBlock.Places onStack := Block.places_iff.mpr (by decide)
  have hsum := address_usage_sum (m := stackOf [0, 40, 20, 30, 0, 1, 2, 3] 0) (a := 0) (p := 40) hplace rfl
    (stackOf_mapped _ _ _ _) (by decide)
  obtain ⟨m', hrun⟩ := Option.isSome_iff_exists.mp
    (hsum.1.mpr ⟨stackOf_mapped _ _ _ _, stackOf_mapped _ _ _ _, stackOf_mapped _ _ _ _⟩)
  obtain ⟨u, v, w, hu, hv, hw, hsum⟩ := hsum.2 m' hrun
  have hu' : wordAt (stackOf [0, 40, 20, 30, 0, 1, 2, 3] 0).mem 40 = some 1 := by decide
  have hv' : wordAt (stackOf [0, 40, 20, 30, 0, 1, 2, 3] 0).mem (40 + 8#64) = some 2 := by decide
  have hw' : wordAt (stackOf [0, 40, 20, 30, 0, 1, 2, 3] 0).mem (40 + 16#64) = some 3 := by decide
  cases Option.some.inj (hu.symm.trans hu')
  cases Option.some.inj (hv.symm.trans hv')
  cases Option.some.inj (hw.symm.trans hw')
  exact ⟨m', hrun, hsum⟩

/-! ## The system call -/

/-- The call that the block makes: number 4 is `write`, descriptor 1 the standard output. -/
def writeCall (m : State) (msg len : Word) : Call where
  eax := 4
  ebx := 1
  ecx := msg.setWidth 32
  edx := len.setWidth 32
  esi := (m.regs .rsi).setWidth 32
  edi := (m.regs .rdi).setWidth 32
  ebp := (m.regs .rbp).setWidth 32

theorem setWidth_lowBytes (v : Word) : (lowBytes 4 v).setWidth 32 = v.setWidth 32 := by
  apply BitVec.eq_of_toNat_eq
  rw [BitVec.toNat_setWidth, BitVec.toNat_setWidth, toNat_lowBytes]
  exact Nat.mod_mod _ _

/-- The machine when the block makes its call. -/
def atCall (m : State) (msg len : Word) : State := (((m.set .rax 4).set .rbx 1).set .rcx (lowBytes 4 msg)).set .rdx len

theorem callOf_atCall (m : State) (msg len : Word) : callOf (atCall m msg len) = writeCall m msg len := by
  simp [callOf, atCall, writeCall, Machine.set_other, setWidth_lowBytes]

/-- Only registers of the list have changed until the result is stored. -/
theorem undisturbed_atCall (m : State) (msg len : Word) : Undisturbed int80Block m (int80 (atCall m msg len)) := by
  refine ⟨fun r hr => ?_, fun _ => rfl⟩
  simp only [int80Block, List.mem_cons, List.not_mem_nil, or_false, not_or] at hr
  simp [int80, atCall, Machine.set_other, hr]

/-- The block puts the number and the arguments where the system call expects them, and stores what it returns. -/
theorem int80_wp {place : Nat → Operand Reg} (hframe : Frame int80Block place m) {a msg len : Word}
    (ha : (place 0).address m = some a) (hmsg : (place 1).value 8 m = some msg)
    (hlen : (place 2).value 4 m = some len) :
    wp gate (int80Block.instrs place) (fun m' => ∃ mem,
      m.mem.store a 4 (lowBytes 4 ((int80 (atCall m msg len)).regs .rax)).toNat = some mem ∧
        m' = { int80 (atCall m msg len) with mem := mem }) m := by
  have hset : ∀ {s : State} {k width : Nat} {r : Reg} {v : Word}, k < int80Block.args.length → r ∈ int80Block.clobbers →
      (place k).value width (s.set r v) = (place k).value width s := fun hk hr =>
    Operand.value_set (hframe.places.not_mem_reads hk hr)
  have haddr : (place 0).address (int80 (atCall m msg len)) = some a :=
    (hframe.address_eq (undisturbed_atCall m msg len) rfl).trans ha
  obtain ⟨mem, hmem⟩ := Memory.store_mapped (hframe.mapped (k := 0) rfl ha)
    (lowBytes 4 ((int80 (atCall m msg len)).regs .rax)).toNat
  refine wp_mov_reg (v := 4) rfl (wp_mov_reg (v := 1) rfl (wp_mov_reg (v := lowBytes 4 msg) ?_
    (wp_mov_reg (v := len) ?_ ?_)))
  · exact (hset (by decide) (by decide)).trans ((hset (by decide) (by decide)).trans
      (Operand.value_narrow hmsg (by decide) (by decide)))
  · exact (hset (by decide) (by decide)).trans ((hset (by decide) (by decide)).trans
      ((hset (by decide) (by decide)).trans hlen))
  · rw [lowBytes_lowBytes _ (Nat.le_refl 4), Operand.lowBytes_value hlen]
    exact wp_env rfl (wp_mov_mem haddr rfl hmem (wp_nil.mpr ⟨mem, hmem, rfl⟩))

/-- The variables that are not `result` keep their values. -/
theorem value_after_store {place : Nat → Operand Reg} (hframe : Frame int80Block place m) {a v : Word} {n k : Nat}
    {m' : State} {mem : Memory} (hk : int80Block.inMemory k = true) (hne : 0 ≠ k) (ha : (place 0).address m = some a)
    (hmem : m.mem.store a 4 n = some mem) (hm' : Undisturbed int80Block m m')
    (hv : (place k).value (int80Block.width k) m = some v) :
    (place k).value (int80Block.width k) { m' with mem := mem } = some v := by
  obtain ⟨base, disp, hop, hb, -⟩ := hframe.base hk
  have hb' : (place k).address { m' with mem := mem } = some (m.regs base + disp) :=
    (address_regs (m := m') rfl (place k)).trans ((hframe.address_eq hm' hk).trans hb)
  rw [Operand.value_of_address hb] at hv
  rw [Operand.value_of_address hb', Memory.load_store_apart hmem (hframe.apart (j := 0) rfl hk hne ha hb), hv]

/-- **The system call through `int $0x80`.** Wherever its variables are, the block makes one call: `write` to
descriptor 1 with `len` and the low half of `msg`, with the memory as it was. Whatever the kernel answers, its low
half is `result`; `msg` and `len` stay. The kernel gets the pointer itself iff it is below `2^32`. -/
theorem int80_call {place : Nat → Operand Reg} (hframe : Frame int80Block place m) {msg len : Word}
    (hmsg : (place 1).value 8 m = some msg) (hlen : (place 2).value 4 m = some len) :
    ∃ m', run gate (int80Block.instrs place) m = some m' ∧
      m'.world = { m.world with calls := m.world.calls ++ [(writeCall m msg len, m.mem)] } ∧
      (place 0).value 4 m' = some (lowBytes 4 (m.world.answer m.world.calls (writeCall m msg len) m.mem)) ∧
      (place 1).value 8 m' = some msg ∧ (place 2).value 4 m' = some len ∧
      ((writeCall m msg len).ecx.setWidth 64 = msg ↔ msg.toNat < 2 ^ 32) := by
  obtain ⟨base, disp, hop, ha, -⟩ := hframe.base (k := 0) rfl
  obtain ⟨m', hrun, mem, hmem, rfl⟩ := int80_wp hframe ha hmsg hlen
  have hundisturbed := undisturbed_atCall m msg len
  have haddr : (place 0).address { int80 (atCall m msg len) with mem := mem } = some (m.regs base + disp) :=
    (address_regs (m := int80 (atCall m msg len)) rfl (place 0)).trans ((hframe.address_eq hundisturbed rfl).trans ha)
  have hanswer : (int80 (atCall m msg len)).regs .rax =
      m.world.answer m.world.calls (writeCall m msg len) m.mem := by
    rw [← callOf_atCall]
    exact Machine.set_self (atCall m msg len) .rax _
  refine ⟨_, hrun, ?_, ?_, value_after_store hframe (k := 1) rfl (by decide) ha hmem hundisturbed hmsg,
    value_after_store hframe (k := 2) rfl (by decide) ha hmem hundisturbed hlen, ?_⟩
  · rw [← callOf_atCall]
    rfl
  · rw [Operand.value_of_address haddr, Memory.load_store_same hmem (by decide), Option.map_some, toNat_lowBytes,
      Nat.mod_mod, hanswer]
    rfl
  · rw [← BitVec.toNat_inj]
    simp only [writeCall, BitVec.toNat_setWidth]
    have := msg.isLt
    omega

/-- `msg` is above `2^32` and `len` is 5: the kernel is asked to write what is at the low half of the pointer, and its
answer -14 is the `result`. -/
theorem int80_call_truncated :
    ∃ m', run gate (int80Block.instrs onStack) (stackOf [0, 0x100001000, 5] (-14)) = some m' ∧
      m'.world.calls.map (fun c => (c.1.eax, c.1.ebx, c.1.ecx, c.1.edx)) = [(4, 1, 0x1000, 5)] ∧
      (onStack 0).value 4 m' = some 0xfffffff2 := by
  have hframe : Frame int80Block onStack (stackOf [0, 0x100001000, 5] (-14)) :=
    frame_onStack (by decide) (by decide) (by decide) (stackOf_mapped _ _ _ _)
  have hmsg : (onStack 1).value 8 (stackOf [0, 0x100001000, 5] (-14)) = some 0x100001000 := by decide
  have hlen : (onStack 2).value 4 (stackOf [0, 0x100001000, 5] (-14)) = some 5 := by decide
  obtain ⟨m', hrun, hworld, hresult, -⟩ := int80_call hframe hmsg hlen
  refine ⟨m', hrun, ?_, hresult.trans (by decide)⟩
  rw [hworld]
  rfl

end KernelModules.InlineAssembly
