import KernelModules.Ioctl.IoctlDemo

/-!
# The ioctl device is a pair of registers

The abstract device holds the four bytes last set as value and the text last set as string. `Represents` relates it to
the driver's state: the string array keeps its 256 bytes and a NUL among them, and the mutex is free. One call,
whatever its word, argument and copy fault, returns, answers from the registers and keeps the relation
(`ioctlDemoIoctl_spec`); so does every sequence of calls from `ioctl_demo_init` (`ioctlRun_spec`,
`ioctl_demo_registers`).
-/

namespace KernelModules.Ioctl

open Lib

/-! ## The abstract device -/

/-- The bytes of the value and the text of the string. -/
structure Registers where
  value : List UInt8
  text : List UInt8

def Registers.initial : Registers := ⟨[0, 0, 0, 0], defaultString⟩

/-- The first 255 characters of the argument, up to the first NUL. -/
def Call.text (c : Call) : List UInt8 := cstr (slice c.src 0 (maxStringSize - 1))

/-- Only a successful `SET_VALUE`, `SET_STRING` or `RESET` changes the registers. -/
def Registers.after (r : Registers) (c : Call) (out : Outcome) : Registers :=
  if out.ret ≠ 0 then r
  else if c.cmd = ioctlSetValue then { r with value := slice c.src 0 4 }
  else if c.cmd = ioctlSetString then { r with text := c.text }
  else if c.cmd = ioctlReset then .initial
  else r

/-- The registers after a history of calls since the module was loaded. -/
def registers (tr : List (Call × Outcome)) : Registers := tr.foldl (fun r e => r.after e.1 e.2) .initial

/-- What a call may answer when the registers hold `r`. -/
structure Answers (r : Registers) (c : Call) (out : Outcome) : Prop where
  value : c.cmd = ioctlGetValue → out.ret = 0 → out.delivered = r.value
  text : c.cmd = ioctlGetString → out.ret = 0 → out.delivered = r.text ++ [0]
  unknown : c.cmd ∉ commands → out.ret < 0

/-- The driver's state stands for the registers. -/
structure Represents (d : IoctlDevice) (r : Registers) : Prop where
  free : d.lock = false
  size : d.string.length = maxStringSize
  terminated : 0 ∈ d.string
  value : bytesOfInt d.value = r.value
  text : cstr d.string = r.text

/-- What a call does to a state that stands for the registers: the answer comes from them, the new state stands for the
new ones, and an error changes nothing. -/
structure Serves (d : IoctlDevice) (r : Registers) (c : Call) (d' : IoctlDevice) (out : Outcome) : Prop where
  represents : Represents d' (r.after c out)
  answers : Answers r c out
  failed : out.ret ≠ 0 → d'.value = d.value ∧ d'.string = d.string

/-! ## The two encodings -/

/-- The bytes of an `int` read from memory are the bytes that were read. -/
theorem bytesOfInt_intOfBytes (m : Nat → UInt8) : bytesOfInt (intOfBytes m) = slice m 0 4 := by
  have h0 := (m 0).toNat_lt
  have h1 := (m 1).toNat_lt
  have h2 := (m 2).toNat_lt
  have h3 := (m 3).toNat_lt
  have hslice : slice m 0 4 = [m 0, m 1, m 2, m 3] := rfl
  simp only [bytesOfInt, intOfBytes, UInt32.toUInt32_toInt32, UInt32.toNat_ofNat', hslice, List.cons.injEq, and_true]
  refine ⟨?_, ?_, ?_, ?_⟩
  all_goals
    apply UInt8.toNat_inj.mp
    rw [UInt8.toNat_ofNat']
    omega

theorem kernelBuffer_text (c : Call) : cstr c.kernelBuffer = c.text :=
  cstr_userString c.src (by simp [maxStringSize])

theorem length_text_lt (c : Call) : c.text.length < maxStringSize := by
  have h := length_cstr_le (slice c.src 0 (maxStringSize - 1))
  rw [length_slice] at h
  simp only [Call.text, maxStringSize] at h ⊢
  omega

theorem defaultString_spec : cstr defaultString = defaultString ∧ defaultString.length < maxStringSize := by decide

theorem defaultString_fits : (cstr defaultString).length < maxStringSize := by
  rw [defaultString_spec.1]
  exact defaultString_spec.2

theorem defaultValue_bytes : bytesOfInt defaultValue = Registers.initial.value := by decide

/-- `ioctl_demo_init` sets both defaults. -/
theorem init_represents : Represents ioctlDemoInit .initial := by
  have hfit : (cstr defaultString).length < (List.replicate maxStringSize (0 : UInt8)).length := by
    rw [List.length_replicate]
    exact defaultString_fits
  obtain ⟨hlen, hnul, hstr⟩ := strcpy_spec hfit
  exact ⟨rfl, hlen.trans (List.length_replicate ..), hnul, defaultValue_bytes, hstr.trans defaultString_spec.1⟩

/-! ## What a successful call does to the registers -/

section After

variable {r : Registers} {c : Call} {out : List UInt8}

theorem Registers.after_setValue (h : c.cmd = ioctlSetValue) :
    r.after c ⟨0, out⟩ = { r with value := slice c.src 0 4 } := by
  simp [Registers.after, h]

theorem Registers.after_setString (h : c.cmd = ioctlSetString) : r.after c ⟨0, out⟩ = { r with text := c.text } := by
  simp +decide [Registers.after, h]

theorem Registers.after_reset (h : c.cmd = ioctlReset) : r.after c ⟨0, out⟩ = .initial := by
  simp +decide [Registers.after, h]

theorem Registers.after_get (h : c.cmd = ioctlGetValue ∨ c.cmd = ioctlGetString) : r.after c ⟨0, out⟩ = r := by
  rcases h with h | h
  · simp +decide [Registers.after, h]
  · simp +decide [Registers.after, h]

end After

/-! ## One call -/

section OneCall

variable {d : IoctlDevice} {r : Registers}

/-- A string of at most 255 characters copied into the register. -/
theorem Represents.set_string (h : Represents d r) {src : List UInt8} (hsrc : (cstr src).length < maxStringSize) :
    Represents { d with string := strcpy d.string src } { r with text := cstr src } := by
  have hfit : (cstr src).length < d.string.length := by rw [h.size]; exact hsrc
  obtain ⟨hlen, hnul, hstr⟩ := strcpy_spec hfit
  exact ⟨h.free, hlen.trans h.size, hnul, h.value, hstr⟩

/-- What `GET_STRING` copies is the text and its terminator. -/
theorem Represents.take_string (h : Represents d r) : d.string.take ((cstr d.string).length + 1) = r.text ++ [0] := by
  rw [take_cstr h.terminated, h.text]

/-- A call that fails changes neither side. -/
theorem Represents.error (h : Represents d r) (c : Call) {ret : Int} (hret : ret < 0) :
    Serves d r c d ⟨ret, []⟩ := by
  have hne : ret ≠ 0 := by omega
  refine ⟨?_, ⟨fun _ h0 => absurd h0 hne, fun _ h0 => absurd h0 hne, fun _ => hret⟩, fun _ => ⟨rfl, rfl⟩⟩
  rw [Registers.after, if_pos hne]
  exact h

/-- A call that succeeds with one of the five words, and delivers a register if its word asks for it. -/
theorem Represents.success {d' : IoctlDevice} {c : Call} {out : List UInt8} (h : Represents d' (r.after c ⟨0, out⟩))
    (hcmd : c.cmd ∈ commands) (hvalue : c.cmd ≠ ioctlGetValue ∨ out = r.value)
    (htext : c.cmd ≠ ioctlGetString ∨ out = r.text ++ [0]) :
    Serves d r c d' ⟨0, out⟩ :=
  ⟨h, ⟨fun hc _ => hvalue.resolve_left (absurd hc), fun hc _ => htext.resolve_left (absurd hc),
    fun hc => absurd hcmd hc⟩, fun hc => absurd rfl hc⟩

/-- **The dispatch.** -/
theorem ioctlSwitch_spec (h : Represents d r) (c : Call) : Serves d r c (ioctlSwitch d c).1 (ioctlSwitch d c).2 := by
  have hfault : (-eFault : Int) < 0 := by decide
  unfold ioctlSwitch
  by_cases h1 : c.cmd = ioctlSetValue
  · rw [if_pos h1]
    cases c.fault with
    | true => exact h.error c hfault
    | false =>
      refine Represents.success ?_ (by rw [h1]; decide) (.inl (by rw [h1]; decide)) (.inl (by rw [h1]; decide))
      rw [Registers.after_setValue h1]
      exact ⟨h.free, h.size, h.terminated, bytesOfInt_intOfBytes c.src, h.text⟩
  rw [if_neg h1]
  by_cases h2 : c.cmd = ioctlGetValue
  · rw [if_pos h2]
    cases c.fault with
    | true => exact h.error c hfault
    | false =>
      refine Represents.success ?_ (by rw [h2]; decide) (.inr h.value) (.inl (by rw [h2]; decide))
      rw [Registers.after_get (.inl h2)]
      exact h
  rw [if_neg h2]
  by_cases h3 : c.cmd = ioctlSetString
  · rw [if_pos h3]
    cases c.fault with
    | true => exact h.error c hfault
    | false =>
      refine Represents.success ?_ (by rw [h3]; decide) (.inl (by rw [h3]; decide)) (.inl (by rw [h3]; decide))
      rw [Registers.after_setString h3, ← kernelBuffer_text]
      exact h.set_string (by rw [kernelBuffer_text]; exact length_text_lt c)
  rw [if_neg h3]
  by_cases h4 : c.cmd = ioctlGetString
  · rw [if_pos h4]
    cases c.fault with
    | true => exact h.error c hfault
    | false =>
      refine Represents.success ?_ (by rw [h4]; decide) (.inl (by rw [h4]; decide)) (.inr h.take_string)
      rw [Registers.after_get (.inr h4)]
      exact h
  rw [if_neg h4]
  by_cases h5 : c.cmd = ioctlReset
  · rw [if_pos h5]
    refine Represents.success ?_ (by rw [h5]; decide) (.inl (by rw [h5]; decide)) (.inl (by rw [h5]; decide))
    have hset := h.set_string defaultString_fits
    rw [Registers.after_reset h5]
    exact ⟨h.free, hset.size, hset.terminated, defaultValue_bytes, hset.text.trans defaultString_spec.1⟩
  rw [if_neg h5]
  exact h.error c (by decide)

/-- **One call** returns and leaves the mutex free. -/
theorem ioctlDemoIoctl_spec (h : Represents d r) (c : Call) :
    ∃ d' out, ioctlDemoIoctl d c = some (d', out) ∧ Serves d r c d' out := by
  have hfail : ∀ {ret : Int}, ret < 0 → ∃ d' out, some (d, (⟨ret, []⟩ : Outcome)) = some (d', out) ∧
      Serves d r c d' out := fun hret => ⟨d, _, rfl, h.error c hret⟩
  unfold ioctlDemoIoctl
  split
  · exact hfail (by decide)
  split
  · exact hfail (by decide)
  split
  · exact hfail (by decide)
  split
  · exact hfail (by decide)
  rw [h.free, if_neg (by simp)]
  -- the mutex is taken and released around the dispatch
  have hlocked : ioctlSwitch { d with lock := true } c =
      ({ (ioctlSwitch d c).1 with lock := true }, (ioctlSwitch d c).2) := by
    unfold ioctlSwitch
    repeat' split
    all_goals rfl
  obtain ⟨hrep, hans, hfailed⟩ := ioctlSwitch_spec h c
  rw [hlocked]
  exact ⟨_, _, rfl, ⟨rfl, hrep.size, hrep.terminated, hrep.value, hrep.text⟩, hans, hfailed⟩

end OneCall

/-! ## Sequences of calls -/

/-- Every sequence of calls returns and keeps the relation to the registers of its history. -/
theorem ioctlRun_spec : ∀ (cs : List Call) {d : IoctlDevice} {r : Registers}, Represents d r →
    ∃ d' tr, ioctlRun d cs = some (d', tr) ∧ tr.map Prod.fst = cs ∧
      Represents d' (tr.foldl (fun r e => r.after e.1 e.2) r)
  | [], d, r, h => ⟨d, [], rfl, rfl, h⟩
  | c :: cs, d, r, h => by
    obtain ⟨d₁, out, hcall, hserves⟩ := ioctlDemoIoctl_spec h c
    obtain ⟨d', tr, hrun, hfst, hrep'⟩ := ioctlRun_spec cs hserves.represents
    exact ⟨d', (c, out) :: tr, by simp [ioctlRun, hcall, hrun], by simp [hfst], hrep'⟩

/-- **The register pair.** After any sequence of calls from `ioctl_demo_init`, all of which return, the string has a NUL
within its 256 bytes and the mutex is free; and whatever call comes next returns with the mutex free again, delivers the
value or the text last set since the last reset, changes nothing if it reports an error, and reports one if its word is
not one of the five. -/
theorem ioctl_demo_registers (cs : List Call) (c : Call) : ∃ d tr, ioctlRun ioctlDemoInit cs = some (d, tr) ∧
    tr.map Prod.fst = cs ∧ d.string.length = maxStringSize ∧ 0 ∈ d.string ∧ d.lock = false ∧
    ∃ d' out, ioctlDemoIoctl d c = some (d', out) ∧
      d'.string.length = maxStringSize ∧ 0 ∈ d'.string ∧ d'.lock = false ∧
      (c.cmd = ioctlGetValue → out.ret = 0 → out.delivered = (registers tr).value) ∧
      (c.cmd = ioctlGetString → out.ret = 0 → out.delivered = (registers tr).text ++ [0]) ∧
      (out.ret ≠ 0 → d'.value = d.value ∧ d'.string = d.string) ∧
      (c.cmd ∉ commands → out.ret < 0) := by
  obtain ⟨d, tr, hrun, hfst, hrep⟩ := ioctlRun_spec cs init_represents
  obtain ⟨d', out, hcall, hrep', hans, herr⟩ := ioctlDemoIoctl_spec hrep c
  exact ⟨d, tr, hrun, hfst, hrep.size, hrep.terminated, hrep.free, d', out, hcall, hrep'.size, hrep'.terminated,
    hrep'.free, hans.value, hans.text, herr, hans.unknown⟩

end KernelModules.Ioctl
