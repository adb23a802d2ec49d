import KernelModules.Lib.Calls
import KernelModules.Lib.CString

/-!
# Atomic operations on demand

A write to `basic`, `advanced` or `bits` is a command that the handler carries out with the kernel's atomic operations
on `counter`, `large_counter`, `bit_flags`, `ref_count` and `operations_count`. A handler is the program of these
operations (`write`), so that writes can be executed alone or with their operations interleaved (`atomicDemo`).

Every command on the counters or the flags is one read-modify-write or store, only `cmpxchg` is a read and, later, a
compare-and-exchange. Each handler is therefore linear (`write_linear`), and a run of any writers does to the counters
and the flags what the commands do one after another, with the same results (`atomic_demo_linearizes`).
-/

namespace KernelModules.Atomic

open Lib Lib.Calls

universe u

/-! ## The code -/

/-- The module's variables. -/
structure Shared where
  counter : Int32
  operationsCount : Int32
  largeCounter : Int64
  bitFlags : UInt64
  refCount : Int32
deriving DecidableEq

/-- The atomic operations of the handlers. -/
inductive Op
  /-- `atomic_inc(&operations_count)`. -/
  | incOperationsCount
  /-- `atomic_inc_return(&counter)`, and so on. -/
  | incReturn
  | decReturn
  | addReturn (value : Int32)
  | subReturn (value : Int32)
  | set (value : Int32)
  | xchg (value : Int32)
  | read
  | cmpxchg (old value : Int32)
  | decAndTest
  | incAndTest
  | subAndTest (value : Int32)
  | addNegative (value : Int32)
  /-- `atomic64_inc_return(&large_counter)`. -/
  | largeIncReturn
  | largeAddReturn (value : Int32)
  /-- `atomic_inc(&ref_count)`. -/
  | refInc
  | refRead
  | refDecAndTest
  /-- `atomic_set(&ref_count, 1)`. -/
  | refReset
  /-- `set_bit(bit_num, &bit_flags)`. -/
  | setBit (bitNum : Nat)
  | clearBit (bitNum : Nat)
  | changeBit (bitNum : Nat)
  | testAndSetBit (bitNum : Nat)
  | testAndClearBit (bitNum : Nat)
  | testAndChangeBit (bitNum : Nat)
  | readFlags

/-- What an operation returns. -/
@[reducible] def Op.Result : Op → Type
  | .incReturn | .decReturn | .addReturn _ | .subReturn _ | .xchg _ | .read | .cmpxchg _ _ | .refRead => Int32
  | .decAndTest | .incAndTest | .subAndTest _ | .addNegative _ | .refDecAndTest => Bool
  | .largeIncReturn | .largeAddReturn _ => Int64
  | .testAndSetBit _ | .testAndClearBit _ | .testAndChangeBit _ => Bool
  | .readFlags => UInt64
  | _ => Unit

/-- `1UL << bit_num`. -/
def bitMask (bitNum : Nat) : UInt64 := 1 <<< UInt64.ofNat bitNum

def testBit (flags : UInt64) (bitNum : Nat) : Bool := flags &&& bitMask bitNum != 0

/-- The operations on the variables. -/
def sem : (o : Op) → Shared → Shared × o.Result
  | .incOperationsCount, g => ({ g with operationsCount := g.operationsCount + 1 }, ())
  | .incReturn, g => ({ g with counter := g.counter + 1 }, g.counter + 1)
  | .decReturn, g => ({ g with counter := g.counter - 1 }, g.counter - 1)
  | .addReturn value, g => ({ g with counter := g.counter + value }, g.counter + value)
  | .subReturn value, g => ({ g with counter := g.counter - value }, g.counter - value)
  | .set value, g => ({ g with counter := value }, ())
  | .xchg value, g => ({ g with counter := value }, g.counter)
  | .read, g => (g, g.counter)
  | .cmpxchg old value, g => ({ g with counter := if g.counter = old then value else g.counter }, g.counter)
  | .decAndTest, g => ({ g with counter := g.counter - 1 }, decide (g.counter - 1 = 0))
  | .incAndTest, g => ({ g with counter := g.counter + 1 }, decide (g.counter + 1 = 0))
  | .subAndTest value, g => ({ g with counter := g.counter - value }, decide (g.counter - value = 0))
  | .addNegative value, g => ({ g with counter := g.counter + value }, decide (g.counter + value < 0))
  | .largeIncReturn, g => ({ g with largeCounter := g.largeCounter + 1 }, g.largeCounter + 1)
  | .largeAddReturn value, g =>
    ({ g with largeCounter := g.largeCounter + value.toInt64 }, g.largeCounter + value.toInt64)
  | .refInc, g => ({ g with refCount := g.refCount + 1 }, ())
  | .refRead, g => (g, g.refCount)
  | .refDecAndTest, g => ({ g with refCount := g.refCount - 1 }, decide (g.refCount - 1 = 0))
  | .refReset, g => ({ g with refCount := 1 }, ())
  | .setBit n, g => ({ g with bitFlags := g.bitFlags ||| bitMask n }, ())
  | .clearBit n, g => ({ g with bitFlags := g.bitFlags &&& ~~~bitMask n }, ())
  | .changeBit n, g => ({ g with bitFlags := g.bitFlags ^^^ bitMask n }, ())
  | .testAndSetBit n, g => ({ g with bitFlags := g.bitFlags ||| bitMask n }, testBit g.bitFlags n)
  | .testAndClearBit n, g => ({ g with bitFlags := g.bitFlags &&& ~~~bitMask n }, testBit g.bitFlags n)
  | .testAndChangeBit n, g => ({ g with bitFlags := g.bitFlags ^^^ bitMask n }, testBit g.bitFlags n)
  | .readFlags, g => (g, g.bitFlags)

abbrev Handler := Prog Op Op.Result Int

/-- The start of the three handlers: the text is copied to an array of 32 bytes and scanned. -/
def scanInput (w : UserText) : Except Int (List UInt8 × Option Int32) :=
  if w.count > 31 then .error (-eInval)
  else if w.room < w.count then .error (-eFault)
  else match scanWordInt 15 (cstr (slice w.buf 0 w.count ++ [0])) with
    | none => .error (-eInval)
    | some command => .ok command

/-- The operations of `atomic_basic_write`. -/
def basicOperation (operation : List UInt8) (value : Int32) (count : Nat) : Handler :=
  if operation = ascii "inc" then .bind .incReturn fun _ => .ret count
  else if operation = ascii "dec" then .bind .decReturn fun _ => .ret count
  else if operation = ascii "add" then .bind (.addReturn value) fun _ => .ret count
  else if operation = ascii "sub" then .bind (.subReturn value) fun _ => .ret count
  else if operation = ascii "set" then .bind (.set value) fun _ => .ret count
  else if operation = ascii "xchg" then .bind (.xchg value) fun _ => .ret count
  else if operation = ascii "cmpxchg" then .bind .read fun old => .bind (.cmpxchg old value) fun _ => .ret count
  else .ret (-eInval)

def atomicBasicWrite (w : UserText) : Handler :=
  match scanInput w with
  | .error e => .ret e
  | .ok (operation, value) => .bind .incOperationsCount fun _ => basicOperation operation (value.getD 0) w.count

/-- The operations of `atomic_advanced_write`; the reads are for the log. -/
def advancedOperation (operation : List UInt8) (value : Int32) (count : Nat) : Handler :=
  if operation = ascii "dec_and_test" then .bind .decAndTest fun _ => .bind .read fun _ => .ret count
  else if operation = ascii "inc_and_test" then .bind .incAndTest fun _ => .bind .read fun _ => .ret count
  else if operation = ascii "sub_and_test" then .bind (.subAndTest value) fun _ => .bind .read fun _ => .ret count
  else if operation = ascii "add_negative" then .bind (.addNegative value) fun _ => .bind .read fun _ => .ret count
  else if operation = ascii "large_inc" then .bind .largeIncReturn fun _ => .ret count
  else if operation = ascii "large_add" then .bind (.largeAddReturn value) fun _ => .ret count
  else if operation = ascii "ref_get" then .bind .refInc fun _ => .bind .refRead fun _ => .ret count
  else if operation = ascii "ref_put" then .bind .refDecAndTest fun (zero : Bool) =>
    -- the count reached zero: reset, for demo purposes
    if zero then .bind .refReset fun _ => .ret count else .bind .refRead fun _ => .ret count
  else .ret (-eInval)

def atomicAdvancedWrite (w : UserText) : Handler :=
  match scanInput w with
  | .error e => .ret e
  | .ok (operation, value) => .bind .incOperationsCount fun _ => advancedOperation operation (value.getD 0) w.count

def bitsPerLong : Int32 := 64

/-- The operations of `atomic_bits_write`; the reads are for the log. -/
def bitsOperation (operation : List UInt8) (bitNum : Nat) (count : Nat) : Handler :=
  if operation = ascii "set" then .bind (.setBit bitNum) fun _ => .bind .readFlags fun _ => .ret count
  else if operation = ascii "clear" then .bind (.clearBit bitNum) fun _ => .bind .readFlags fun _ => .ret count
  else if operation = ascii "change" then .bind (.changeBit bitNum) fun _ => .bind .readFlags fun _ => .ret count
  else if operation = ascii "test_and_set" then
    .bind (.testAndSetBit bitNum) fun _ => .bind .readFlags fun _ => .ret count
  else if operation = ascii "test_and_clear" then
    .bind (.testAndClearBit bitNum) fun _ => .bind .readFlags fun _ => .ret count
  else if operation = ascii "test_and_change" then
    .bind (.testAndChangeBit bitNum) fun _ => .bind .readFlags fun _ => .ret count
  else .ret (-eInval)

def atomicBitsWrite (w : UserText) : Handler :=
  match scanInput w with
  | .error e => .ret e
  | .ok (_, none) => .ret (-eInval)
  | .ok (operation, some bitNum) =>
    if bitNum < 0 ∨ bitNum ≥ bitsPerLong then .ret (-eInval)
    else .bind .incOperationsCount fun _ => bitsOperation operation bitNum.toInt.toNat w.count

inductive File
  | basic
  | advanced
  | bits
deriving DecidableEq, Repr

/-- A write to one of the files. -/
def write : File × UserText → Handler
  | (.basic, w) => atomicBasicWrite w
  | (.advanced, w) => atomicAdvancedWrite w
  | (.bits, w) => atomicBitsWrite w

/-- After `atomic_comprehensive_init`: bit 0, `FLAG_SYSTEM_READY`, is set. -/
def initial : Shared := ⟨0, 0, 0, bitMask 0, 1⟩

/-- Any number of writers. -/
def atomicDemo (P : Type u) [DecidableEq P] :
    System (Threads P Shared (Pc Op Op.Result Int (File × UserText))) (P × Act Op Op.Result Int (File × UserText)) :=
  callers P sem write initial

/-! ## Operations -/

/-- The counters and the flags. -/
def view (g : Shared) : Int32 × Int64 × UInt64 := (g.counter, g.largeCounter, g.bitFlags)

/-- The read-modify-writes and stores of the counters and the flags. -/
def Op.modifies : Op → Bool
  | .incOperationsCount | .read | .refInc | .refRead | .refDecAndTest | .refReset | .readFlags => false
  | _ => true

/-- All of them but a compare-and-exchange that found another value. -/
def effective : (o : Op) → o.Result → Bool
  | .cmpxchg old _, (found : Int32) => decide (found = old)
  | o, _ => o.modifies

def Op.isCount : Op → Bool
  | .incOperationsCount => true
  | _ => false

theorem sem_silent : Prog.Silent sem view effective := by
  intro o g h
  cases o with
  | cmpxchg old value =>
    have hne : ¬g.counter = old := of_decide_eq_false h
    simp [sem, view, hne]
  | incOperationsCount | read | refInc | refRead | refDecAndTest | refReset | readFlags => rfl
  | _ => cases h

/-- A modifying operation looks at no more than the counters and the flags. -/
theorem sem_view {o : Op} (ho : o.modifies = true) (g g' : Shared) (h : view g' = view g) :
    (sem o g').2 = (sem o g).2 ∧ view (sem o g').1 = view (sem o g).1 := by
  obtain ⟨hcounter, hlarge, hflags⟩ :
      g'.counter = g.counter ∧ g'.largeCounter = g.largeCounter ∧ g'.bitFlags = g.bitFlags := by
    simpa [view] using h
  cases o with
  | incOperationsCount | read | refInc | refRead | refDecAndTest | refReset | readFlags => cases ho
  | _ => simp [sem, view, hcounter, hlarge, hflags]

/-! ## Commands -/

/-- The commands on the counter. -/
def basicWords : List (List UInt8) := ["inc", "dec", "add", "sub", "set", "xchg", "cmpxchg"].map ascii

/-- The commands on the counters; those on the reference count are not among them. -/
def advancedWords : List (List UInt8) :=
  ["dec_and_test", "inc_and_test", "sub_and_test", "add_negative", "large_inc", "large_add"].map ascii

def bitWords : List (List UInt8) :=
  ["set", "clear", "change", "test_and_set", "test_and_clear", "test_and_change"].map ascii

/-- The handler gets as far as `atomic_inc(&operations_count)`. -/
def parsed : File × UserText → Bool
  | (.bits, w) => match scanInput w with
    | .ok (_, some bitNum) => !decide (bitNum < 0 ∨ bitNum ≥ bitsPerLong)
    | _ => false
  | (_, w) => match scanInput w with
    | .ok _ => true
    | .error _ => false

/-- A command on the counters or the flags. -/
def isCommand : File × UserText → Bool
  | (.basic, w) => match scanInput w with
    | .ok (operation, _) => decide (operation ∈ basicWords)
    | .error _ => false
  | (.advanced, w) => match scanInput w with
    | .ok (operation, _) => decide (operation ∈ advancedWords)
    | .error _ => false
  | (.bits, w) => match scanInput w with
    | .ok (operation, some bitNum) => !decide (bitNum < 0 ∨ bitNum ≥ bitsPerLong) && decide (operation ∈ bitWords)
    | _ => false

/-! ## Handlers -/

/-- Neither on `operations_count` nor on `ref_count`. -/
def Op.plain : Op → Bool
  | .incOperationsCount | .refInc | .refRead | .refDecAndTest | .refReset => false
  | _ => true

/-- The reads for the log. -/
def Op.looks : Op → Bool
  | .read | .readFlags => true
  | _ => false

theorem Op.looks_plain (o : Op) (ho : o.looks = true) : o.plain = true := by
  cases o with
  | read | readFlags => rfl
  | _ => cases ho

theorem Op.looks_modifies (o : Op) (ho : o.looks = true) : o.modifies = false := by
  cases o with
  | read | readFlags => rfl
  | _ => cases ho

theorem Op.modifies_plain (o : Op) (ho : o.modifies = true) : o.plain = true := by
  cases o with
  | incOperationsCount | refInc | refRead | refDecAndTest | refReset => cases ho
  | _ => rfl

theorem looks_quiet {p : Handler} (hp : p.All Op.looks) : p.Quiet effective := by
  refine hp.quiet fun o r ho => ?_
  cases o with
  | read | readFlags => rfl
  | _ => cases ho

/-- One modifying operation, and at most reads behind it. -/
def Single (p : Handler) : Prop := ∃ o next, p = .bind o next ∧ o.modifies = true ∧ ∀ r, (next r).All Op.looks

theorem Single.linear {p : Handler} (h : Single p) : p.Linear sem view effective := by
  obtain ⟨o, next, rfl, ho, hnext⟩ := h
  exact Prog.linear_single sem_silent (fun _ _ hview => sem_view ho _ _ hview) fun r => looks_quiet (hnext r)

theorem Single.makes {p : Handler} (h : Single p) : p.Makes Op.modifies 1 := by
  obtain ⟨o, next, rfl, ho, hnext⟩ := h
  exact ⟨0, by rw [ho]; rfl, fun r => (hnext r).makes Op.looks_modifies⟩

theorem Single.plain {p : Handler} (h : Single p) : p.All Op.plain := by
  obtain ⟨o, next, rfl, ho, hnext⟩ := h
  exact ⟨o.modifies_plain ho, fun r => (hnext r).mono Op.looks_plain⟩

/-- What `atomic_basic_write` does is one modifying operation, `cmpxchg`, or nothing. -/
theorem basicOperation_cases (operation : List UInt8) (value : Int32) (count : Nat) :
    (operation ∈ basicWords ∧ Single (basicOperation operation value count)) ∨
    (operation ∈ basicWords ∧ basicOperation operation value count =
      .bind .read fun old => .bind (.cmpxchg old value) fun _ => .ret count) ∨
    operation ∉ basicWords ∧ basicOperation operation value count = .ret (-eInval) := by
  by_cases hmem : operation ∈ basicWords
  · simp only [basicWords, List.map_cons, List.map_nil, List.mem_cons, List.not_mem_nil, or_false] at hmem
    rcases hmem with rfl | rfl | rfl | rfl | rfl | rfl | rfl
    case inr.inr.inr.inr.inr.inr => exact .inr (.inl ⟨by decide, rfl⟩)
    all_goals exact .inl ⟨by decide, _, _, rfl, rfl, fun _ => trivial⟩
  · refine .inr (.inr ⟨hmem, ?_⟩)
    simp only [basicWords, List.map_cons, List.map_nil, List.mem_cons, List.not_mem_nil, or_false, not_or] at hmem
    obtain ⟨h₁, h₂, h₃, h₄, h₅, h₆, h₇⟩ := hmem
    rw [basicOperation, if_neg h₁, if_neg h₂, if_neg h₃, if_neg h₄, if_neg h₅, if_neg h₆, if_neg h₇]

/-- What `atomic_advanced_write` does is one modifying operation, `ref_get`, `ref_put`, or nothing. -/
theorem advancedOperation_cases (operation : List UInt8) (value : Int32) (count : Nat) :
    (operation ∈ advancedWords ∧ Single (advancedOperation operation value count)) ∨
    (operation = ascii "ref_get" ∧ advancedOperation operation value count =
      .bind .refInc fun _ => .bind .refRead fun _ => .ret count) ∨
    (operation = ascii "ref_put" ∧ advancedOperation operation value count = .bind .refDecAndTest fun (zero : Bool) =>
      if zero then .bind .refReset fun _ => .ret count else .bind .refRead fun _ => .ret count) ∨
    operation ∉ advancedWords ∧ operation ≠ ascii "ref_get" ∧ operation ≠ ascii "ref_put" ∧
      advancedOperation operation value count = .ret (-eInval) := by
  by_cases hmem : operation ∈ advancedWords
  · refine .inl ⟨hmem, ?_⟩
    simp only [advancedWords, List.map_cons, List.map_nil, List.mem_cons, List.not_mem_nil, or_false] at hmem
    rcases hmem with rfl | rfl | rfl | rfl | rfl | rfl
    case inr.inr.inr.inr.inl | inr.inr.inr.inr.inr => exact ⟨_, _, rfl, rfl, fun _ => trivial⟩
    all_goals exact ⟨_, _, rfl, rfl, fun _ => ⟨rfl, fun _ => trivial⟩⟩
  by_cases hget : operation = ascii "ref_get"
  · subst hget
    exact .inr (.inl ⟨rfl, rfl⟩)
  by_cases hput : operation = ascii "ref_put"
  · subst hput
    exact .inr (.inr (.inl ⟨rfl, rfl⟩))
  refine .inr (.inr (.inr ⟨hmem, hget, hput, ?_⟩))
  simp only [advancedWords, List.map_cons, List.map_nil, List.mem_cons, List.not_mem_nil, or_false, not_or] at hmem
  obtain ⟨h₁, h₂, h₃, h₄, h₅, h₆⟩ := hmem
  rw [advancedOperation, if_neg h₁, if_neg h₂, if_neg h₃, if_neg h₄, if_neg h₅, if_neg h₆, if_neg hget, if_neg hput]

/-- What `atomic_bits_write` does is one modifying operation, or nothing. -/
theorem bitsOperation_cases (operation : List UInt8) (bitNum count : Nat) :
    (operation ∈ bitWords ∧ Single (bitsOperation operation bitNum count)) ∨
    operation ∉ bitWords ∧ bitsOperation operation bitNum count = .ret (-eInval) := by
  by_cases hmem : operation ∈ bitWords
  · refine .inl ⟨hmem, ?_⟩
    simp only [bitWords, List.map_cons, List.map_nil, List.mem_cons, List.not_mem_nil, or_false] at hmem
    rcases hmem with rfl | rfl | rfl | rfl | rfl | rfl
    all_goals exact ⟨_, _, rfl, rfl, fun _ => ⟨rfl, fun _ => trivial⟩⟩
  · refine .inr ⟨hmem, ?_⟩
    simp only [bitWords, List.map_cons, List.map_nil, List.mem_cons, List.not_mem_nil, or_false, not_or] at hmem
    obtain ⟨h₁, h₂, h₃, h₄, h₅, h₆⟩ := hmem
    rw [bitsOperation, if_neg h₁, if_neg h₂, if_neg h₃, if_neg h₄, if_neg h₅, if_neg h₆]

/-- A compare-and-exchange that succeeds does what it would do right behind its read. -/
theorem cmpxchg_linear (value : Int32) (count : Nat) :
    (Prog.bind .read fun old => .bind (.cmpxchg old value) fun _ => .ret count : Handler).Linear sem view
      effective := by
  intro o next hrest g g' hview heff
  rcases Prog.rest_bind hrest with hq | ⟨old, hq⟩
  · rw [Prog.bind.injEq] at hq
    obtain ⟨rfl, -⟩ := hq
    cases heff
  · rcases Prog.rest_bind hq with hq | ⟨r, hq⟩
    · rw [Prog.bind.injEq] at hq
      obtain ⟨rfl, -⟩ := hq
      obtain rfl : g.counter = old := of_decide_eq_true heff
      obtain ⟨hcounter, hlarge, hflags⟩ :
          g'.counter = g.counter ∧ g'.largeCounter = g.largeCounter ∧ g'.bitFlags = g.bitFlags := by
        simpa [view] using hview
      constructor
      · simp [Prog.effects, Prog.events, sem, effective, Op.modifies, hcounter]
      · simp [Prog.run, sem, view, hlarge, hflags]
    · cases Prog.rest_ret hq

theorem basicOperation_linear (operation : List UInt8) (value : Int32) (count : Nat) :
    (basicOperation operation value count).Linear sem view effective := by
  rcases basicOperation_cases operation value count with ⟨-, hsingle⟩ | ⟨-, hbody⟩ | ⟨-, hbody⟩
  · exact hsingle.linear
  · rw [hbody]
    exact cmpxchg_linear value count
  · rw [hbody]
    exact Prog.Quiet.linear trivial

theorem advancedOperation_linear (operation : List UInt8) (value : Int32) (count : Nat) :
    (advancedOperation operation value count).Linear sem view effective := by
  rcases advancedOperation_cases operation value count with ⟨-, hsingle⟩ | ⟨-, hbody⟩ | ⟨-, hbody⟩ | ⟨-, -, -, hbody⟩
  · exact hsingle.linear
  · rw [hbody]
    exact Prog.Quiet.linear fun _ => ⟨rfl, fun _ => ⟨rfl, trivial⟩⟩
  · rw [hbody]
    refine Prog.Quiet.linear fun zero => ⟨rfl, ?_⟩
    cases zero with
    | true | false => exact fun _ => ⟨rfl, trivial⟩
  · rw [hbody]
    exact Prog.Quiet.linear trivial

theorem bitsOperation_linear (operation : List UInt8) (bitNum count : Nat) :
    (bitsOperation operation bitNum count).Linear sem view effective := by
  rcases bitsOperation_cases operation bitNum count with ⟨-, hsingle⟩ | ⟨-, hbody⟩
  · exact hsingle.linear
  · rw [hbody]
    exact Prog.Quiet.linear trivial

theorem basicOperation_makes (operation : List UInt8) (value : Int32) (count : Nat) :
    (basicOperation operation value count).Makes Op.modifies (decide (operation ∈ basicWords)).toNat := by
  rcases basicOperation_cases operation value count with ⟨hmem, hsingle⟩ | ⟨hmem, hbody⟩ | ⟨hmem, hbody⟩
  · rw [decide_eq_true hmem]
    exact hsingle.makes
  · rw [decide_eq_true hmem, hbody]
    exact ⟨1, rfl, fun _ => ⟨0, rfl, fun _ => rfl⟩⟩
  · rw [decide_eq_false hmem, hbody]
    rfl

theorem advancedOperation_makes (operation : List UInt8) (value : Int32) (count : Nat) :
    (advancedOperation operation value count).Makes Op.modifies (decide (operation ∈ advancedWords)).toNat := by
  rcases advancedOperation_cases operation value count with
    ⟨hmem, hsingle⟩ | ⟨rfl, hbody⟩ | ⟨rfl, hbody⟩ | ⟨hmem, -, -, hbody⟩
  · rw [decide_eq_true hmem]
    exact hsingle.makes
  · rw [hbody]
    exact ⟨0, by decide, fun _ => ⟨0, rfl, fun _ => rfl⟩⟩
  · rw [hbody]
    refine ⟨0, by decide, fun zero => ?_⟩
    cases zero with
    | true | false => exact ⟨0, rfl, fun _ => rfl⟩
  · rw [decide_eq_false hmem, hbody]
    rfl

theorem bitsOperation_makes (operation : List UInt8) (bitNum count : Nat) :
    (bitsOperation operation bitNum count).Makes Op.modifies (decide (operation ∈ bitWords)).toNat := by
  rcases bitsOperation_cases operation bitNum count with ⟨hmem, hsingle⟩ | ⟨hmem, hbody⟩
  · rw [decide_eq_true hmem]
    exact hsingle.makes
  · rw [decide_eq_false hmem, hbody]
    rfl

theorem basicOperation_plain (operation : List UInt8) (value : Int32) (count : Nat) :
    (basicOperation operation value count).All Op.plain := by
  rcases basicOperation_cases operation value count with ⟨-, hsingle⟩ | ⟨-, hbody⟩ | ⟨-, hbody⟩
  · exact hsingle.plain
  · rw [hbody]
    exact ⟨rfl, fun _ => ⟨rfl, fun _ => trivial⟩⟩
  · rw [hbody]
    trivial

theorem bitsOperation_plain (operation : List UInt8) (bitNum count : Nat) :
    (bitsOperation operation bitNum count).All Op.plain := by
  rcases bitsOperation_cases operation bitNum count with ⟨-, hsingle⟩ | ⟨-, hbody⟩
  · exact hsingle.plain
  · rw [hbody]
    trivial

/-- `ref_get` and `ref_put` are the operations of `atomic_advanced_write` on `ref_count`. -/
theorem advancedOperation_refs (operation : List UInt8) (value : Int32) (count : Nat) :
    (operation = ascii "ref_get" ∧ advancedOperation operation value count =
      .bind .refInc fun _ => .bind .refRead fun _ => .ret count) ∨
    (operation = ascii "ref_put" ∧ advancedOperation operation value count = .bind .refDecAndTest fun (zero : Bool) =>
      if zero then .bind .refReset fun _ => .ret count else .bind .refRead fun _ => .ret count) ∨
    operation ≠ ascii "ref_get" ∧ operation ≠ ascii "ref_put" ∧
      (advancedOperation operation value count).All Op.plain := by
  rcases advancedOperation_cases operation value count with ⟨hmem, hsingle⟩ | hget | hput | ⟨-, hget, hput, hbody⟩
  · have hwords : ascii "ref_get" ∉ advancedWords ∧ ascii "ref_put" ∉ advancedWords := by decide
    exact .inr (.inr ⟨ne_of_mem_of_not_mem hmem hwords.1, ne_of_mem_of_not_mem hmem hwords.2, hsingle.plain⟩)
  · exact .inl hget
  · exact .inr (.inl hput)
  · refine .inr (.inr ⟨hget, hput, ?_⟩)
    rw [hbody]
    trivial

/-! ## Writes -/

/-- A write is rejected, or it is counted and carries out the operation of its file. -/
theorem write_cases (c : File × UserText) :
    (∃ e, write c = .ret e ∧ parsed c = false ∧ isCommand c = false) ∨
    ∃ body, write c = .bind .incOperationsCount (fun _ => body) ∧ parsed c = true ∧
      ((∃ operation value count, body = basicOperation operation value count ∧
          isCommand c = decide (operation ∈ basicWords)) ∨
        (∃ operation value count, body = advancedOperation operation value count ∧
          isCommand c = decide (operation ∈ advancedWords)) ∨
        ∃ operation bitNum count, body = bitsOperation operation bitNum count ∧
          isCommand c = decide (operation ∈ bitWords)) := by
  obtain ⟨file, w⟩ := c
  cases hscan : scanInput w with
  | error e =>
    refine .inl ⟨e, ?_⟩
    cases file <;> simp [write, atomicBasicWrite, atomicAdvancedWrite, atomicBitsWrite, parsed, isCommand, hscan]
  | ok command =>
    obtain ⟨operation, value⟩ := command
    cases file with
    | basic =>
      refine .inr ⟨basicOperation operation (value.getD 0) w.count, ?_, ?_, .inl ⟨_, _, _, rfl, ?_⟩⟩
      · simp only [write, atomicBasicWrite, hscan]
      · simp only [parsed, hscan]
      · simp only [isCommand, hscan]
    | advanced =>
      refine .inr ⟨advancedOperation operation (value.getD 0) w.count, ?_, ?_, .inr (.inl ⟨_, _, _, rfl, ?_⟩)⟩
      · simp only [write, atomicAdvancedWrite, hscan]
      · simp only [parsed, hscan]
      · simp only [isCommand, hscan]
    | bits =>
      cases value with
      | none => exact .inl ⟨-eInval, by simp [write, atomicBitsWrite, parsed, isCommand, hscan]⟩
      | some bitNum =>
        by_cases hrange : bitNum < 0 ∨ bitNum ≥ bitsPerLong
        · refine .inl ⟨-eInval, ?_, ?_, ?_⟩
          · simp only [write, atomicBitsWrite, hscan, if_pos hrange]
          · simp only [parsed, hscan, decide_eq_true hrange, Bool.not_true]
          · simp only [isCommand, hscan, decide_eq_true hrange, Bool.not_true, Bool.false_and]
        · refine .inr ⟨bitsOperation operation bitNum.toInt.toNat w.count, ?_, ?_, .inr (.inr ⟨_, _, _, rfl, ?_⟩)⟩
          · simp only [write, atomicBitsWrite, hscan, if_neg hrange]
          · simp only [parsed, hscan, decide_eq_false hrange, Bool.not_false]
          · simp only [isCommand, hscan, decide_eq_false hrange, Bool.not_false, Bool.true_and]

/-- **Every handler is linear.** -/
theorem write_linear (c : File × UserText) : (write c).Linear sem view effective := by
  rcases write_cases c with ⟨e, hwrite, -⟩ | ⟨body, hwrite, -, hbody⟩
  · rw [hwrite]
    exact Prog.Quiet.linear trivial
  · rw [hwrite]
    refine Prog.Linear.skip sem_silent (fun _ => rfl) ?_
    rcases hbody with ⟨_, _, _, rfl, -⟩ | ⟨_, _, _, rfl, -⟩ | ⟨_, _, _, rfl, -⟩
    · exact basicOperation_linear _ _ _
    · exact advancedOperation_linear _ _ _
    · exact bitsOperation_linear _ _ _

/-- **A handler** performs one operation on the counters or the flags if the write is a command on them, else none. -/
theorem write_makes (c : File × UserText) : (write c).Makes Op.modifies (isCommand c).toNat := by
  rcases write_cases c with ⟨e, hwrite, -, hcommand⟩ | ⟨body, hwrite, -, hbody⟩
  · rw [hwrite, hcommand]
    rfl
  · rw [hwrite]
    refine ⟨_, rfl, fun _ => ?_⟩
    rcases hbody with ⟨_, _, _, rfl, hcommand⟩ | ⟨_, _, _, rfl, hcommand⟩ | ⟨_, _, _, rfl, hcommand⟩
    · rw [hcommand]
      exact basicOperation_makes _ _ _
    · rw [hcommand]
      exact advancedOperation_makes _ _ _
    · rw [hcommand]
      exact bitsOperation_makes _ _ _

/-! ## Counting -/

theorem Op.plain_uncounted (o : Op) (ho : o.plain = true) : (!o.isCount) = true := by
  cases o with
  | incOperationsCount => cases ho
  | _ => rfl

/-- No occasion: `operations_count` is only incremented first. -/
def never (o : Op) (_ : o.Result) : Bool := false

theorem write_paired (c : File × UserText) :
    (write c).headIs Op.isCount = parsed c ∧ (write c).Paired Op.isCount never := by
  rcases write_cases c with ⟨e, hwrite, hparsed, -⟩ | ⟨body, hwrite, hparsed, hbody⟩
  · rw [hwrite, hparsed]
    exact ⟨rfl, trivial⟩
  · have huncounted : body.All fun o => !o.isCount := by
      rcases hbody with ⟨_, _, _, rfl, -⟩ | ⟨_, _, _, rfl, -⟩ | ⟨_, _, _, rfl, -⟩
      · exact (basicOperation_plain _ _ _).mono Op.plain_uncounted
      · rcases advancedOperation_refs _ _ _ with ⟨-, hbody⟩ | ⟨-, hbody⟩ | ⟨-, -, hplain⟩
        · rw [hbody]
          exact ⟨rfl, fun _ => ⟨rfl, fun _ => trivial⟩⟩
        · rw [hbody]
          refine ⟨rfl, fun zero => ?_⟩
          cases zero with
          | true | false => exact ⟨rfl, fun _ => trivial⟩
        · exact hplain.mono Op.plain_uncounted
      · exact (bitsOperation_plain _ _ _).mono Op.plain_uncounted
    have hkind : ∀ o : Op, (!o.isCount) = true → o.isCount = false := by simp
    rw [hwrite, hparsed]
    exact ⟨rfl, fun _ => ⟨huncounted.headIs hkind, huncounted.paired hkind fun _ _ _ => rfl⟩⟩

/-! ## Runs -/

section Runs

variable {P : Type u} [DecidableEq P] {tr : List (P × Act Op Op.Result Int (File × UserText))}
  {s : Threads P Shared (Pc Op Op.Result Int (File × UserText))}

/-- The calls that were parsed. -/
def isParsedCall : Act Op Op.Result Int (File × UserText) → Bool
  | .call c => parsed c
  | _ => false

theorem sem_operationsCount (o : Op) (g : Shared) :
    (sem o g).1.operationsCount = g.operationsCount + Int32.ofNat o.isCount.toNat := by
  cases o <;> simp [sem, Op.isCount]

/-- **Every run**: `operations_count` has the increments made. -/
theorem run_operationsCount (h : (atomicDemo P).Run tr s) :
    s.shared.operationsCount = Int32.ofNat (tr.countP fun e => e.2.isKind Op.isCount) := by
  refine System.Run.history (P := fun tr s =>
    s.shared.operationsCount = Int32.ofNat (tr.countP fun e => e.2.isKind Op.isCount)) ?_ ?_ h
  · rintro s ⟨hs, -⟩
    rw [hs]
    rfl
  · rintro tr s ⟨p, a⟩ _ - hs ⟨g', l', hstep, rfl⟩
    rw [System.countP_snoc, Int32.ofNat_add, ← hs]
    dsimp only at hstep ⊢
    generalize s.pc p = l at hstep
    cases hstep with
    | atomic => exact sem_operationsCount _ _
    | _ => simp [Act.isKind]

theorem run_parsed (h : (atomicDemo P).Run tr s) (hidle : ∀ p, s.pc p = .idle) :
    tr.countP (fun e => e.2.isKind Op.isCount) = tr.countP fun e => isParsedCall e.2 := by
  obtain ⟨n, hn, hcount⟩ := run_paired (fun c => (write_paired c).2) h
  have hzero : n = 0 := hn.eq_zero fun p => by rw [hidle p]; rfl
  have hraises : ∀ a : Act Op Op.Result Int (File × UserText), a.raises write Op.isCount never = isParsedCall a := by
    intro a
    cases a with
    | call c => exact (write_paired c).1
    | atomic | ret => rfl
  simp only [hraises] at hcount
  omega

/-- **The atomic demo loses no update.** For any writers and any interleaving of their atomic operations:
- the counters are what the commands make of them one after another, in the order of their operations on them, a
  compare-and-exchange that failed counting as none;
- so are the results of these operations;
- each writer has performed its commands, once each and in their order, when it is done;
- and when all are, `operations_count` is the number of parsed commands modulo `2^32`. -/
theorem atomic_demo_linearizes (tr : List (P × Act Op Op.Result Int (File × UserText)))
    (s : Threads P Shared (Pc Op Op.Result Int (File × UserText))) (h : (atomicDemo P).Run tr s) :
    (replay sem write effective ((commits effective tr).map Prod.fst) initial).2.counter = s.shared.counter ∧
    (replay sem write effective ((commits effective tr).map Prod.fst) initial).2.largeCounter = s.shared.largeCounter ∧
    (replay sem write effective ((commits effective tr).map Prod.fst) initial).1 = (commits effective tr).map Prod.snd ∧
    (∀ p, s.pc p = .idle → (issued p tr).filter isCommand = performed Op.modifies p tr) ∧
    ((∀ p, s.pc p = .idle) →
      s.shared.operationsCount = Int32.ofNat (tr.countP fun e => isParsedCall e.2)) := by
  obtain ⟨hresults, hview⟩ := run_linear sem_silent write_linear h
  refine ⟨congrArg Prod.fst hview, congrArg (fun v => v.2.1) hview, hresults, fun p hidle => ?_, fun hidle => ?_⟩
  · exact run_performed_idle write_makes h hidle
  · rw [run_operationsCount h, run_parsed h hidle]

end Runs

/-- One writer reads the counter for `cmpxchg 5`, another one increments and decrements it, and the first one's
compare-and-exchange succeeds. -/
def thereAndBack : List (Bool × Act Op Op.Result Int (File × UserText)) :=
  [(true, .call (.basic, .ofString "cmpxchg 5")),
   (true, .atomic (.basic, .ofString "cmpxchg 5") ⟨.incOperationsCount, ()⟩),
   (true, .atomic (.basic, .ofString "cmpxchg 5") ⟨.read, (0 : Int32)⟩),
   (false, .call (.basic, .ofString "inc")), (false, .atomic (.basic, .ofString "inc") ⟨.incOperationsCount, ()⟩),
   (false, .atomic (.basic, .ofString "inc") ⟨.incReturn, (1 : Int32)⟩), (false, .ret (.basic, .ofString "inc") 3),
   (false, .call (.basic, .ofString "dec")), (false, .atomic (.basic, .ofString "dec") ⟨.incOperationsCount, ()⟩),
   (false, .atomic (.basic, .ofString "dec") ⟨.decReturn, (0 : Int32)⟩), (false, .ret (.basic, .ofString "dec") 3),
   (true, .atomic (.basic, .ofString "cmpxchg 5") ⟨.cmpxchg 0 5, (0 : Int32)⟩),
   (true, .ret (.basic, .ofString "cmpxchg 5") 9)]

theorem atomic_demo_linearizes_thereAndBack : ∃ s, (atomicDemo Bool).Run thereAndBack s ∧ s.shared.counter = 5 ∧
    (replay sem write effective ((commits effective thereAndBack).map Prod.fst) initial).2.counter = 5 ∧
    s.shared.operationsCount = 3 := by
  have hrun : (atomicDemo Bool).Run thereAndBack _ :=
    ⟨pair initial .idle .idle, ⟨rfl, by rintro (_ | _) <;> rfl⟩,
      .cons (callers_step_true (.call _) _) <| .cons (callers_step_true .atomic _) <|
      .cons (callers_step_true .atomic _) <|
      .cons (callers_step_false (.call _) _) <| .cons (callers_step_false .atomic _) <|
      .cons (callers_step_false .atomic _) <| .cons (callers_step_false .ret _) <|
      .cons (callers_step_false (.call _) _) <| .cons (callers_step_false .atomic _) <|
      .cons (callers_step_false .atomic _) <| .cons (callers_step_false .ret _) <|
      .cons (callers_step_true .atomic _) <| .cons (callers_step_true .ret _) <| .nil _⟩
  obtain ⟨hcounter, -, -, -, hcount⟩ := atomic_demo_linearizes _ _ hrun
  exact ⟨_, hrun, rfl, hcounter, hcount (by rintro (_ | _) <;> rfl)⟩

end KernelModules.Atomic
