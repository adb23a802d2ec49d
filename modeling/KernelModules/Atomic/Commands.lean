import Mathlib.Data.Nat.Bitwise
import KernelModules.Lib.Scan
import KernelModules.Atomic.AtomicDemo

/-!
# Accepted and rejected commands

What a write to the atomic demo does when its handler runs alone.

- a handler counts a command before it looks at the word, so a rejected command changes something if and only if it
  got as far as an unknown word (`write_words`, `atomic_demo_rejected`);
- `atomic_bits_write` accepts the texts of `Accepts`: white space in front, none between a word of 15 characters and its
  number, a number that is in range once narrowed to an `int`, and anything behind it (`atomicBitsWrite_accepts`,
  `atomicBitsWrite_rejects`). It is exact on the texts of the grammar, and rejects all others unless it accepts them in
  one of these ways (`atomic_bits_grammar`).
-/

namespace KernelModules.Atomic

open Lib Lib.Calls

/-! ## Words -/

/-- The words that the handler of a file knows. -/
def File.words : File → List (List UInt8)
  | .basic => basicWords
  | .advanced => advancedWords ++ ["ref_get", "ref_put"].map ascii
  | .bits => bitWords

/-- The command passes all checks but the last, which is on its word. -/
def UnknownWord (c : File × UserText) : Prop :=
  parsed c = true ∧ ∃ operation value, scanInput c.2 = .ok (operation, value) ∧ operation ∉ c.1.words

theorem basicOperation_ret {operation : List UInt8} (h : operation ∈ basicWords) (value : Int32) (count : Nat)
    (g : Shared) : ((basicOperation operation value count).run sem g).2 = count := by
  simp only [basicWords, List.map_cons, List.map_nil, List.mem_cons, List.not_mem_nil, or_false] at h
  rcases h with rfl | rfl | rfl | rfl | rfl | rfl | rfl <;> rfl

theorem advancedOperation_ret {operation : List UInt8} (h : operation ∈ File.advanced.words) (value : Int32)
    (count : Nat) (g : Shared) : ((advancedOperation operation value count).run sem g).2 = count := by
  simp only [File.words, advancedWords, List.map_cons, List.map_nil, List.mem_append, List.mem_cons, List.not_mem_nil,
    or_false] at h
  rcases h with (rfl | rfl | rfl | rfl | rfl | rfl) | rfl | rfl
  case inr.inr =>
    -- `ref_put` returns the count whether or not it resets
    show (Prog.run sem (if decide (g.refCount - 1 = 0) then _ else _) _).2 = _
    split
    · rfl
    · rfl
  all_goals rfl

theorem bitsOperation_ret {operation : List UInt8} (h : operation ∈ bitWords) (bitNum count : Nat) (g : Shared) :
    ((bitsOperation operation bitNum count).run sem g).2 = count := by
  simp only [bitWords, List.map_cons, List.map_nil, List.mem_cons, List.not_mem_nil, or_false] at h
  rcases h with rfl | rfl | rfl | rfl | rfl | rfl <;> rfl

/-- `atomic_inc(&operations_count)`. -/
def counted (g : Shared) : Shared := { g with operationsCount := g.operationsCount + 1 }

theorem counted_ne (g : Shared) : counted g ≠ g := by
  intro h
  have hcount : g.operationsCount + 1 = g.operationsCount + 0 :=
    (congrArg Shared.operationsCount h).trans (Int32.add_zero _).symm
  exact absurd ((Int32.add_right_inj _).mp hcount) (by decide)

/-- A command that is counted: rejected for its word, or carried out. -/
theorem counted_cases {body : Handler} {words : List (List UInt8)} {operation : List UInt8} {count : Nat}
    (hknown : operation ∈ words → ∀ g, (body.run sem g).2 = count)
    (hunknown : operation ∉ words → body = .ret (-eInval)) (g : Shared) :
    (operation ∉ words ∧ (Prog.bind .incOperationsCount fun _ => body).run sem g = (counted g, -eInval)) ∨
    (operation ∈ words ∧ ((Prog.bind .incOperationsCount fun _ => body).run sem g).2 = count) := by
  by_cases hmem : operation ∈ words
  · exact .inr ⟨hmem, hknown hmem (counted g)⟩
  · refine .inl ⟨hmem, ?_⟩
    rw [hunknown hmem]
    rfl

theorem basicOperation_unknown {operation : List UInt8} (h : operation ∉ File.basic.words) (value : Int32)
    (count : Nat) :
    basicOperation operation value count = .ret (-eInval) := by
  rcases basicOperation_cases operation value count with ⟨hmem, -⟩ | ⟨hmem, -⟩ | ⟨-, hbody⟩
  · exact absurd hmem h
  · exact absurd hmem h
  · exact hbody

theorem advancedOperation_unknown {operation : List UInt8} (h : operation ∉ File.advanced.words) (value : Int32)
    (count : Nat) : advancedOperation operation value count = .ret (-eInval) := by
  simp only [File.words, List.mem_append, not_or] at h
  obtain ⟨hwords, hrefs⟩ := h
  rcases advancedOperation_cases operation value count with ⟨hmem, -⟩ | ⟨rfl, -⟩ | ⟨rfl, -⟩ | ⟨-, -, -, hbody⟩
  · exact absurd hmem hwords
  · exact absurd (by decide) hrefs
  · exact absurd (by decide) hrefs
  · exact hbody

theorem bitsOperation_unknown {operation : List UInt8} (h : operation ∉ File.bits.words) (bitNum count : Nat) :
    bitsOperation operation bitNum count = .ret (-eInval) := by
  rcases bitsOperation_cases operation bitNum count with ⟨hmem, -⟩ | ⟨-, hbody⟩
  · exact absurd hmem h
  · exact hbody

/-- **A write alone** is rejected as it is, or counted: then it is rejected for its word, or carried out. -/
theorem write_words (c : File × UserText) (g : Shared) :
    (¬UnknownWord c ∧ ((write c).run sem g).1 = g) ∨
    (UnknownWord c ∧ (write c).run sem g = (counted g, -eInval)) ∨
    (¬UnknownWord c ∧ ((write c).run sem g).2 = c.2.count) := by
  obtain ⟨file, w⟩ := c
  have hunparsed (hparsed : parsed (file, w) = false) : ¬UnknownWord (file, w) := fun h => by
    rw [h.1] at hparsed
    cases hparsed
  cases hscan : scanInput w with
  | error e =>
    refine .inl ⟨hunparsed ?_, ?_⟩
    · cases file <;> simp only [parsed, hscan]
    · cases file <;> simp only [write, atomicBasicWrite, atomicAdvancedWrite, atomicBitsWrite, hscan, Prog.run]
  | ok command =>
    obtain ⟨operation, value⟩ := command
    -- a command that is counted
    have hcounted (body : Handler) (hparsed : parsed (file, w) = true)
        (hwrite : write (file, w) = .bind .incOperationsCount fun _ => body)
        (hknown : operation ∈ file.words → ∀ g, (body.run sem g).2 = w.count)
        (hunknown : operation ∉ file.words → body = .ret (-eInval)) :
        (UnknownWord (file, w) ∧ (write (file, w)).run sem g = (counted g, -eInval)) ∨
        (¬UnknownWord (file, w) ∧ ((write (file, w)).run sem g).2 = w.count) := by
      rw [hwrite]
      refine (counted_cases hknown hunknown g).imp (fun h => ⟨⟨hparsed, operation, value, hscan, h.1⟩, h.2⟩) fun h =>
        ⟨?_, h.2⟩
      rintro ⟨-, _, _, hscan', hnot⟩
      obtain ⟨rfl, -⟩ := Prod.mk.inj (Except.ok.inj (hscan.symm.trans hscan'))
      exact hnot h.1
    cases file with
    | basic =>
      refine .inr (hcounted (basicOperation operation (value.getD 0) w.count) ?_ ?_ ?_ ?_)
      · simp only [parsed, hscan]
      · simp only [write, atomicBasicWrite, hscan]
      · exact fun hmem => basicOperation_ret hmem _ _
      · exact fun hmem => basicOperation_unknown hmem _ _
    | advanced =>
      refine .inr (hcounted (advancedOperation operation (value.getD 0) w.count) ?_ ?_ ?_ ?_)
      · simp only [parsed, hscan]
      · simp only [write, atomicAdvancedWrite, hscan]
      · exact fun hmem => advancedOperation_ret hmem _ _
      · exact fun hmem => advancedOperation_unknown hmem _ _
    | bits =>
      cases value with
      | none => exact .inl ⟨hunparsed (by simp only [parsed, hscan]),
          by simp only [write, atomicBitsWrite, hscan, Prog.run]⟩
      | some bitNum =>
        by_cases hrange : bitNum < 0 ∨ bitNum ≥ bitsPerLong
        · refine .inl ⟨hunparsed ?_, ?_⟩
          · simp only [parsed, hscan, decide_eq_true hrange, Bool.not_true]
          · simp only [write, atomicBitsWrite, hscan, if_pos hrange, Prog.run]
        · refine .inr (hcounted (bitsOperation operation bitNum.toInt.toNat w.count) ?_ ?_ ?_ ?_)
          · simp only [parsed, hscan, decide_eq_false hrange, Bool.not_false]
          · simp only [write, atomicBitsWrite, hscan, if_neg hrange]
          · exact fun hmem => bitsOperation_ret hmem _ _
          · exact fun hmem => bitsOperation_unknown hmem _ _

/-- **A rejected command** changes nothing, if and only if it is not rejected for its word. -/
theorem atomic_demo_rejected (c : File × UserText) (g : Shared) :
    (((write c).run sem g).2 < 0 → ((write c).run sem g).1 = g) ↔ ¬UnknownWord c := by
  rcases write_words c g with ⟨hword, hsame⟩ | ⟨hword, hrun⟩ | ⟨hword, hret⟩
  · exact iff_of_true (fun _ => hsame) hword
  · rw [hrun]
    have hneg : -eInval < 0 := by decide
    exact iff_of_false (fun h => counted_ne g (h hneg)) (not_not_intro hword)
  · refine iff_of_true (fun hneg => ?_) hword
    rw [hret] at hneg
    exact absurd hneg (Int.not_lt.mpr (Int.natCast_nonneg _))

/-- An unknown word is counted. -/
theorem atomic_demo_rejected_counts : ((write (.basic, .ofString "foo")).run sem initial).2 = -eInval ∧
    initial.operationsCount = 0 ∧ ((write (.basic, .ofString "foo")).run sem initial).1.operationsCount = 1 :=
  ⟨rfl, rfl, rfl⟩

/-! ## Bits -/

section Bits

variable {n k : Nat}

theorem toNat_bitMask (hn : n < 64) : (bitMask n).toNat = 2 ^ n := by
  have hmod : (UInt64.ofNat n).toNat % 64 = n := by
    rw [UInt64.toNat_ofNat']
    omega
  have hlt : 2 ^ n < 2 ^ 64 := Nat.pow_lt_pow_right (by decide) hn
  rw [bitMask, UInt64.toNat_shiftLeft, hmod, UInt64.toNat_one, Nat.one_shiftLeft, Nat.mod_eq_of_lt hlt]

theorem getLsbD_bitMask (hn : n < 64) (k : Nat) : (bitMask n).toBitVec.getLsbD k = decide (k = n) := by
  rw [BitVec.getLsbD, UInt64.toNat_toBitVec, toNat_bitMask hn, Nat.testBit_two_pow]
  exact decide_eq_decide.mpr eq_comm

theorem testBit_eq (flags : UInt64) (hn : n < 64) : testBit flags n = flags.toBitVec.getLsbD n := by
  have hand : (flags &&& bitMask n).toNat = (flags.toNat.testBit n).toNat * 2 ^ n := by
    rw [UInt64.toNat_and, toNat_bitMask hn, Nat.and_two_pow]
  rw [BitVec.getLsbD, UInt64.toNat_toBitVec, testBit]
  cases hbit : flags.toNat.testBit n with
  | false =>
    rw [hbit, Bool.toNat_false, Nat.zero_mul] at hand
    have hzero : flags &&& bitMask n = 0 := UInt64.toNat_inj.mp hand
    rw [hzero]
    rfl
  | true =>
    rw [hbit, Bool.toNat_true, Nat.one_mul] at hand
    have hne : flags &&& bitMask n ≠ 0 := by
      intro hzero
      rw [hzero] at hand
      exact absurd hand.symm (Nat.two_pow_pos n).ne'
    exact bne_iff_ne.mpr hne

theorem testBit_or (flags : UInt64) (hn : n < 64) (hk : k < 64) :
    testBit (flags ||| bitMask n) k = if k = n then true else testBit flags k := by
  rw [testBit_eq _ hk, testBit_eq _ hk, UInt64.toBitVec_or, BitVec.getLsbD_or, getLsbD_bitMask hn]
  by_cases h : k = n <;> simp [h]

theorem testBit_andNot (flags : UInt64) (hn : n < 64) (hk : k < 64) :
    testBit (flags &&& ~~~bitMask n) k = if k = n then false else testBit flags k := by
  rw [testBit_eq _ hk, testBit_eq _ hk, UInt64.toBitVec_and, UInt64.toBitVec_not, BitVec.getLsbD_and,
    BitVec.getLsbD_not, getLsbD_bitMask hn]
  by_cases h : k = n <;> simp [h, hk]

theorem testBit_xor (flags : UInt64) (hn : n < 64) (hk : k < 64) :
    testBit (flags ^^^ bitMask n) k = if k = n then !testBit flags k else testBit flags k := by
  rw [testBit_eq _ hk, testBit_eq _ hk, UInt64.toBitVec_xor, BitVec.getLsbD_xor, getLsbD_bitMask hn]
  by_cases h : k = n <;> simp [h]

end Bits

/-- What an operation makes of its bit. -/
def prescribed (operation : List UInt8) (bit : Bool) : Bool :=
  if operation = ascii "set" ∨ operation = ascii "test_and_set" then true
  else if operation = ascii "clear" ∨ operation = ascii "test_and_clear" then false
  else !bit

/-- The flags after an operation on bit `n`. -/
def Prescribes (operation : List UInt8) (n : Nat) (flags flags' : UInt64) : Prop :=
  ∀ k < 64, testBit flags' k = if k = n then prescribed operation (testBit flags k) else testBit flags k

theorem bitsOperation_flags {operation : List UInt8} (h : operation ∈ bitWords) {n : Nat} (hn : n < 64) (count : Nat)
    (g : Shared) : Prescribes operation n g.bitFlags ((bitsOperation operation n count).run sem g).1.bitFlags := by
  intro k hk
  simp only [bitWords, List.map_cons, List.map_nil, List.mem_cons, List.not_mem_nil, or_false] at h
  rcases h with rfl | rfl | rfl | rfl | rfl | rfl
  · exact testBit_or g.bitFlags hn hk
  · exact testBit_andNot g.bitFlags hn hk
  · exact testBit_xor g.bitFlags hn hk
  · exact testBit_or g.bitFlags hn hk
  · exact testBit_andNot g.bitFlags hn hk
  · exact testBit_xor g.bitFlags hn hk

/-! ## The grammar of `bits` -/

/-- An operation, spaces, and a number that is a bit. -/
def Grammar (text operation : List UInt8) (v : Int) : Prop :=
  operation ∈ bitWords ∧ 0 ≤ v ∧ v < 64 ∧ ∃ gap number, text = operation ++ (gap ++ number) ∧ gap ≠ [] ∧
    (∀ c ∈ gap, isSpace c = true) ∧ Number number v

/-- The texts that are carried out: up to the first NUL, white space, an operation, white space unless the operation has
15 characters, a number that is a bit modulo `2^32`, and anything. -/
def Accepts (text operation : List UInt8) (v : Int) : Prop :=
  operation ∈ bitWords ∧ v % 2 ^ 32 < 64 ∧ ∃ number rest, Number number v ∧ Stops isDigit rest ∧
    WordThen 15 (cstr text) operation (number ++ rest)

theorem bitWords_shape : ∀ operation ∈ bitWords, operation ≠ [] ∧ operation.length ≤ 15 ∧
    (∀ c ∈ operation, isSpace c = false) ∧ 0 ∉ operation := by
  have hall : (bitWords.all fun operation => !operation.isEmpty && decide (operation.length ≤ 15) &&
      (operation.all fun c => !isSpace c) && !operation.contains 0) = true := by decide
  simpa [and_assoc] using hall

theorem Grammar.accepts {text operation : List UInt8} {v : Int} (h : Grammar text operation v) :
    Accepts text operation v := by
  obtain ⟨hword, hpos, hlt, gap, number, rfl, hne, hgap, hnumber⟩ := h
  obtain ⟨hnonempty, hfits, hsolid, hzero⟩ := bitWords_shape operation hword
  have hgapzero : 0 ∉ gap := fun hz => absurd (hgap 0 hz) (by decide)
  have hnul : 0 ∉ operation ++ (gap ++ number) := by
    simp only [List.mem_append, not_or]
    exact ⟨hzero, hgapzero, hnumber.zero_notMem⟩
  refine ⟨hword, by omega, number, [], hnumber, stops_nil _, ?_⟩
  rw [cstr_of_notMem hnul, List.append_nil]
  exact ⟨⟨[], gap, rfl, by simp, hgap, .inl hne⟩, hnonempty, hsolid, hfits⟩

/-- A number of the grammar is not changed when it is narrowed. -/
theorem Grammar.emod {text operation : List UInt8} {v : Int} (h : Grammar text operation v) : v % 2 ^ 32 = v := by
  obtain ⟨-, hpos, hlt, -⟩ := h
  omega

/-- The number is checked after it was narrowed. -/
theorem bitNum_in_range (v : Int) : ¬(Int32.ofInt v < 0 ∨ Int32.ofInt v ≥ bitsPerLong) ↔ v % 2 ^ 32 < 64 := by
  have h64 : bitsPerLong.toInt = 64 := rfl
  have h0 : (0 : Int32).toInt = 0 := rfl
  have hsize : Int32.size = 2 ^ 32 := rfl
  rw [ge_iff_le, Int32.lt_iff_toInt_lt, Int32.le_iff_toInt_le, Int32.toInt_ofInt, h64, h0, Int.bmod_def, hsize]
  split
  · omega
  · omega

theorem bitNum_toNat {v : Int} (h : v % 2 ^ 32 < 64) : (Int32.ofInt v).toInt.toNat = (v % 2 ^ 32).toNat := by
  have hsize : Int32.size = 2 ^ 32 := rfl
  rw [Int32.toInt_ofInt, Int.bmod_def, hsize]
  split
  · rfl
  · omega

section Writes

variable {w : UserText}

/-- A readable text is scanned. -/
theorem scanInput_eq (hcount : w.count ≤ 31) (hroom : w.count ≤ w.room) {operation : List UInt8} {x : Int32} :
    scanInput w = .ok (operation, some x) ↔
      scanWordInt 15 (cstr (slice w.buf 0 w.count)) = some (operation, some x) := by
  rw [scanInput, if_neg (Nat.not_lt.mpr hcount), if_neg (Nat.not_lt.mpr hroom), cstr_append_zero]
  cases scanWordInt 15 (cstr (slice w.buf 0 w.count)) with
  | none => simp
  | some command => simp

theorem scanInput_error {e : Int} (h : scanInput w = .error e) : e < 0 := by
  unfold scanInput at h
  split at h
  · cases h
    decide
  · split at h
    · cases h
      decide
    · split at h
      · cases h
        decide
      · cases h

theorem scanInput_ok {command : List UInt8 × Option Int32} (h : scanInput w = .ok command) :
    w.count ≤ 31 ∧ w.count ≤ w.room := by
  unfold scanInput at h
  split at h
  · cases h
  · rename_i hcount
    split at h
    · cases h
    · rename_i hroom
      exact ⟨Nat.le_of_not_lt hcount, Nat.le_of_not_lt hroom⟩

/-- **Accepted texts** are carried out. -/
theorem atomicBitsWrite_accepts (hcount : w.count ≤ 31) (hroom : w.count ≤ w.room) {operation : List UInt8} {v : Int}
    (h : Accepts (slice w.buf 0 w.count) operation v) (g : Shared) :
    ((atomicBitsWrite w).run sem g).2 = w.count ∧
      Prescribes operation (v % 2 ^ 32).toNat g.bitFlags ((atomicBitsWrite w).run sem g).1.bitFlags := by
  obtain ⟨hword, hrange, number, rest, hnumber, hstops, hparts⟩ := h
  have hscan : scanInput w = .ok (operation, some (Int32.ofInt v)) := (scanInput_eq hcount hroom).mpr
    ((scanWordInt_eq_some_iff (by decide)).mpr
    ⟨_, hparts, scanInt_eq_some_iff.mpr ⟨_, _, v, rfl, hnumber, hstops, rfl⟩⟩)
  have hwrite : atomicBitsWrite w =
      .bind .incOperationsCount fun _ => bitsOperation operation (v % 2 ^ 32).toNat w.count := by
    simp only [atomicBitsWrite, hscan, if_neg ((bitNum_in_range v).mpr hrange), bitNum_toNat hrange]
  rw [hwrite]
  exact ⟨bitsOperation_ret hword _ _ _, bitsOperation_flags hword (by omega) w.count (counted g)⟩

/-- **All other texts** are rejected. -/
theorem atomicBitsWrite_rejects
    (h : w.count ≤ 31 → w.count ≤ w.room → ∀ operation v, ¬Accepts (slice w.buf 0 w.count) operation v) (g : Shared) :
    ((atomicBitsWrite w).run sem g).2 < 0 ∧ ((atomicBitsWrite w).run sem g).1.bitFlags = g.bitFlags := by
  have hinval : -eInval < 0 := by decide
  cases hscan : scanInput w with
  | error e =>
    simp only [atomicBitsWrite, hscan, Prog.run, and_true]
    exact scanInput_error hscan
  | ok command =>
    obtain ⟨operation, value⟩ := command
    cases value with
    | none =>
      simp only [atomicBitsWrite, hscan, Prog.run, and_true]
      exact hinval
    | some bitNum =>
      by_cases hrange : bitNum < 0 ∨ bitNum ≥ bitsPerLong
      · simp only [atomicBitsWrite, hscan, if_pos hrange, Prog.run, and_true]
        exact hinval
      · -- all parts are there, so the word is unknown
        obtain ⟨hcount, hroom⟩ := scanInput_ok hscan
        obtain ⟨rest, hparts, hint⟩ := (scanWordInt_eq_some_iff (by decide)).mp ((scanInput_eq hcount hroom).mp hscan)
        obtain ⟨number, tail, v, rfl, hnumber, hstops, rfl⟩ := scanInt_eq_some_iff.mp hint
        have hword : operation ∉ File.bits.words := fun hmem =>
          h hcount hroom operation v ⟨hmem, (bitNum_in_range v).mp hrange, number, tail, hnumber, hstops, hparts⟩
        simp only [atomicBitsWrite, hscan, if_neg hrange, bitsOperation_unknown hword, Prog.run, sem, and_true]
        exact hinval

/-- **The grammar.** For every text of at most 31 bytes and all flags: the flags change only for a text of the
grammar; a text of the grammar that can be read is carried out on the bit it names; and every other text is rejected;
if and only if the text, should the scan accept it, is one of the grammar. -/
theorem atomic_bits_grammar (w : UserText) (hcount : w.count ≤ 31) (g : Shared) :
    (((((atomicBitsWrite w).run sem g).1.bitFlags ≠ g.bitFlags →
      ∃ operation v, Grammar (slice w.buf 0 w.count) operation v) ∧
      (∀ operation v, Grammar (slice w.buf 0 w.count) operation v → w.count ≤ w.room →
        ((atomicBitsWrite w).run sem g).2 = w.count ∧
        Prescribes operation v.toNat g.bitFlags ((atomicBitsWrite w).run sem g).1.bitFlags) ∧
      ((¬∃ operation v, Grammar (slice w.buf 0 w.count) operation v) → ((atomicBitsWrite w).run sem g).2 < 0))) ↔
    (w.count ≤ w.room → (∃ operation v, Accepts (slice w.buf 0 w.count) operation v) →
      ∃ operation v, Grammar (slice w.buf 0 w.count) operation v) := by
  constructor
  · rintro ⟨-, -, hreject⟩ hroom ⟨operation, v, haccepts⟩
    by_contra hgrammar
    have hret := hreject hgrammar
    rw [(atomicBitsWrite_accepts hcount hroom haccepts g).1] at hret
    exact absurd hret (Int.not_lt.mpr (Int.natCast_nonneg _))
  · intro hcond
    by_cases haccepts : w.count ≤ w.room ∧ ∃ operation v, Accepts (slice w.buf 0 w.count) operation v
    · have hgrammar := hcond haccepts.1 haccepts.2
      refine ⟨fun _ => hgrammar, fun operation v hv hroom => ?_, fun hnot => absurd hgrammar hnot⟩
      have hcarried := atomicBitsWrite_accepts hcount hroom hv.accepts g
      rwa [hv.emod] at hcarried
    · have hreject := atomicBitsWrite_rejects (w := w) (fun _ hroom operation v h =>
        haccepts ⟨hroom, operation, v, h⟩) g
      exact ⟨fun hne => absurd hreject.2 hne, fun operation v hv hroom =>
        absurd ⟨hroom, operation, v, hv.accepts⟩ haccepts, fun _ => hreject.1⟩

end Writes

/-- `change 5` can be read and is of the grammar. -/
theorem grammar_change : Grammar (ascii "change 5") (ascii "change") 5 :=
  ⟨by decide, by decide, by decide, ascii " ", ascii "5", rfl, by decide, List.all_eq_true.mp rfl,
    .unsigned (by decide) (List.all_eq_true.mp rfl)⟩

theorem atomic_bits_grammar_change : Prescribes (ascii "change") 5 initial.bitFlags
    ((atomicBitsWrite (.ofString "change 5")).run sem initial).1.bitFlags :=
  (((atomic_bits_grammar (.ofString "change 5") (by decide) initial).mpr fun _ _ => ⟨_, _, grammar_change⟩).2.1 _ _
    grammar_change (by decide)).2

/-- A text without a space is not of the grammar. -/
theorem not_grammar_of_solid {text : List UInt8} (h : text.any isSpace = false) (operation : List UInt8) (v : Int) :
    ¬Grammar text operation v := by
  rintro ⟨-, -, -, gap, number, rfl, hne, hgap, -⟩
  obtain ⟨c, gap, rfl⟩ := List.exists_cons_of_ne_nil hne
  have hany : (operation ++ (c :: gap ++ number)).any isSpace = true :=
    List.any_eq_true.mpr ⟨c, by simp, hgap c List.mem_cons_self⟩
  rw [h] at hany
  cases hany

/-- A number without a space before it, behind the one operation of 15 characters, is carried out; and a number that is
narrowed to 1 sets bit 1. -/
theorem atomic_bits_grammar_accepts :
    slice (UserText.ofString "test_and_change5").buf 0 16 = ascii "test_and_change5" ∧
    (∀ operation v, ¬Grammar (ascii "test_and_change5") operation v) ∧
    ((atomicBitsWrite (.ofString "test_and_change5")).run sem initial).2 = 16 ∧
    ((atomicBitsWrite (.ofString "test_and_change5")).run sem initial).1.bitFlags = 33 ∧
    Number (ascii "4294967297") 4294967297 ∧
    ((atomicBitsWrite (.ofString "set 4294967297")).run sem initial).2 = 14 ∧
    ((atomicBitsWrite (.ofString "set 4294967297")).run sem initial).1.bitFlags = 3 ∧ initial.bitFlags = 1 :=
  ⟨by decide, not_grammar_of_solid rfl, by decide, by decide,
    .unsigned (by decide) (List.all_eq_true.mp rfl), by decide, by decide, by decide⟩

end KernelModules.Atomic
