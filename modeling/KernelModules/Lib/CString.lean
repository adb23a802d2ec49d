import KernelModules.Lib.Uaccess

/-!
# C strings in fixed arrays

A `char` array is the list of its bytes. The string it holds is what comes before the first NUL (`cstr`). `overlay`
writes over the start of an array; a write longer than the array makes the list longer, so a theorem that the length
is kept says that no copy overran. `strcpy`, `strncpy` and `strncpy_from_user` are overlays of what they store.
`kstrtoint` reads a decimal number from a string, `userInt` one from the text a process writes to a file; `decimal` is
the text of a number, which can be read back (`parseInteger_decimal`) and ends where no digit follows
(`decimal_append_inj`). An `int` is read back from its text by `kstrtoint` (`kstrtoint_toString`). `scanWordInt` is a
word and a number by `sscanf`.
-/

namespace KernelModules.Lib

/-- The string at the start of an array: its bytes before the first NUL. -/
def cstr : List UInt8 → List UInt8
  | [] => []
  | b :: bs => if b = 0 then [] else b :: cstr bs

/-- Bytes written over the start of an array. -/
def overlay (dst src : List UInt8) : List UInt8 := src ++ dst.drop src.length

/-- `strcpy(dst, src)`. -/
def strcpy (dst src : List UInt8) : List UInt8 := overlay dst (cstr src ++ [0])

/-- `strncpy(dst, src, n)`: at most `n` characters, padded with NULs to `n`. -/
def strncpy (dst src : List UInt8) (n : Nat) : List UInt8 :=
  overlay dst ((cstr src).take n ++ List.replicate (n - (cstr src).length) 0)

/-- What `strncpy_from_user(dst, src, n)` stores: up to and including the first NUL, or `n` bytes without one. -/
def userString (src : Nat → UInt8) (n : Nat) : List UInt8 :=
  if 0 ∈ slice src 0 n then cstr (slice src 0 n) ++ [0] else slice src 0 n

/-- `strnlen(s, n)`. -/
def strnlen (s : List UInt8) (n : Nat) : Nat := (cstr (s.take n)).length

/-- `snprintf(dst, size, ...)` of a text: cut to fit with its terminator. -/
def snprintf (dst : List UInt8) (size : Nat) (text : List UInt8) : List UInt8 :=
  overlay dst (text.take (size - 1) ++ [0])

/-- A text that is not empty and that `snprintf` need not cut. -/
def Fits (size : Nat) (text : List UInt8) : Prop := 0 < text.length ∧ text.length < size

/-! ## Numbers and strings -/

def isDigit (c : UInt8) : Bool := 48 ≤ c && c ≤ 57

/-- The value of decimal digits. -/
def parseInteger (digits : List UInt8) : Nat := digits.foldl (fun n c => n * 10 + (c.toNat - 48)) 0

/-- `_kstrtoull(s, 10)`: at least one digit, the value fits, and nothing follows but one newline. -/
def kstrtoull (s : List UInt8) : Option Nat :=
  let digits := s.takeWhile isDigit
  let rest := s.dropWhile isDigit
  if parseInteger digits ≥ 2 ^ 64 then none
  else if digits = [] then none
  else if rest = [] ∨ rest = [10] then some (parseInteger digits)
  else none

/-- `kstrtoll(s, 10)`: a sign may come first. -/
def kstrtoll : List UInt8 → Option Int
  | 45 :: s => (kstrtoull s).bind fun n => if n > 2 ^ 63 then none else some (-n)
  | 43 :: s => (kstrtoull s).bind fun n => if n ≥ 2 ^ 63 then none else some n
  | s => (kstrtoull s).bind fun n => if n ≥ 2 ^ 63 then none else some n

/-- `kstrtoint(s, 10)`. -/
def kstrtoint (s : List UInt8) : Option Int32 :=
  (kstrtoll s).bind fun n => if -2 ^ 31 ≤ n ∧ n < 2 ^ 31 then some (Int32.ofInt n) else none

/-- What `kstrtoint` returns when it stores nothing: `-ERANGE` for a number that does not fit, else `-EINVAL`. -/
def kstrtointError (s : List UInt8) : Int :=
  let s := match s with
    | 45 :: s => s
    | 43 :: s => s
    | s => s
  let digits := s.takeWhile isDigit
  let rest := s.dropWhile isDigit
  if parseInteger digits ≥ 2 ^ 64 then -eRange
  else if digits = [] then -eInval
  else if rest = [] ∨ rest = [10] then -eRange
  else -eInval

/-- The kernel's `isspace`. -/
def isSpace (c : UInt8) : Bool := (9 ≤ c && c ≤ 13) || c = 32 || c = 160

/-- `%d` of `sscanf`: a sign if there is one, at least one digit, and the number is truncated to an `int`. -/
def scanInt : List UInt8 → Option Int32
  | 45 :: s =>
    if s.takeWhile isDigit = [] then none else some (Int32.ofInt (-parseInteger (s.takeWhile isDigit)))
  | s => if s.takeWhile isDigit = [] then none else some (Int32.ofInt (parseInteger (s.takeWhile isDigit)))

/-- `sscanf(s, "%15s %d", ...)` for a width of 15: nothing of an empty string; else a word, which may be empty, and a
number if one follows. -/
def scanWordInt (width : Nat) (s : List UInt8) : Option (List UInt8 × Option Int32) :=
  if s = [] then none
  else
    let s := s.dropWhile isSpace
    let word := (s.takeWhile fun c => !isSpace c).take width
    some (word, scanInt ((s.drop word.length).dropWhile isSpace))

/-- `%lu`: a number in decimal. -/
def decimal (n : Nat) : List UInt8 := ascii (toString n)

/-- What a process writes: the bytes, how many of them, and how many can be read. -/
structure UserText where
  buf : Nat → UInt8
  count : Nat
  room : Nat

/-- A text all of which can be read. -/
def UserText.ofString (text : String) : UserText :=
  ⟨fun i => (ascii text).getD i 0, (ascii text).length, (ascii text).length⟩

/-- The number in a text of a process: the text is copied to an array of `size` bytes, terminated, and parsed; or the
error. -/
def userInt (size : Nat) (w : UserText) : Except Int Int32 :=
  if w.count ≥ size then .error (-eInval)
  else if w.room < w.count then .error (-eFault)
  else match kstrtoint (cstr (slice w.buf 0 w.count ++ [0])) with
    | some value => .ok value
    | none => .error (-eInval)

/-! ## Strings and their arrays -/

theorem zero_notMem_cstr : ∀ bs : List UInt8, 0 ∉ cstr bs
  | [] => by simp [cstr]
  | b :: bs => by
    unfold cstr
    split
    · simp
    · rename_i hb
      simp [Ne.symm hb, zero_notMem_cstr bs]

theorem cstr_of_notMem : ∀ {s : List UInt8}, 0 ∉ s → cstr s = s
  | [], _ => rfl
  | b :: s, h => by
    simp only [List.mem_cons, not_or] at h
    rw [cstr, if_neg (Ne.symm h.1), cstr_of_notMem h.2]

/-- The string at a place depends on no byte behind its NUL. -/
theorem cstr_slice_congr {m m' : Nat → UInt8} : ∀ {o n : Nat},
    (∀ i, o ≤ i → i < o + n → (∀ j, o ≤ j → j < i → m j ≠ 0) → m' i = m i) → cstr (slice m' o n) = cstr (slice m o n)
  | _, 0, _ => rfl
  | o, n + 1, h => by
    have hfirst : m' o = m o := h o (Nat.le_refl o) (by omega) fun j hj hlt => by omega
    rw [slice, slice, cstr, cstr, hfirst]
    split
    · rfl
    · next hne =>
      rw [cstr_slice_congr]
      intro i hi hlt hfree
      refine h i (by omega) (by omega) fun j hj hji => ?_
      rcases Nat.eq_or_lt_of_le hj with rfl | hj
      · exact hne
      · exact hfree j hj hji

/-- What follows a NUL does not count. -/
theorem cstr_append_zero : ∀ (s t : List UInt8), cstr (s ++ 0 :: t) = cstr s
  | [], t => by simp [cstr]
  | b :: s, t => by rw [List.cons_append, cstr, cstr, cstr_append_zero s t]

/-- The string before a NUL. -/
theorem cstr_terminated {s : List UInt8} (t : List UInt8) (h : 0 ∉ s) : cstr (s ++ 0 :: t) = s := by
  rw [cstr_append_zero, cstr_of_notMem h]

/-- An array with a NUL is its string, the NUL and a rest. -/
theorem eq_cstr_append : ∀ {bs : List UInt8}, 0 ∈ bs → ∃ t, bs = cstr bs ++ 0 :: t
  | [], h => by cases h
  | b :: bs, h => by
    by_cases hb : b = 0
    · exact ⟨bs, by simp [cstr, hb]⟩
    · rcases List.mem_cons.mp h with h | h
      · exact absurd h.symm hb
      · obtain ⟨t, ht⟩ := eq_cstr_append h
        exact ⟨t, by rw [cstr, if_neg hb, List.cons_append, ← ht]⟩

/-- A string with its terminator. -/
theorem take_cstr : ∀ {bs : List UInt8}, 0 ∈ bs → bs.take ((cstr bs).length + 1) = cstr bs ++ [0]
  | [], h => by cases h
  | b :: bs, h => by
    by_cases hb : b = 0
    · simp [cstr, hb]
    · rcases List.mem_cons.mp h with h | h
      · exact absurd h.symm hb
      · rw [cstr, if_neg hb, List.length_cons, List.take_succ_cons, take_cstr h, List.cons_append]

/-- Reading inside the string. -/
theorem take_of_le_cstr : ∀ {bs : List UInt8} {k : Nat}, k ≤ (cstr bs).length → bs.take k = (cstr bs).take k
  | [], k, _ => rfl
  | b :: bs, 0, _ => rfl
  | b :: bs, k + 1, h => by
    unfold cstr at h ⊢
    split
    · rename_i hb
      rw [if_pos hb] at h
      cases h
    · rename_i hb
      rw [if_neg hb] at h
      rw [List.take_succ_cons, List.take_succ_cons, take_of_le_cstr (Nat.le_of_succ_le_succ h)]

/-- A string with its terminator at the start of an array is the string of the array. -/
theorem cstr_eq_of_initial {s bs : List UInt8} (h : s ++ [0] <+: bs) (hs : 0 ∉ s) : cstr bs = s := by
  obtain ⟨t, rfl⟩ := h
  rw [List.append_assoc, List.singleton_append, cstr_terminated t hs]

theorem initial_cstr {bs : List UInt8} (h : 0 ∈ bs) : cstr bs ++ [0] <+: bs := by
  rw [← take_cstr h]
  exact List.take_prefix _ _

/-- An array in two parts. -/
theorem cstr_append : ∀ (s t : List UInt8), cstr (s ++ t) = if 0 ∈ s then cstr s else s ++ cstr t
  | [], t => by simp
  | b :: s, t => by
    rw [List.cons_append, cstr, cstr, cstr_append s t]
    by_cases hb : b = 0
    · simp [hb]
    · by_cases hs : 0 ∈ s
      · simp [hb, hs]
      · simp [hb, Ne.symm hb, hs]

/-- The array from inside its string on. -/
theorem cstr_drop : ∀ {bs : List UInt8} {k : Nat}, k ≤ (cstr bs).length → cstr (bs.drop k) = (cstr bs).drop k
  | _, 0, _ => rfl
  | [], k + 1, h => by cases h
  | b :: bs, k + 1, h => by
    unfold cstr at h
    split at h
    · cases h
    · rename_i hb
      rw [List.drop_succ_cons, cstr_drop (Nat.le_of_succ_le_succ h), cstr, if_neg hb, List.drop_succ_cons]

theorem cstr_take : ∀ (bs : List UInt8) (n : Nat), cstr (bs.take n) = (cstr bs).take n
  | [], n => by simp [cstr]
  | b :: bs, 0 => rfl
  | b :: bs, n + 1 => by
    rw [List.take_succ_cons, cstr, cstr, cstr_take bs n]
    split
    · rfl
    · rfl

theorem cstr_replicate_zero : ∀ n : Nat, cstr (List.replicate n 0) = []
  | 0 => rfl
  | _ + 1 => rfl

theorem length_cstr_lt {bs : List UInt8} (h : 0 ∈ bs) : (cstr bs).length < bs.length := by
  obtain ⟨t, ht⟩ := eq_cstr_append h
  have := congrArg List.length ht
  simp only [List.length_append, List.length_cons] at this
  omega

theorem length_cstr_le (bs : List UInt8) : (cstr bs).length ≤ bs.length := by
  by_cases h : 0 ∈ bs
  · exact Nat.le_of_lt (length_cstr_lt h)
  · exact Nat.le_of_eq (congrArg List.length (cstr_of_notMem h))

/-- An array without a NUL is its string. -/
theorem length_cstr_eq_iff (s : List UInt8) : s.length = (cstr s).length ↔ 0 ∉ s := by
  constructor
  · intro h hz
    have := length_cstr_lt hz
    omega
  · intro h
    rw [cstr_of_notMem h]

/-- A string ends by any NUL. -/
theorem length_cstr_le_of_zero {bs : List UInt8} {k : Nat} (h : bs[k]? = some 0) : (cstr bs).length ≤ k := by
  have hk := (List.getElem?_eq_some_iff.mp h).1
  have hzero : 0 ∈ bs.take (k + 1) := List.mem_of_getElem?
    (by rw [List.getElem?_take_of_lt (Nat.lt_succ_self k)]; exact h)
  have hlt := length_cstr_lt hzero
  rw [cstr_take, List.length_take, List.length_take] at hlt
  omega

/-- An overlay that fits keeps the length of the array. -/
theorem length_overlay {dst src : List UInt8} (h : src.length ≤ dst.length) :
    (overlay dst src).length = dst.length := by
  unfold overlay
  simp only [List.length_append, List.length_drop]
  omega

/-- What an overlay leaves of the start of an array: what it stores agrees with it. -/
theorem prefix_overlay_iff {x dst src : List UInt8} (hx : x <+: dst) :
    x <+: overlay dst src ↔ src.take x.length <+: x := by
  obtain ⟨z, rfl⟩ := hx
  unfold overlay
  constructor
  · intro h
    have hsrc : src.take x.length <+: src ++ (x ++ z).drop src.length :=
      (List.take_prefix _ _).trans (List.prefix_append _ _)
    exact List.prefix_of_prefix_length_le hsrc h (List.length_take_le _ _)
  · intro h
    by_cases hlen : src.length ≤ x.length
    · rw [List.take_of_length_le hlen] at h
      obtain ⟨y, rfl⟩ := h
      rw [List.append_assoc, List.drop_left, List.prefix_append_right_inj]
      exact List.prefix_append y z
    · have heq : src.take x.length = x := h.eq_of_length (by rw [List.length_take]; omega)
      have hx : x <+: src := by
        rw [← heq]
        exact List.take_prefix _ _
      exact hx.trans (List.prefix_append _ _)

/-- Bytes stored from the start of a range of a memory on. -/
theorem slice_deposit_overlay (m : Nat → UInt8) (d : Nat) {bs : List UInt8} {n : Nat} (h : bs.length ≤ n) :
    slice (deposit m d bs) d n = overlay (slice m d n) bs := by
  rw [overlay, drop_slice m d h]
  obtain ⟨k, rfl⟩ := Nat.exists_eq_add_of_le h
  have hrest : slice (deposit m d bs) (d + bs.length) k = slice m (d + bs.length) k :=
    slice_congr fun i _ => deposit_of_notMem m (.inr (by omega))
  rw [slice_append, slice_deposit, hrest, Nat.add_sub_cancel_left]

/-- A copied string that fits: the length is kept, the array has a NUL, and it holds the string. -/
theorem strcpy_spec {dst src : List UInt8} (h : (cstr src).length < dst.length) :
    (strcpy dst src).length = dst.length ∧ 0 ∈ strcpy dst src ∧ cstr (strcpy dst src) = cstr src := by
  refine ⟨length_overlay (by simp only [List.length_append, List.length_singleton]; omega), ?_, ?_⟩
  · simp [strcpy, overlay]
  · simp only [strcpy, overlay, List.append_assoc, List.singleton_append]
    exact cstr_terminated _ (zero_notMem_cstr src)

/-- An array overwritten and terminated behind what was written. -/
theorem cstr_overlay_set {dst src : List UInt8} (h : src.length < dst.length) :
    cstr ((overlay dst src).set src.length 0) = cstr src := by
  obtain ⟨b, t, hb⟩ : ∃ b t, dst.drop src.length = b :: t := by
    rw [List.drop_eq_getElem_cons h]
    exact ⟨_, _, rfl⟩
  rw [overlay, hb, List.set_append_right _ _ (Nat.le_refl _), Nat.sub_self, List.set_cons_zero, cstr_append_zero]

/-- A string taken from user memory into an array of `n + 1` bytes, terminated at byte `n`: the array holds the first
`n` characters up to the first NUL. -/
theorem cstr_userString {dst : List UInt8} (src : Nat → UInt8) {n : Nat} (hdst : dst.length = n + 1) :
    cstr ((overlay dst (userString src n)).set n 0) = cstr (slice src 0 n) := by
  unfold userString
  split
  · rename_i h
    have hlt := length_cstr_lt h
    rw [length_slice] at hlt
    simp only [overlay, List.append_assoc, List.singleton_append]
    -- the forced terminator lies behind the NUL that was copied
    obtain ⟨i, hi⟩ : ∃ i, n = (cstr (slice src 0 n)).length + (i + 1) :=
      ⟨n - (cstr (slice src 0 n)).length - 1, by omega⟩
    rw [List.set_append_right _ _ (by omega), show n - (cstr (slice src 0 n)).length = i + 1 by omega,
      List.set_cons_succ]
    exact cstr_terminated _ (zero_notMem_cstr _)
  · rename_i h
    have hdrop : (dst.drop n).length = 1 := by rw [List.length_drop, hdst]; omega
    obtain ⟨b, hb⟩ := List.length_eq_one_iff.mp hdrop
    simp only [overlay, length_slice, hb]
    rw [List.set_append_right _ _ (by simp), length_slice, Nat.sub_self, List.set_cons_zero, cstr_append_zero]

theorem length_strncpy {dst src : List UInt8} {n : Nat} (h : n ≤ dst.length) :
    (strncpy dst src n).length = dst.length := by
  refine length_overlay ?_
  simp only [List.length_append, List.length_take, List.length_replicate]
  omega

theorem length_snprintf {dst text : List UInt8} {size : Nat} (hpos : 0 < size) (h : size ≤ dst.length) :
    (snprintf dst size text).length = dst.length := by
  refine length_overlay ?_
  simp only [List.length_append, List.length_take, List.length_singleton]
  omega

/-- A string copied by `strncpy` with room for its terminator. -/
theorem cstr_strncpy (dst : List UInt8) {src : List UInt8} {n : Nat} (h : (cstr src).length < n) :
    ∃ t, strncpy dst src n = cstr src ++ 0 :: t := by
  obtain ⟨k, hk⟩ : ∃ k, n - (cstr src).length = k + 1 := ⟨n - (cstr src).length - 1, by omega⟩
  rw [strncpy, overlay, hk, List.take_of_length_le (by omega), List.replicate_succ, List.append_assoc, List.cons_append]
  exact ⟨_, rfl⟩

/-- What `strncpy(dst, src, n)` and `dst[n] = '\0'` leave in an array of `n + 1` bytes. -/
def paddedField (n : Nat) (src : List UInt8) : List UInt8 :=
  (cstr src).take n ++ List.replicate (n - (cstr src).length) 0 ++ [0]

theorem strncpy_set {dst : List UInt8} {n : Nat} (h : dst.length = n + 1) (src : List UInt8) :
    (strncpy dst src n).set n 0 = paddedField n src := by
  have hlen : ((cstr src).take n ++ List.replicate (n - (cstr src).length) (0 : UInt8)).length = n := by
    simp only [List.length_append, List.length_take, List.length_replicate]
    omega
  have hdrop : (dst.drop n).length = 1 := by
    rw [List.length_drop, h]
    omega
  obtain ⟨b, hb⟩ := List.length_eq_one_iff.mp hdrop
  rw [strncpy, overlay, hlen, hb, List.set_append_right _ _ (Nat.le_of_eq hlen), hlen, Nat.sub_self, List.set_cons_zero,
    paddedField]

@[simp] theorem length_paddedField (n : Nat) (src : List UInt8) : (paddedField n src).length = n + 1 := by
  simp only [paddedField, List.length_append, List.length_take, List.length_replicate, List.length_singleton]
  omega

theorem zero_mem_paddedField (n : Nat) (src : List UInt8) : 0 ∈ paddedField n src :=
  List.mem_append_right _ List.mem_cons_self

/-- The zeros behind the text, the last byte included. -/
theorem paddedField_eq (n : Nat) (src : List UInt8) :
    paddedField n src = (cstr src).take n ++ List.replicate (n + 1 - min (cstr src).length n) 0 := by
  have hone : ([0] : List UInt8) = List.replicate 1 0 := rfl
  rw [paddedField, List.append_assoc, hone, List.replicate_append_replicate]
  congr 2
  omega

theorem cstr_paddedField (n : Nat) (src : List UInt8) : cstr (paddedField n src) = (cstr src).take n := by
  have hfree : 0 ∉ (cstr src).take n := fun h => zero_notMem_cstr src (List.mem_of_mem_take h)
  obtain ⟨k, hk⟩ : ∃ k, n + 1 - min (cstr src).length n = k + 1 := ⟨n - min (cstr src).length n, by omega⟩
  rw [paddedField_eq, hk, List.replicate_succ, cstr_terminated _ hfree]

theorem zero_mem_snprintf (dst : List UInt8) (size : Nat) (text : List UInt8) : 0 ∈ snprintf dst size text := by
  simp [snprintf, overlay]

/-- A text that `snprintf` need not cut. -/
theorem cstr_snprintf {dst text : List UInt8} {size : Nat} (h : text.length < size) (hzero : 0 ∉ text) :
    cstr (snprintf dst size text) = text := by
  rw [snprintf, overlay, List.take_of_length_le (by omega), List.append_assoc, List.singleton_append]
  exact cstr_terminated _ hzero

theorem strnlen_le (s : List UInt8) (n : Nat) : strnlen s n ≤ n := by
  rw [strnlen, cstr_take]
  exact List.length_take_le n _

/-- A NUL stored inside a string cuts it. -/
theorem cstr_set : ∀ {bs : List UInt8} {k : Nat}, k ≤ (cstr bs).length → cstr (bs.set k 0) = (cstr bs).take k
  | [], k, _ => by simp [cstr]
  | b :: bs, 0, _ => by simp [cstr]
  | b :: bs, k + 1, h => by
    rw [List.set_cons_succ, cstr, cstr]
    rw [cstr] at h
    split
    · next hb => simp
    · next hb =>
      rw [if_neg hb, List.length_cons] at h
      rw [List.take_succ_cons, cstr_set (Nat.le_of_succ_le_succ h)]

/-- An array terminated where `strnlen` stopped. -/
theorem cstr_set_strnlen : ∀ {bs : List UInt8} {n : Nat}, n < bs.length →
    cstr (bs.set (strnlen bs n) 0) = cstr (bs.take n)
  | b :: bs, 0, _ => by simp [strnlen, cstr]
  | b :: bs, n + 1, h => by
    by_cases hb : b = 0
    · simp [strnlen, cstr, hb]
    · have hlen : strnlen (b :: bs) (n + 1) = strnlen bs n + 1 := by
        rw [strnlen, List.take_succ_cons, cstr, if_neg hb, List.length_cons, strnlen]
      rw [hlen, List.set_cons_succ, List.take_succ_cons, cstr, cstr, if_neg hb, if_neg hb,
        cstr_set_strnlen (Nat.lt_of_succ_lt_succ h)]

/-! ## Decimal numbers -/

theorem decimal_eq (n : Nat) : decimal n = (Nat.toDigits 10 n).map fun c => UInt8.ofNat c.toNat := by
  rw [decimal, ascii, Nat.toString_eq_ofList_toDigits, String.toList_ofList]

/-- The characters of a number are digits, and digits are single bytes. -/
theorem toNat_of_mem_toDigits {n : Nat} {c : Char} (h : c ∈ Nat.toDigits 10 n) :
    (UInt8.ofNat c.toNat).toNat = c.toNat ∧ 48 ≤ c.toNat ∧ c.toNat ≤ 57 := by
  have hdigit := Nat.isDigit_of_mem_toDigits (by decide) (by decide) h
  simp only [Char.isDigit, Bool.and_eq_true, decide_eq_true_eq, ge_iff_le, UInt32.le_iff_toNat_le] at hdigit
  have hlow : 48 ≤ c.toNat := hdigit.1
  have hhigh : c.toNat ≤ 57 := hdigit.2
  exact ⟨UInt8.toNat_ofNat_of_lt' (Nat.lt_of_le_of_lt hhigh (by decide)), hlow, hhigh⟩

theorem isDigit_of_mem_decimal {n : Nat} {b : UInt8} (h : b ∈ decimal n) : isDigit b = true := by
  rw [decimal_eq] at h
  obtain ⟨c, hc, rfl⟩ := List.mem_map.mp h
  obtain ⟨hnat, hlow, hhigh⟩ := toNat_of_mem_toDigits hc
  simp only [isDigit, Bool.and_eq_true, decide_eq_true_eq, UInt8.le_iff_toNat_le, hnat]
  exact ⟨hlow, hhigh⟩

/-- A number is read back from its text. -/
theorem parseInteger_decimal (n : Nat) : parseInteger (decimal n) = n := by
  have hfold : ∀ {l : List Char} (k : Nat), (∀ c ∈ l, (UInt8.ofNat c.toNat).toNat = c.toNat) →
      (l.map fun c => UInt8.ofNat c.toNat).foldl (fun n c => n * 10 + (c.toNat - 48)) k = Nat.ofDigitChars 10 l k := by
    intro l
    induction l with
    | nil => exact fun _ _ => rfl
    | cons c l ih =>
      intro k hl
      rw [List.map_cons, List.foldl_cons, ih _ fun d hd => hl d (List.mem_cons_of_mem _ hd), Nat.ofDigitChars_cons,
        hl c List.mem_cons_self, Nat.mul_comm]
      rfl
  rw [decimal_eq, parseInteger, hfold 0 fun c hc => (toNat_of_mem_toDigits hc).1, Nat.ofDigitChars_ten_toDigits]

theorem decimal_injective : Function.Injective decimal := fun n m h => by
  rw [← parseInteger_decimal n, h, parseInteger_decimal]

/-- A number ends at the first character that is no digit. -/
theorem decimal_append_inj {n m : Nat} {c : UInt8} {s t : List UInt8} (hc : isDigit c = false)
    (h : decimal n ++ c :: s = decimal m ++ c :: t) : n = m ∧ s = t := by
  have htake : ∀ (k : Nat) (u : List UInt8), (decimal k ++ c :: u).takeWhile isDigit = decimal k := fun k u => by
    rw [List.takeWhile_append_of_pos fun b hb => isDigit_of_mem_decimal hb, List.takeWhile_cons_of_neg (by simp [hc]),
      List.append_nil]
  have hnum : decimal n = decimal m := by rw [← htake n s, h, htake]
  rw [hnum] at h
  exact ⟨decimal_injective hnum, (List.cons.inj (List.append_cancel_left h)).2⟩

theorem length_decimal_le {n k : Nat} (hk : 0 < k) (h : n < 10 ^ k) : (decimal n).length ≤ k := by
  rw [decimal_eq, List.length_map]
  exact (Nat.length_toDigits_le_iff (by decide) hk).mpr h

theorem zero_notMem_decimal (n : Nat) : 0 ∉ decimal n := fun h => by
  have := isDigit_of_mem_decimal h
  revert this
  decide

theorem ascii_append (s t : String) : ascii (s ++ t) = ascii s ++ ascii t := by
  simp [ascii]

/-- `%d`: a sign if there is one, and the digits. -/
theorem ascii_toString_int (i : Int) :
    ascii (toString i) = if i < 0 then 45 :: decimal i.natAbs else decimal i.natAbs := by
  cases i with
  | ofNat n =>
    rw [if_neg (by simp)]
    rfl
  | negSucc n =>
    rw [if_pos (Int.negSucc_lt_zero n)]
    show ascii ("-" ++ toString (n + 1)) = _
    rw [ascii_append]
    rfl

theorem zero_notMem_toString_int (i : Int) : 0 ∉ ascii (toString i) := by
  rw [ascii_toString_int]
  split
  · simp [zero_notMem_decimal]
  · exact zero_notMem_decimal _

/-- An `int` has at most ten digits and a sign. -/
theorem length_toString_int32 (v : Int32) : (ascii (toString v)).length ≤ 11 := by
  have hlow := Int32.le_toInt v
  have hhigh := Int32.toInt_lt v
  have htext : toString v = toString v.toInt := rfl
  have hdigits : (decimal v.toInt.natAbs).length ≤ 10 := length_decimal_le (by decide) (by omega)
  rw [htext, ascii_toString_int]
  split
  · rw [List.length_cons]
    omega
  · omega

theorem decimal_ne_nil (n : Nat) : decimal n ≠ [] := fun h => by
  have hn := parseInteger_decimal n
  rw [h] at hn
  have : n = 0 := hn.symm
  subst this
  exact absurd h (by decide)

/-- The digits of a number that fits, and at most a newline. -/
theorem kstrtoull_decimal {n : Nat} (h : n < 2 ^ 64) {rest : List UInt8} (hrest : rest = [] ∨ rest = [10]) :
    kstrtoull (decimal n ++ rest) = some n := by
  have hnot : rest.takeWhile isDigit = [] ∧ rest.dropWhile isDigit = rest := by
    rcases hrest with rfl | rfl
    · exact ⟨rfl, rfl⟩
    · exact ⟨rfl, rfl⟩
  have hdigits : ∀ b ∈ decimal n, isDigit b = true := fun b hb => isDigit_of_mem_decimal hb
  rw [kstrtoull]
  rw [List.takeWhile_append_of_pos hdigits, List.dropWhile_append_of_pos hdigits, hnot.1, hnot.2, List.append_nil,
    parseInteger_decimal, if_neg (Nat.not_le.mpr h), if_neg (decimal_ne_nil n), if_pos hrest]

/-- A number without a sign. -/
theorem kstrtoll_decimal (n : Nat) (rest : List UInt8) :
    kstrtoll (decimal n ++ rest) =
      (kstrtoull (decimal n ++ rest)).bind fun n => if n ≥ 2 ^ 63 then none else some (n : Int) := by
  obtain ⟨b, bs, hb⟩ := List.exists_cons_of_ne_nil (decimal_ne_nil n)
  have hdigit : isDigit b = true := isDigit_of_mem_decimal (by rw [hb]; exact List.mem_cons_self)
  rw [hb, List.cons_append, kstrtoll]
  · rintro s h
    rw [(List.cons.inj h).1] at hdigit
    exact absurd hdigit (by decide)
  · rintro s h
    rw [(List.cons.inj h).1] at hdigit
    exact absurd hdigit (by decide)

/-- **An int is read back** from its text, with or without a newline. -/
theorem kstrtoint_toString (v : Int32) {rest : List UInt8} (hrest : rest = [] ∨ rest = [10]) :
    kstrtoint (ascii (toString v) ++ rest) = some v := by
  have hlow := Int32.le_toInt v
  have hhigh := Int32.toInt_lt v
  have htext : toString v = toString v.toInt := rfl
  rw [htext, ascii_toString_int]
  have hn : kstrtoull (decimal v.toInt.natAbs ++ rest) = some v.toInt.natAbs := kstrtoull_decimal (by omega) hrest
  have hlong : kstrtoll ((if v.toInt < 0 then 45 :: decimal v.toInt.natAbs else decimal v.toInt.natAbs) ++ rest) =
      some v.toInt := by
    split
    · rw [List.cons_append, kstrtoll, hn, Option.bind_some, if_neg (by omega)]
      exact congrArg some (by omega)
    · rw [kstrtoll_decimal, hn, Option.bind_some, if_neg (by omega)]
      exact congrArg some (by omega)
  rw [kstrtoint, hlong, Option.bind_some, if_pos ⟨by omega, by omega⟩, Int32.ofInt_toInt]

end KernelModules.Lib
