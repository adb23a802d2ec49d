import KernelModules.Lib.CString

/-!
# Attributes that are written back as read

`value_store` and `string_store` get a buffer of at least one byte with a NUL behind it, whatever its bytes are;
`value_show` and `string_show` make a text of what is stored. `string_store` cuts the last byte of its buffer, which
`string_show` has added.

- a store that fails changes nothing (`store_failed`);
- the string that any store leaves ends before its last two bytes (`Terminated`, `store_terminated`,
  `storeAll_terminated`);
- so the text that is shown can be stored again, and everything stays as it is (`valueStore_shownValue`,
  `stringStore_shownString`, `sysfs_write_back`);
- a text is shown as it was stored exactly if it was written with a newline (`stringStore_text`, `sysfs_string_kept`).
-/

namespace KernelModules.Sysfs

open Lib

/-! ## The code -/

/-- `example_value` and `example_string[64]`. -/
structure SysfsExample where
  exampleValue : Int32
  exampleString : List UInt8
  size : exampleString.length = 64

/-- At load time the value is 0 and the string is `"default"`. -/
def sysfsExample : SysfsExample where
  exampleValue := 0
  exampleString := ascii "default" ++ List.replicate 57 0
  size := rfl

/-- The bytes that sysfs passes to a store; a NUL follows them. -/
structure Buffer where
  bytes : List UInt8
  nonempty : 0 < bytes.length

def valueShow (s : SysfsExample) : List UInt8 := ascii (toString s.exampleValue) ++ [10]

def valueStore (s : SysfsExample) (buf : Buffer) : SysfsExample × Int :=
  match kstrtoint (cstr (buf.bytes ++ [0])) with
  | some value => ({ s with exampleValue := value }, buf.bytes.length)
  | none => (s, kstrtointError (cstr (buf.bytes ++ [0])))

def stringShow (s : SysfsExample) : List UInt8 := cstr s.exampleString ++ [10]

def stringStore (s : SysfsExample) (buf : Buffer) : SysfsExample × Int :=
  if h : buf.bytes.length ≥ 64 then (s, -eInval)
  else
    ({ s with
        exampleString :=
          (strncpy s.exampleString (buf.bytes ++ [0]) buf.bytes.length).set (buf.bytes.length - 1) 0
        size := by rw [List.length_set, length_strncpy (by rw [s.size]; omega), s.size] },
      buf.bytes.length)

inductive Store
  | value (buf : Buffer)
  | string (buf : Buffer)

def store (s : SysfsExample) : Store → SysfsExample × Int
  | .value buf => valueStore s buf
  | .string buf => stringStore s buf

/-- The state after some stores, those that fail included. -/
def storeAll (s : SysfsExample) (calls : List Store) : SysfsExample := calls.foldl (fun s c => (store s c).1) s

/-! ## Stores -/

/-- A failed store changes nothing. -/
theorem store_failed (s : SysfsExample) (c : Store) (h : (store s c).2 < 0) : (store s c).1 = s := by
  cases c with
  | value buf =>
    simp only [store, valueStore] at h ⊢
    cases hvalue : kstrtoint (cstr (buf.bytes ++ [0])) with
    | none => rfl
    | some value =>
      rw [hvalue] at h
      exact absurd h (by simp)
  | string buf =>
    simp only [store, stringStore] at h ⊢
    split
    · rfl
    · rename_i hlen
      rw [dif_neg hlen] at h
      exact absurd h (by simp)

/-- The string ends before the last two bytes of the array. -/
def Terminated (s : SysfsExample) : Prop := 0 ∈ s.exampleString ∧ (cstr s.exampleString).length ≤ 62

/-- An array with a NUL at index `i` holds at most `i` characters. -/
theorem length_cstr_set_le {bs : List UInt8} {i : Nat} (h : i < bs.length) : (cstr (bs.set i 0)).length ≤ i := by
  rw [List.set_eq_take_append_cons_drop, if_pos h, cstr_append_zero]
  exact Nat.le_trans (length_cstr_le _) (List.length_take_le i bs)

/-- **One store** leaves a terminated string. -/
theorem store_terminated {s : SysfsExample} (hs : Terminated s) (c : Store) : Terminated (store s c).1 := by
  cases c with
  | value buf =>
    simp only [store, valueStore]
    cases kstrtoint (cstr (buf.bytes ++ [0])) with
    | none => exact hs
    | some value => exact hs
  | string buf =>
    simp only [store, stringStore]
    split
    · exact hs
    · have hpos := buf.nonempty
      have hlast : buf.bytes.length - 1 < (strncpy s.exampleString (buf.bytes ++ [0]) buf.bytes.length).length := by
        rw [length_strncpy (by rw [s.size]; omega), s.size]
        omega
      constructor
      · exact List.mem_set hlast 0
      · exact Nat.le_trans (length_cstr_set_le hlast) (by omega)

/-- **Any stores** leave a terminated string. -/
theorem storeAll_terminated {s : SysfsExample} (hs : Terminated s) (calls : List Store) :
    Terminated (storeAll s calls) := by
  induction calls generalizing s with
  | nil => exact hs
  | cons c calls ih => exact ih (store_terminated hs c)

/-! ## Writing back -/

/-- The text of the value, as it is written back. -/
def shownValue (s : SysfsExample) : Buffer := ⟨valueShow s, by simp [valueShow]⟩

/-- The text of the string, as it is written back. -/
def shownString (s : SysfsExample) : Buffer := ⟨stringShow s, by simp [stringShow]⟩

/-- The value is read back from its text. -/
theorem valueStore_shownValue (s : SysfsExample) : valueStore s (shownValue s) = (s, ((valueShow s).length : Int)) := by
  have hzero : 0 ∉ ascii (toString s.exampleValue) ++ [10] := by
    rw [List.mem_append, not_or]
    exact ⟨zero_notMem_toString_int s.exampleValue.toInt, by decide⟩
  have hvalue : kstrtoint (cstr ((shownValue s).bytes ++ [0])) = some s.exampleValue := by
    have hbuf : cstr ((shownValue s).bytes ++ [0]) = ascii (toString s.exampleValue) ++ [10] := cstr_terminated [] hzero
    rw [hbuf]
    exact kstrtoint_toString s.exampleValue (.inr rfl)
  rw [valueStore, hvalue]
  rfl

/-- The newline that was added is cut again, and the bytes behind the string stay. -/
theorem stringStore_shownString {s : SysfsExample} (hs : Terminated s) :
    stringStore s (shownString s) = (s, ((stringShow s).length : Int)) := by
  obtain ⟨hzero, hlen⟩ := hs
  obtain ⟨t, ht⟩ := eq_cstr_append hzero
  have hcount : (shownString s).bytes.length = (cstr s.exampleString).length + 1 := by
    simp [shownString, stringShow]
  have hbuf : cstr ((shownString s).bytes ++ [0]) = cstr s.exampleString ++ [10] := by
    refine cstr_terminated [] ?_
    simp [shownString, stringShow, zero_notMem_cstr]
  -- the copy overwrites the string and its terminator, and the terminator is put back
  have hcopy : (strncpy s.exampleString ((shownString s).bytes ++ [0]) (shownString s).bytes.length).set
      ((shownString s).bytes.length - 1) 0 = s.exampleString := by
    have htake : (cstr s.exampleString ++ [10]).take ((cstr s.exampleString).length + 1) =
        cstr s.exampleString ++ [10] := List.take_of_length_le (by simp)
    have hdrop : s.exampleString.drop ((cstr s.exampleString).length + 1) = t := by
      refine (congrArg (List.drop _) ht).trans ?_
      rw [← List.drop_drop, List.drop_left]
      rfl
    rw [strncpy, hbuf, hcount, htake, List.length_append, List.length_singleton, Nat.sub_self, List.replicate_zero,
      List.append_nil, overlay, List.length_append, List.length_singleton, hdrop, Nat.add_sub_cancel, List.append_assoc,
      List.set_append_right _ _ (Nat.le_refl _), Nat.sub_self]
    exact ht.symm
  rw [stringStore, dif_neg (by omega)]
  cases s
  simp only [hcopy]
  rfl

/-- **Write-back.** After any stores, the text that is shown of the value or of the string can be stored again and
changes nothing; a store that fails changes nothing; and the string is terminated within 62 characters. -/
theorem sysfs_write_back (calls : List Store) :
    (valueStore (storeAll sysfsExample calls) (shownValue (storeAll sysfsExample calls)) =
      (storeAll sysfsExample calls, ((valueShow (storeAll sysfsExample calls)).length : Int))) ∧
    (stringStore (storeAll sysfsExample calls) (shownString (storeAll sysfsExample calls)) =
      (storeAll sysfsExample calls, ((stringShow (storeAll sysfsExample calls)).length : Int))) ∧
    (∀ c, (store (storeAll sysfsExample calls) c).2 < 0 →
      (store (storeAll sysfsExample calls) c).1 = storeAll sysfsExample calls) ∧
    0 ∈ (storeAll sysfsExample calls).exampleString ∧
    (cstr (storeAll sysfsExample calls).exampleString).length ≤ 62 := by
  have hs : Terminated (storeAll sysfsExample calls) := storeAll_terminated ⟨by decide, by decide⟩ calls
  refine ⟨valueStore_shownValue _, stringStore_shownString hs, ?_, hs.1, hs.2⟩
  intro c hc
  exact store_failed _ c hc

/-! ## Storing a text -/

/-- A store of a buffer that fits and has no NUL in it leaves all of it but the last byte. -/
theorem stringStore_text (s : SysfsExample) {buf : Buffer} (hlen : buf.bytes.length < 64) (hfree : 0 ∉ buf.bytes) :
    (stringStore s buf).2 = buf.bytes.length ∧ cstr (stringStore s buf).1.exampleString = buf.bytes.dropLast := by
  have hcopy : strncpy s.exampleString (buf.bytes ++ [0]) buf.bytes.length =
      buf.bytes ++ s.exampleString.drop buf.bytes.length := by
    rw [strncpy, cstr_terminated [] hfree, List.take_length, Nat.sub_self, List.replicate_zero, List.append_nil,
      overlay]
  obtain ⟨text, last, hsplit⟩ := List.eq_nil_or_concat buf.bytes |>.resolve_left
    (List.ne_nil_of_length_pos buf.nonempty)
  rw [List.concat_eq_append] at hsplit
  have hset : (buf.bytes ++ s.exampleString.drop buf.bytes.length).set (buf.bytes.length - 1) 0 =
      text ++ 0 :: s.exampleString.drop buf.bytes.length := by
    have hlast : buf.bytes.length - 1 = text.length := by rw [hsplit, List.length_append, List.length_singleton]; rfl
    rw [hlast, hsplit, List.append_assoc, List.set_append_right _ _ (Nat.le_refl _), Nat.sub_self,
      List.singleton_append, List.set_cons_zero]
  have htext : 0 ∉ text := fun h => hfree (hsplit ▸ List.mem_append_left _ h)
  rw [stringStore, dif_neg (by omega)]
  refine ⟨rfl, ?_⟩
  simp only [hcopy, hset, cstr_terminated _ htext]
  rw [hsplit, List.dropLast_concat]

/-- A text as it is written, with a newline behind it or without. -/
def written (text : List UInt8) (h : 0 < text.length) (newline : Bool) : Buffer :=
  ⟨text ++ if newline then [10] else [], by rw [List.length_append]; omega⟩

/-- **What is shown of a stored text.** For every text of 1 to 62 bytes without a NUL and every state before: the store
succeeds and the text is shown with one newline, exactly if it is written with its newline. -/
theorem sysfs_string_kept (s : SysfsExample) (text : List UInt8) (hpos : 0 < text.length) (hlen : text.length ≤ 62)
    (hfree : 0 ∉ text) (newline : Bool) :
    ((stringStore s (written text hpos newline)).2 = (written text hpos newline).bytes.length ∧
      stringShow (stringStore s (written text hpos newline)).1 = text ++ [10]) ↔ newline = true := by
  cases newline with
  | true =>
    have hbytes : (written text hpos true).bytes = text ++ [10] := rfl
    have hfits : (written text hpos true).bytes.length < 64 := by
      rw [hbytes, List.length_append, List.length_singleton]
      omega
    have hzero : 0 ∉ (written text hpos true).bytes := by simp [hbytes, hfree]
    obtain ⟨hret, hstring⟩ := stringStore_text s hfits hzero
    refine iff_of_true ⟨hret, ?_⟩ rfl
    rw [stringShow, hstring, hbytes, List.dropLast_concat]
  | false =>
    have hbytes : (written text hpos false).bytes = text := List.append_nil text
    have hfits : (written text hpos false).bytes.length < 64 := by
      rw [hbytes]
      omega
    have hstring := (stringStore_text s hfits (hbytes.symm ▸ hfree)).2
    refine iff_of_false (fun h => ?_) Bool.false_ne_true
    -- the last byte of the text is gone
    have hshown := h.2
    rw [stringShow, hstring, hbytes] at hshown
    have hcount := congrArg List.length hshown
    simp only [List.length_append, List.length_dropLast] at hcount
    omega

theorem sysfs_string_kept_hello : stringShow (stringStore sysfsExample (written (ascii "hello") (by decide) true)).1 =
    ascii "hello" ++ [10] :=
  ((sysfs_string_kept sysfsExample (ascii "hello") (by decide) (by decide) (by decide) true).mpr rfl).2

/-- Written without a newline, `hello` is shown as `hell`. -/
theorem sysfs_string_cut : (stringStore sysfsExample (written (ascii "hello") (by decide) false)).2 = 5 ∧
    stringShow (stringStore sysfsExample (written (ascii "hello") (by decide) false)).1 = ascii "hell" ++ [10] := by
  decide

end KernelModules.Sysfs
