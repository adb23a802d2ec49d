import KernelModules.Lib.CString

/-!
# What `sscanf` accepts

The texts that `"%15s %d"` takes a word and a number from, by their parts: `scanWordInt_eq_some_iff`. The number is
one in decimal notation (`Number`, `scanInt_eq_some_iff`); it is narrowed to an `int`, and what follows it is not
looked at.
-/

namespace KernelModules.Lib

/-- A text that does not go on with such a character. -/
def Stops (p : UInt8 → Bool) (s : List UInt8) : Prop := ∀ c ∈ s.head?, p c = false

section Stops

variable {p : UInt8 → Bool} {w rest : List UInt8}

theorem stops_nil (p : UInt8 → Bool) : Stops p [] := fun c hc => by cases hc

theorem stops_cons {c : UInt8} (h : p c = false) (s : List UInt8) : Stops p (c :: s) := by
  intro d hd
  cases hd
  exact h

theorem stops_dropWhile (p : UInt8 → Bool) : ∀ s : List UInt8, Stops p (s.dropWhile p)
  | [] => stops_nil p
  | c :: s => by
    rw [List.dropWhile_cons]
    split
    · exact stops_dropWhile p s
    · rename_i hc
      exact stops_cons (Bool.eq_false_iff.mpr hc) s

/-- The characters up to where they stop. -/
theorem takeWhile_stops (hw : ∀ c ∈ w, p c = true) (hr : Stops p rest) : (w ++ rest).takeWhile p = w := by
  rw [List.takeWhile_append_of_pos hw]
  cases rest with
  | nil => rw [List.takeWhile_nil, List.append_nil]
  | cons c s => rw [List.takeWhile_cons_of_neg (by simp [hr c rfl]), List.append_nil]

theorem dropWhile_stops (hw : ∀ c ∈ w, p c = true) (hr : Stops p rest) : (w ++ rest).dropWhile p = rest := by
  rw [List.dropWhile_append_of_pos hw]
  cases rest with
  | nil => rfl
  | cons c s => rw [List.dropWhile_cons_of_neg (by simp [hr c rfl])]

end Stops

/-! ## Numbers -/

/-- Decimal notation and its value. -/
inductive Number : List UInt8 → Int → Prop
  | unsigned {digits : List UInt8} : digits ≠ [] → (∀ c ∈ digits, isDigit c = true) →
      Number digits (parseInteger digits)
  | negative {digits : List UInt8} : digits ≠ [] → (∀ c ∈ digits, isDigit c = true) →
      Number (45 :: digits) (-parseInteger digits)

/-- A digit is neither a sign nor a space. -/
theorem isDigit_cases {c : UInt8} (h : isDigit c = true) : c ≠ 45 ∧ isSpace c = false := by
  simp only [isDigit, Bool.and_eq_true, decide_eq_true_eq, UInt8.le_iff_toNat_le] at h
  obtain ⟨hlow, hhigh⟩ := h
  have h48 : (48 : UInt8).toNat = 48 := rfl
  have h57 : (57 : UInt8).toNat = 57 := rfl
  have hne {d : UInt8} (hd : d.toNat < 48 ∨ 57 < d.toNat) : c ≠ d := by
    rintro rfl
    omega
  refine ⟨hne (.inl (by decide)), ?_⟩
  have hcontrol : ¬c ≤ 13 := by
    rw [UInt8.le_iff_toNat_le]
    have h13 : (13 : UInt8).toNat = 13 := rfl
    omega
  simp [isSpace, hcontrol, hne (d := 32) (.inl (by decide)), hne (d := 160) (.inr (by decide))]

theorem Number.stops {number : List UInt8} {v : Int} (h : Number number v) (rest : List UInt8) :
    Stops isSpace (number ++ rest) := by
  cases h with
  | unsigned hne hdigits =>
    obtain ⟨c, digits, rfl⟩ := List.exists_cons_of_ne_nil hne
    exact stops_cons (isDigit_cases (hdigits c List.mem_cons_self)).2 _
  | negative => exact stops_cons rfl _

theorem Number.zero_notMem {number : List UInt8} {v : Int} (h : Number number v) : 0 ∉ number := by
  have hdigit : isDigit 0 = false := rfl
  cases h with
  | unsigned _ hdigits =>
    intro hz
    rw [hdigits 0 hz] at hdigit
    cases hdigit
  | negative _ hdigits =>
    intro hz
    rcases List.mem_cons.mp hz with hz | hz
    · cases hz
    · rw [hdigits 0 hz] at hdigit
      cases hdigit

theorem scanInt_of_ne {s : List UInt8} (h : ∀ t, s ≠ 45 :: t) : scanInt s =
    if s.takeWhile isDigit = [] then none else some (Int32.ofInt (parseInteger (s.takeWhile isDigit))) := by
  unfold scanInt
  split
  · rename_i t
    exact absurd rfl (h t)
  · rfl

theorem takeWhile_all {p : UInt8 → Bool} {s : List UInt8} : ∀ c ∈ s.takeWhile p, p c = true :=
  List.all_eq_true.mp List.all_takeWhile

/-- **`%d`** takes a number in decimal notation from the start of a text. -/
theorem scanInt_eq_some_iff {s : List UInt8} {x : Int32} : scanInt s = some x ↔
    ∃ number rest v, s = number ++ rest ∧ Number number v ∧ Stops isDigit rest ∧ x = Int32.ofInt v := by
  constructor
  · intro h
    unfold scanInt at h
    split at h
    · rename_i t
      split at h
      · cases h
      · rename_i hne
        exact ⟨45 :: t.takeWhile isDigit, t.dropWhile isDigit, _, by
          rw [List.cons_append, List.takeWhile_append_dropWhile],
          .negative hne takeWhile_all, stops_dropWhile isDigit t, (Option.some.inj h).symm⟩
    · split at h
      · cases h
      · rename_i hne
        exact ⟨s.takeWhile isDigit, s.dropWhile isDigit, _, List.takeWhile_append_dropWhile.symm,
          .unsigned hne takeWhile_all, stops_dropWhile isDigit s, (Option.some.inj h).symm⟩
  · rintro ⟨number, rest, v, rfl, hnumber, hstops, rfl⟩
    cases hnumber with
    | unsigned hne hdigits =>
      have hsign : ∀ t, number ++ rest ≠ 45 :: t := by
        obtain ⟨c, digits, rfl⟩ := List.exists_cons_of_ne_nil hne
        intro t ht
        exact (isDigit_cases (hdigits c List.mem_cons_self)).1 (List.cons.inj ht).1
      rw [scanInt_of_ne hsign, takeWhile_stops hdigits hstops, if_neg hne]
    | @negative digits hne hdigits =>
      rw [List.cons_append, scanInt, takeWhile_stops hdigits hstops, if_neg hne]

/-! ## Words -/

/-- The parts of a text with a word and what follows it: white space around the word, which a full word need not have
behind it. -/
structure WordThen (width : Nat) (s word rest : List UInt8) : Prop where
  parts : ∃ lead gap, s = lead ++ (word ++ (gap ++ rest)) ∧ (∀ c ∈ lead, isSpace c = true) ∧
    (∀ c ∈ gap, isSpace c = true) ∧ (gap ≠ [] ∨ word.length = width)
  nonempty : word ≠ []
  solid : ∀ c ∈ word, isSpace c = false
  fits : word.length ≤ width

/-- What `%15s` takes from a text that starts with no space, and what is left. -/
theorem word_parts {width : Nat} (hwidth : 0 < width) {t word : List UInt8} (hstops : Stops isSpace t) (ht : t ≠ [])
    (hword : (t.takeWhile fun c => !isSpace c).take width = word) :
    word ≠ [] ∧ (∀ c ∈ word, isSpace c = false) ∧ word.length ≤ width ∧ word ++ t.drop word.length = t ∧
      (word.length = width ∨ Stops (fun c => !isSpace c) (t.drop word.length)) := by
  subst hword
  refine ⟨?_, fun c hc => ?_, List.length_take_le _ _, ?_, ?_⟩
  · obtain ⟨c, s, rfl⟩ := List.exists_cons_of_ne_nil ht
    obtain ⟨n, rfl⟩ := Nat.exists_eq_add_of_lt hwidth
    rw [List.takeWhile_cons_of_pos (by simp [hstops c rfl]), Nat.zero_add, List.take_succ_cons]
    exact List.cons_ne_nil _ _
  · simpa using takeWhile_all c (List.mem_of_mem_take hc)
  · exact List.prefix_iff_eq_append.mp ((List.take_prefix _ _).trans (List.takeWhile_prefix _))
  · -- a word that is not cut ends where a space stops it
    rcases Nat.lt_or_ge (t.takeWhile fun c => !isSpace c).length width with hlt | hge
    · refine .inr ?_
      rw [List.take_of_length_le (Nat.le_of_lt hlt)]
      have hdrop : t.drop (t.takeWhile fun c => !isSpace c).length = t.dropWhile fun c => !isSpace c := by
        nth_rewrite 2 [← List.takeWhile_append_dropWhile (p := fun c => !isSpace c) (l := t)]
        exact List.drop_left
      rw [hdrop]
      exact stops_dropWhile _ t
    · exact .inl (by rw [List.length_take, Nat.min_eq_left hge])

/-- **`%15s %d`** takes a word and a number from a text. -/
theorem scanWordInt_eq_some_iff {width : Nat} (hwidth : 0 < width) {s word : List UInt8} {x : Int32} :
    scanWordInt width s = some (word, some x) ↔ ∃ rest, WordThen width s word rest ∧ scanInt rest = some x := by
  constructor
  · intro h
    unfold scanWordInt at h
    split at h
    · cases h
    · simp only [Option.some.injEq, Prod.mk.injEq] at h
      obtain ⟨hword, hx⟩ := h
      rw [hword] at hx
      have hne : s.dropWhile isSpace ≠ [] := by
        intro hnil
        rw [hnil, List.drop_nil] at hx
        cases hx
      obtain ⟨hnonempty, hsolid, hfits, hparts, hend⟩ := word_parts hwidth (stops_dropWhile isSpace s) hne hword
      generalize (s.dropWhile isSpace).drop word.length = u at hx hparts hend
      refine ⟨u.dropWhile isSpace, ⟨⟨s.takeWhile isSpace, u.takeWhile isSpace, ?_, takeWhile_all, takeWhile_all, ?_⟩,
        hnonempty, hsolid, hfits⟩, hx⟩
      · rw [List.takeWhile_append_dropWhile, hparts, List.takeWhile_append_dropWhile]
      · refine hend.symm.imp_left fun hstops hgap => ?_
        -- there is a number, so something follows the word
        cases u with
        | nil => cases hx
        | cons c u =>
          have hspace : isSpace c = true := by simpa using hstops c rfl
          rw [List.takeWhile_cons_of_pos hspace] at hgap
          cases hgap
  · rintro ⟨rest, ⟨⟨lead, gap, rfl, hlead, hgap, hend⟩, hnonempty, hsolid, hfits⟩, hx⟩
    have hrest : Stops isSpace rest := by
      obtain ⟨number, tail, v, rfl, hnumber, -⟩ := scanInt_eq_some_iff.mp hx
      exact hnumber.stops tail
    have hstart : Stops isSpace (word ++ (gap ++ rest)) := by
      obtain ⟨c, t, rfl⟩ := List.exists_cons_of_ne_nil hnonempty
      exact stops_cons (hsolid c List.mem_cons_self) _
    have hletters : ∀ c ∈ word, (!isSpace c) = true := fun c hc => by simp [hsolid c hc]
    have hword : ((word ++ (gap ++ rest)).takeWhile fun c => !isSpace c).take width = word := by
      rcases hend with hgap' | hwidth
      · obtain ⟨c, t, rfl⟩ := List.exists_cons_of_ne_nil hgap'
        have hspace : (!isSpace c) = false := by simp [hgap c List.mem_cons_self]
        rw [List.cons_append, takeWhile_stops hletters (stops_cons hspace _), List.take_of_length_le hfits]
      · rw [List.takeWhile_append_of_pos hletters, List.take_left' hwidth]
    have hs : lead ++ (word ++ (gap ++ rest)) ≠ [] := by simp [hnonempty]
    rw [scanWordInt, if_neg hs]
    simp only [dropWhile_stops hlead hstart, hword, List.drop_left, dropWhile_stops hgap hrest, hx]

end KernelModules.Lib
