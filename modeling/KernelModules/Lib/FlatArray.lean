import Mathlib.Algebra.Order.Ring.Int

/-!
# A flat array and the history of its accesses

An access is a load or a store of one value at one place. `Serves m tr m'` says that the accesses `tr`, in this order,
turn the contents `m` into `m'` and that each load returns what its place holds at that moment. Bulk transfers serve
their accesses one by one (`serves_loads`, `serves_stores`), and traces compose (`Serves.trans`).

In a served trace every load returns the value last stored at its place (`Serves.load_eq`), the final contents are the
values last stored (`Serves.final_eq`), and a place without a store keeps its value (`Serves.frame`).
-/

namespace KernelModules.Lib

universe u v

/-- A load or a store of a value at a place. -/
inductive Access (ι : Type u) (α : Type v) where
  | load (o : ι) (b : α)
  | store (o : ι) (b : α)
  deriving DecidableEq

/-- The place of an access. -/
def Access.place {ι : Type u} {α : Type v} : Access ι α → ι
  | .load o _ => o
  | .store o _ => o

section Serves

variable {ι : Type u} {α : Type v} [DecidableEq ι]

/-- The value last stored at `o`, if any. -/
def lastStored : List (Access ι α) → ι → Option α
  | [], _ => none
  | .load _ _ :: tr, o => lastStored tr o
  | .store p b :: tr, o => (lastStored tr o).or (if p = o then some b else none)

/-- The accesses `tr` lead from the contents `m` to `m'`; each load returns what it finds. -/
inductive Serves : (ι → α) → List (Access ι α) → (ι → α) → Prop
  | nil (m : ι → α) : Serves m [] m
  | load {m m' : ι → α} {tr : List (Access ι α)} (o : ι) : Serves m tr m' → Serves m (.load o (m o) :: tr) m'
  | store {m m' : ι → α} {tr : List (Access ι α)} (o : ι) (b : α) : Serves (Function.update m o b) tr m' →
      Serves m (.store o b :: tr) m'

/-- Served traces compose. -/
theorem Serves.trans {m m₁ m₂ : ι → α} {tr tr' : List (Access ι α)} (h : Serves m tr m₁) (h' : Serves m₁ tr' m₂) :
    Serves m (tr ++ tr') m₂ := by
  induction h with
  | nil m => exact h'
  | load o _ ih => exact .load o (ih h')
  | store o b _ ih => exact .store o b (ih h')

/-- A served trace can be cut anywhere. -/
theorem Serves.split {tr' : List (Access ι α)} {m₂ : ι → α} : ∀ {m : ι → α} {tr : List (Access ι α)},
    Serves m (tr ++ tr') m₂ → ∃ m₁, Serves m tr m₁ ∧ Serves m₁ tr' m₂
  | m, [], h => ⟨m, .nil m, h⟩
  | m, _ :: tr, h => by
    cases h with
    | load o h =>
      obtain ⟨m₁, h₁, h₂⟩ := Serves.split h
      exact ⟨m₁, .load o h₁, h₂⟩
    | store o b h =>
      obtain ⟨m₁, h₁, h₂⟩ := Serves.split h
      exact ⟨m₁, .store o b h₁, h₂⟩

/-- **The final contents** are the values last stored. -/
theorem Serves.final_eq {m m' : ι → α} {tr : List (Access ι α)} (h : Serves m tr m') (o : ι) :
    m' o = (lastStored tr o).getD (m o) := by
  induction h with
  | nil m => rfl
  | load p _ ih => exact ih
  | store p b _ ih =>
    rw [ih, lastStored]
    by_cases hp : p = o
    · subst hp; cases lastStored _ p <;> simp
    · rw [Function.update_of_ne (Ne.symm hp), if_neg hp, Option.or_none]

/-- **Loads** return the value last stored before them. -/
theorem Serves.load_eq {m m' : ι → α} {pre post : List (Access ι α)} {o : ι} {b : α}
    (h : Serves m (pre ++ .load o b :: post) m') : b = (lastStored pre o).getD (m o) := by
  obtain ⟨m₁, h₁, h₂⟩ := h.split
  cases h₂ with
  | load o _ => exact h₁.final_eq o

/-- A place that no access stores to has no last stored value. -/
theorem lastStored_eq_none {o : ι} : ∀ {tr : List (Access ι α)}, (∀ b, Access.store o b ∉ tr) → lastStored tr o = none
  | [], _ => rfl
  | .load _ _ :: _, h => by
    rw [lastStored]
    exact lastStored_eq_none fun b hb => h b (List.mem_cons_of_mem _ hb)
  | .store p b :: tr, h => by
    have hp : p ≠ o := by rintro rfl; exact h b List.mem_cons_self
    rw [lastStored, if_neg hp, Option.or_none]
    exact lastStored_eq_none fun b hb => h b (List.mem_cons_of_mem _ hb)

/-- **The frame**: a place without a store keeps its value. -/
theorem Serves.frame {m m' : ι → α} {tr : List (Access ι α)} (h : Serves m tr m') {o : ι}
    (ho : ∀ b, Access.store o b ∉ tr) : m' o = m o := by
  rw [h.final_eq, lastStored_eq_none ho, Option.getD_none]

end Serves

/-! ## Bulk transfers -/

section Bulk

variable {α : Type v}

/-- The values of `n` places from `s` on. -/
def slice (m : Nat → α) (s : Nat) : Nat → List α
  | 0 => []
  | n + 1 => m s :: slice m (s + 1) n

/-- `memcpy(dst + d, src + s, n)`. -/
def memcpy (dst : Nat → α) (d : Nat) (src : Nat → α) (s n : Nat) : Nat → α :=
  fun i => if d ≤ i ∧ i < d + n then src (s + (i - d)) else dst i

/-- `memset(dst, b, n)`. -/
def memset (dst : Nat → α) (b : α) (n : Nat) : Nat → α := fun i => if i < n then b else dst i

/-- The values `bs`, stored from `d` on. -/
def deposit (m : Nat → α) : Nat → List α → Nat → α
  | _, [] => m
  | d, b :: bs => deposit (Function.update m d b) (d + 1) bs

/-- The loads of `bs` from consecutive places. -/
def loads : Nat → List α → List (Access Nat α)
  | _, [] => []
  | o, b :: bs => .load o b :: loads (o + 1) bs

/-- The stores of `bs` to consecutive places. -/
def stores : Nat → List α → List (Access Nat α)
  | _, [] => []
  | o, b :: bs => .store o b :: stores (o + 1) bs

@[simp] theorem length_slice (m : Nat → α) : ∀ s n, (slice m s n).length = n
  | _, 0 => rfl
  | s, n + 1 => by rw [slice, List.length_cons, length_slice m (s + 1) n]

theorem slice_eq_map (m : Nat → α) : ∀ s n, slice m s n = (List.range n).map fun i => m (s + i)
  | _, 0 => rfl
  | s, n + 1 => by
    rw [slice, slice_eq_map m (s + 1) n, List.range_succ_eq_map, List.map_cons, List.map_map]
    simp only [Function.comp_def, Nat.add_zero, Nat.add_assoc, Nat.succ_eq_add_one, Nat.add_comm 1]

theorem slice_congr {m m' : Nat → α} : ∀ {s s' n : Nat}, (∀ i < n, m (s + i) = m' (s' + i)) →
    slice m s n = slice m' s' n
  | _, _, 0, _ => rfl
  | s, s', n + 1, h => by
    have htail : slice m (s + 1) n = slice m' (s' + 1) n := by
      apply slice_congr
      intro i hi
      have := h (i + 1) (by omega)
      rwa [show s + 1 + i = s + (i + 1) by omega, show s' + 1 + i = s' + (i + 1) by omega]
    rw [slice, slice, htail]
    congr 1
    exact h 0 (by omega)

theorem slice_append (m : Nat → α) : ∀ s n k, slice m s (n + k) = slice m s n ++ slice m (s + n) k
  | _, 0, k => by rw [Nat.zero_add, slice, List.nil_append, Nat.add_zero]
  | s, n + 1, k => by
    rw [show n + 1 + k = n + k + 1 by omega, slice, slice, slice_append m (s + 1) n k, List.cons_append,
      show s + (n + 1) = s + 1 + n by omega]

theorem take_slice (m : Nat → α) (s : Nat) {k n : Nat} (h : k ≤ n) : (slice m s n).take k = slice m s k := by
  obtain ⟨j, rfl⟩ := Nat.exists_eq_add_of_le h
  rw [slice_append, List.take_left' (length_slice m s k)]

theorem drop_slice (m : Nat → α) (s : Nat) {k n : Nat} (h : k ≤ n) :
    (slice m s n).drop k = slice m (s + k) (n - k) := by
  obtain ⟨j, rfl⟩ := Nat.exists_eq_add_of_le h
  rw [slice_append, List.drop_left' (length_slice m s k), Nat.add_sub_cancel_left]

/-- One store into a slice. -/
theorem slice_update (m : Nat → α) (b : α) : ∀ {s i n : Nat}, i < n →
    slice (Function.update m (s + i) b) s n = (slice m s n).set i b
  | s, 0, n + 1, _ => by
    have htail : slice (Function.update m s b) (s + 1) n = slice m (s + 1) n :=
      slice_congr fun i _ => Function.update_of_ne (by omega) _ _
    rw [slice, slice, Nat.add_zero, htail, Function.update_self, List.set_cons_zero]
  | s, i + 1, n + 1, h => by
    rw [slice, slice, List.set_cons_succ, Function.update_of_ne (by omega), show s + (i + 1) = s + 1 + i by omega,
      slice_update m b (Nat.lt_of_succ_lt_succ h)]

/-- What was copied is a slice of the source. -/
theorem slice_memcpy (dst src : Nat → α) (d s n : Nat) : slice (memcpy dst d src s n) d n = slice src s n := by
  apply slice_congr
  intro i hi
  rw [memcpy, if_pos ⟨by omega, by omega⟩, Nat.add_sub_cancel_left]

theorem memcpy_zero (dst src : Nat → α) (d s : Nat) : memcpy dst d src s 0 = dst := by
  funext i; rw [memcpy, if_neg (by omega)]

/-- A copy stores its first value and goes on. -/
theorem memcpy_succ (dst src : Nat → α) (d s n : Nat) :
    memcpy dst d src s (n + 1) = memcpy (Function.update dst d (src s)) (d + 1) src (s + 1) n := by
  funext i
  simp only [memcpy]
  rcases Nat.lt_trichotomy i d with h | h | h
  · rw [if_neg (by omega), if_neg (by omega), Function.update_of_ne (by omega)]
  · subst h
    rw [if_pos ⟨by omega, by omega⟩, if_neg (by omega), Function.update_self, Nat.sub_self, Nat.add_zero]
  · by_cases hi : i < d + (n + 1)
    · rw [if_pos ⟨by omega, hi⟩, if_pos ⟨by omega, by omega⟩]; congr 1; omega
    · rw [if_neg (by omega), if_neg (by omega), Function.update_of_ne (by omega)]

theorem loads_append : ∀ (o : Nat) (bs bs' : List α), loads o (bs ++ bs') = loads o bs ++ loads (o + bs.length) bs'
  | _, [], _ => by simp [loads]
  | o, b :: bs, bs' => by
    simp only [List.cons_append, loads, List.length_cons, loads_append (o + 1) bs bs']
    congr 3; omega

theorem stores_append : ∀ (o : Nat) (bs bs' : List α), stores o (bs ++ bs') = stores o bs ++ stores (o + bs.length) bs'
  | _, [], _ => by simp [stores]
  | o, b :: bs, bs' => by
    simp only [List.cons_append, stores, List.length_cons, stores_append (o + 1) bs bs']
    congr 3; omega

/-- Consecutive loads stay in their range. -/
theorem place_loads {a : Access Nat α} : ∀ {o : Nat} {bs : List α}, a ∈ loads o bs →
    o ≤ a.place ∧ a.place < o + bs.length
  | _, [], h => by cases h
  | o, b :: bs, h => by
    rw [List.length_cons]
    rcases List.mem_cons.mp h with rfl | h
    · simp only [Access.place]; omega
    · have := place_loads h; omega

/-- Consecutive stores stay in their range. -/
theorem place_stores {a : Access Nat α} : ∀ {o : Nat} {bs : List α}, a ∈ stores o bs →
    o ≤ a.place ∧ a.place < o + bs.length
  | _, [], h => by cases h
  | o, b :: bs, h => by
    rw [List.length_cons]
    rcases List.mem_cons.mp h with rfl | h
    · simp only [Access.place]; omega
    · have := place_stores h; omega

theorem load_notMem_stores {p : Nat} {b : α} : ∀ (o : Nat) (bs : List α), Access.load p b ∉ stores o bs
  | _, [] => by simp [stores]
  | o, _ :: bs => by simp [stores, load_notMem_stores (o + 1) bs]

/-- Loading a slice changes nothing. -/
theorem serves_loads (m : Nat → α) : ∀ s n, Serves m (loads s (slice m s n)) m
  | _, 0 => .nil m
  | s, n + 1 => .load s (serves_loads m (s + 1) n)

/-- Storing a slice of the source is the copy. -/
theorem serves_stores (src : Nat → α) : ∀ (m : Nat → α) (d s n : Nat),
    Serves m (stores d (slice src s n)) (memcpy m d src s n)
  | m, d, s, 0 => by rw [memcpy_zero]; exact .nil m
  | m, d, s, n + 1 => by rw [memcpy_succ]; exact .store d (src s) (serves_stores src _ (d + 1) (s + 1) n)

theorem serves_deposit : ∀ (m : Nat → α) (d : Nat) (bs : List α), Serves m (stores d bs) (deposit m d bs)
  | m, _, [] => .nil m
  | m, d, b :: bs => .store d b (serves_deposit (Function.update m d b) (d + 1) bs)

/-- Other places keep their values. -/
theorem deposit_of_notMem (m : Nat → α) {d i : Nat} {bs : List α} (h : i < d ∨ d + bs.length ≤ i) :
    deposit m d bs i = m i := by
  refine (serves_deposit m d bs).frame fun b hb => ?_
  have := place_stores hb
  simp only [Access.place] at this
  omega

/-- What was stored. -/
theorem slice_deposit : ∀ (m : Nat → α) (d : Nat) (bs : List α), slice (deposit m d bs) d bs.length = bs
  | _, _, [] => rfl
  | m, d, b :: bs => by
    rw [deposit, List.length_cons, slice, slice_deposit _ (d + 1) bs, deposit_of_notMem _ (.inl (Nat.lt_succ_self d)),
      Function.update_self]

theorem slice_deposit_other (m : Nat → α) {d s n : Nat} {bs : List α} (h : s + n ≤ d ∨ d + bs.length ≤ s) :
    slice (deposit m d bs) s n = slice m s n :=
  slice_congr fun i hi => deposit_of_notMem m (by omega)

end Bulk

end KernelModules.Lib
