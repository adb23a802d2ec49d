import Mathlib.Data.Finset.Card
import KernelModules.Lib.Runs

/-!
# Processes over a shared state

`interleave` runs one local state per process over a shared state, one step of one process at a time; `pair` is a
state of two processes. A lock is the process that owns it, or nothing; `Tracks` says that the owner is exactly the
process that holds the lock by its local state. It is kept by every step that takes a free lock, gives back the lock
it owns, or does neither (`Tracks.step`), and it makes the holder unique (`Tracks.unique`).

Where several processes may hold something at once, `Counts n holds` says that exactly `n` of them do; it follows the
holders step by step (`Counts.update`, `Counts.step`), bounds one count by another (`Counts.mono`), and balances the
labels that enter and leave a place (`interleave_tally`).

A reader-writer lock (`RwLock`) is the owner of its write side and a count of its readers; `RwLock.Guards` is kept by
every move of a process (`RwLock.Guards.step`) and keeps readers and writers apart (`RwLock.Guards.exclusive`).
-/

namespace KernelModules.Lib

universe u v w x

variable {P : Type u} {G : Type v} {L : Type w} {E : Type x}

/-- A shared state and the local states of all processes. -/
structure Threads (P : Type u) (G : Type v) (L : Type w) where
  shared : G
  pc : P → L

/-- Any interleaving of the steps of all processes. -/
def interleave [DecidableEq P] (init : G → Prop) (start : L → Prop) (step : P → G → L → E → G → L → Prop) :
    System (Threads P G L) (P × E) where
  init s := init s.shared ∧ ∀ p, start (s.pc p)
  step s e s' := ∃ g l, step e.1 s.shared (s.pc e.1) e.2 g l ∧ s' = ⟨g, Function.update s.pc e.1 l⟩

/-- A step of one process, the others staying where they are. -/
theorem interleave_step_update [DecidableEq P] {init : G → Prop} {start : L → Prop}
    {step : P → G → L → E → G → L → Prop}
    {p : P} {g g' : G} {l l' : L} {e : E} (h : step p g l e g' l') (pc : P → L) :
    (interleave init start step).step ⟨g, Function.update pc p l⟩ (p, e) ⟨g', Function.update pc p l'⟩ := by
  refine ⟨g', l', ?_, ?_⟩
  · simp only [Function.update_self]
    exact h
  · simp only [Function.update_idem]

section Pair

variable {init : G → Prop} {start : L → Prop} {step : Bool → G → L → E → G → L → Prop} {g g' : G} {e : E}

/-- Two processes, each at its place. -/
def pair (g : G) (a b : L) : Threads Bool G L := ⟨g, fun p => bif p then a else b⟩

theorem interleave_step_true {a a' : L} (h : step true g a e g' a') (b : L) :
    (interleave init start step).step (pair g a b) (true, e) (pair g' a' b) := by
  refine ⟨g', a', h, ?_⟩
  rw [pair, Threads.mk.injEq]
  refine ⟨rfl, funext fun p => ?_⟩
  cases p <;> simp [pair]

theorem interleave_step_false {b b' : L} (h : step false g b e g' b') (a : L) :
    (interleave init start step).step (pair g a b) (false, e) (pair g' a b') := by
  refine ⟨g', b', h, ?_⟩
  rw [pair, Threads.mk.injEq]
  refine ⟨rfl, funext fun p => ?_⟩
  cases p <;> simp [pair]

end Pair

/-- The owner of a lock is the process that holds it. -/
def Tracks (owner : Option P) (holds : P → Bool) : Prop := ∀ p, owner = some p ↔ holds p = true

section Tracks

variable {owner : Option P} {holds : P → Bool} {p q : P}

theorem Tracks.unique (h : Tracks owner holds) (hp : holds p = true) (hq : holds q = true) : p = q :=
  Option.some.inj (((h p).mpr hp).symm.trans ((h q).mpr hq))

/-- A lock that nobody holds is free. -/
theorem Tracks.free (h : Tracks owner holds) (hnone : ∀ p, holds p = false) : owner = none := by
  cases howner : owner with
  | none => rfl
  | some p =>
    have := (h p).mp howner
    rw [hnone p] at this
    cases this

variable [DecidableEq P]

theorem Tracks.keep (h : Tracks owner holds) (p : P) : Tracks owner (Function.update holds p (holds p)) := by
  rw [Function.update_eq_self]
  exact h

theorem Tracks.acquire (h : Tracks none holds) (p : P) : Tracks (some p) (Function.update holds p true) := by
  intro q
  by_cases hq : q = p
  · subst hq
    simp
  · have hnot : ¬holds q = true := fun hold => by cases (h q).mpr hold
    rw [Function.update_of_ne hq]
    exact ⟨fun howner => absurd (Option.some.inj howner).symm hq, fun hold => absurd hold hnot⟩

theorem Tracks.release (h : Tracks (some p) holds) : Tracks none (Function.update holds p false) := by
  intro q
  by_cases hq : q = p
  · subst hq
    simp
  · have hnot : ¬holds q = true := fun hold => hq (Option.some.inj ((h q).mpr hold)).symm
    rw [Function.update_of_ne hq]
    exact ⟨fun howner => (by cases howner), fun hold => absurd hold hnot⟩

/-- **One step** of process `p` leaves the lock, takes the free lock, or gives back the lock it holds. -/
theorem Tracks.step {owner' : Option P} {f : L → Bool} {pc : P → L} {l : L} (h : Tracks owner fun q => f (pc q))
    (hstep : (owner' = owner ∧ f l = f (pc p)) ∨ (owner = none ∧ owner' = some p ∧ f l = true) ∨
      (f (pc p) = true ∧ owner' = none ∧ f l = false)) : Tracks owner' fun q => f (Function.update pc p l q) := by
  have hpc : (fun q => f (Function.update pc p l q)) = Function.update (fun q => f (pc q)) p (f l) :=
    Function.comp_update f pc p l
  rw [hpc]
  rcases hstep with ⟨rfl, hl⟩ | ⟨rfl, rfl, hl⟩ | ⟨hp, rfl, hl⟩
  · rw [hl]
    exact h.keep p
  · rw [hl]
    exact h.acquire p
  · rw [hl]
    rw [(h p).mpr hp] at h
    exact h.release

end Tracks

/-! ## Counting processes -/

/-- Exactly `n` processes hold. -/
def Counts (n : Nat) (holds : P → Bool) : Prop := ∃ f : Finset P, (∀ p, p ∈ f ↔ holds p = true) ∧ f.card = n

section Counts

variable {n m : Nat} {holds holds' : P → Bool} {p : P}

theorem Counts.zero (h : ∀ p, holds p = false) : Counts 0 holds :=
  ⟨∅, fun p => by simp [h p], rfl⟩

/-- The more hold, the higher the count. -/
theorem Counts.mono (h : Counts n holds) (h' : Counts m holds') (himp : ∀ p, holds p = true → holds' p = true) :
    n ≤ m := by
  obtain ⟨f, hf, rfl⟩ := h
  obtain ⟨f', hf', rfl⟩ := h'
  exact Finset.card_le_card fun p hp => (hf' p).mpr (himp p ((hf p).mp hp))

theorem Counts.eq_zero (h : Counts n holds) (hnone : ∀ p, holds p = false) : n = 0 :=
  Nat.le_zero.mp (h.mono (.zero hnone) fun _ hp => hp)

variable [DecidableEq P]

/-- One process starts or stops to hold, or does neither. -/
theorem Counts.update (h : Counts n holds) (p : P) (b : Bool) :
    ∃ m, Counts m (Function.update holds p b) ∧ m + (holds p).toNat = n + b.toNat := by
  obtain ⟨f, hf, rfl⟩ := h
  have hne : ∀ {q : P}, q ≠ p → Function.update holds p b q = holds q := fun hq => Function.update_of_ne hq b holds
  cases b with
  | true =>
    refine ⟨(insert p f).card, ⟨insert p f, fun q => ?_, rfl⟩, ?_⟩
    · by_cases hq : q = p
      · subst hq
        simp
      · rw [hne hq, Finset.mem_insert, hf q]
        exact ⟨fun h => h.resolve_left hq, .inr⟩
    · cases hp : holds p with
      | true => rw [Finset.insert_eq_of_mem ((hf p).mpr hp)]
      | false =>
        have hnot : p ∉ f := fun h => by rw [(hf p).mp h] at hp; cases hp
        rw [Finset.card_insert_of_notMem hnot]
        rfl
  | false =>
    refine ⟨(f.erase p).card, ⟨f.erase p, fun q => ?_, rfl⟩, ?_⟩
    · by_cases hq : q = p
      · subst hq
        simp
      · rw [hne hq, Finset.mem_erase, hf q]
        exact ⟨fun h => h.2, fun h => ⟨hq, h⟩⟩
    · cases hp : holds p with
      | true => exact Finset.card_erase_add_one ((hf p).mpr hp)
      | false =>
        have hnot : p ∉ f := fun h => by rw [(hf p).mp h] at hp; cases hp
        rw [Finset.erase_eq_of_notMem hnot]

/-- **One step** of process `p`. -/
theorem Counts.step {f : L → Bool} {pc : P → L} (h : Counts n fun q => f (pc q)) (p : P) (l : L) :
    ∃ m, Counts m (fun q => f (Function.update pc p l q)) ∧ m + (f (pc p)).toNat = n + (f l).toNat := by
  have hpc : (fun q => f (Function.update pc p l q)) = Function.update (fun q => f (pc q)) p (f l) :=
    Function.comp_update f pc p l
  rw [hpc]
  exact h.update p (f l)

end Counts

/-- **Tallies.** If the steps that enter and leave some places are labelled, then a run has entered them as often as
it has left them, up to the processes that are there. `I` is what every step keeps of the places. -/
theorem interleave_tally_of_inv [DecidableEq P] {init : G → Prop} {start : L → Prop}
    {step : P → G → L → E → G → L → Prop} {I : L → Prop} {f : L → Bool} (enter leave : E → Bool)
    (hstart : ∀ l, start l → I l ∧ f l = false)
    (hstep : ∀ {p g l e g' l'}, step p g l e g' l' → I l →
      I l' ∧ (f l').toNat + (leave e).toNat = (f l).toNat + (enter e).toNat)
    {tr : List (P × E)} {s : Threads P G L} (h : (interleave init start step).Run tr s) :
    (∀ p, I (s.pc p)) ∧ ∃ n, Counts n (fun p => f (s.pc p)) ∧
      n + tr.countP (fun e => leave e.2) = tr.countP fun e => enter e.2 := by
  refine System.Run.history (P := fun tr s => (∀ p, I (s.pc p)) ∧ ∃ n, Counts n (fun p => f (s.pc p)) ∧
    n + tr.countP (fun e => leave e.2) = tr.countP fun e => enter e.2) ?_ ?_ h
  · rintro s ⟨-, hs⟩
    exact ⟨fun p => (hstart _ (hs p)).1, 0, .zero fun p => (hstart _ (hs p)).2, rfl⟩
  · rintro tr s ⟨p, e⟩ s' - ⟨hinv, n, hn, htr⟩ ⟨g', l', he, rfl⟩
    obtain ⟨hinv', hpc⟩ := hstep he (hinv p)
    obtain ⟨m, hm, hmn⟩ := hn.step p l'
    refine ⟨(Function.forall_update_iff s.pc fun _ l => I l).mpr ⟨hinv', fun q _ => hinv q⟩, m, hm, ?_⟩
    simp only [System.countP_snoc]
    dsimp only at hpc hmn
    omega

theorem interleave_tally [DecidableEq P] {init : G → Prop} {start : L → Prop} {step : P → G → L → E → G → L → Prop}
    {f : L → Bool} (enter leave : E → Bool) (hstart : ∀ l, start l → f l = false)
    (hstep : ∀ {p g l e g' l'}, step p g l e g' l' →
      (f l').toNat + (leave e).toNat = (f l).toNat + (enter e).toNat)
    {tr : List (P × E)} {s : Threads P G L} (h : (interleave init start step).Run tr s) :
    ∃ n, Counts n (fun p => f (s.pc p)) ∧
      n + tr.countP (fun e => leave e.2) = tr.countP fun e => enter e.2 :=
  (interleave_tally_of_inv (I := fun _ => True) enter leave (fun l hl => ⟨trivial, hstart l hl⟩)
    (fun he _ => ⟨trivial, hstep he⟩) h).2

/-! ## Reader-writer locks -/

/-- The owner of the write side and the number of holders of the read side. -/
structure RwLock (P : Type u) where
  writer : Option P
  readers : Nat

/-- What one step of process `p` may do to a lock, and to what it holds of it: `k r w` before, `k' r' w'` after. -/
inductive RwLock.Move (p : P) : RwLock P → Bool → Bool → RwLock P → Bool → Bool → Prop
  | keep (k : RwLock P) (r w : Bool) : Move p k r w k r w
  | readLock {k : RwLock P} (w : Bool) : k.writer = none → Move p k false w { k with readers := k.readers + 1 } true w
  | readUnlock (k : RwLock P) (w : Bool) : Move p k true w { k with readers := k.readers - 1 } false w
  | writeLock {k : RwLock P} (r w : Bool) : k.writer = none → k.readers = 0 →
      Move p k r w { k with writer := some p } r true
  | writeUnlock (k : RwLock P) (r : Bool) : Move p k r true { k with writer := none } r false

/-- The lock knows its holders, and a writer is alone. -/
structure RwLock.Guards (k : RwLock P) (reads writes : P → Bool) : Prop where
  writer : Tracks k.writer writes
  readers : Counts k.readers reads
  alone : k.writer ≠ none → k.readers = 0

section RwLock

variable {k k' : RwLock P} {reads writes : P → Bool} {p q : P}

theorem RwLock.Guards.unlocked (hr : ∀ p, reads p = false) (hw : ∀ p, writes p = false) :
    RwLock.Guards ⟨none, 0⟩ reads writes where
  writer p := by simp [hw p]
  readers := .zero hr
  alone h := absurd rfl h

/-- Where somebody writes nobody reads. -/
theorem RwLock.Guards.exclusive (h : k.Guards reads writes) (hp : writes p = true) (q : P) : reads q = false := by
  have hwriter : k.writer ≠ none := fun hnone => by cases hnone.symm.trans ((h.writer p).mpr hp)
  obtain ⟨f, hf, hcard⟩ := h.readers
  rw [h.alone hwriter, Finset.card_eq_zero] at hcard
  subst hcard
  cases hq : reads q with
  | false => rfl
  | true => exact absurd ((hf q).mpr hq) (Finset.notMem_empty q)

variable [DecidableEq P]

/-- **One step** of process `p` keeps the lock in order. -/
theorem RwLock.Guards.step {r w : L → Bool} {pc : P → L} {l : L} (h : k.Guards (fun q => r (pc q)) fun q => w (pc q))
    (hmove : Move p k (r (pc p)) (w (pc p)) k' (r l) (w l)) :
    k'.Guards (fun q => r (Function.update pc p l q)) fun q => w (Function.update pc p l q) := by
  obtain ⟨m, hm, hmn⟩ := h.readers.step p l
  have hwriter : ∀ {owner : Option P}, (owner = k.writer ∧ w l = w (pc p)) ∨
      (k.writer = none ∧ owner = some p ∧ w l = true) ∨
      (w (pc p) = true ∧ owner = none ∧ w l = false) → Tracks owner fun q => w (Function.update pc p l q) :=
        h.writer.step
  generalize hr : r (pc p) = r₀ at hmove hmn
  generalize hw : w (pc p) = w₀ at hmove hwriter
  generalize r l = r₁ at hmove hmn
  generalize w l = w₁ at hmove hwriter
  cases hmove with
  | keep =>
    obtain rfl : m = k.readers := by omega
    exact ⟨hwriter (.inl ⟨rfl, rfl⟩), hm, h.alone⟩
  | readLock _ hfree =>
    simp only [Bool.toNat_true, Bool.toNat_false] at hmn
    obtain rfl : m = k.readers + 1 := by omega
    exact ⟨hwriter (.inl ⟨rfl, rfl⟩), hm, fun hne => absurd hfree hne⟩
  | readUnlock =>
    simp only [Bool.toNat_true, Bool.toNat_false] at hmn
    obtain rfl : m = k.readers - 1 := by omega
    refine ⟨hwriter (.inl ⟨rfl, rfl⟩), hm, fun hne => ?_⟩
    have := h.alone hne
    simp only at this ⊢
    omega
  | writeLock _ _ hfree hnone =>
    obtain rfl : m = k.readers := by omega
    exact ⟨hwriter (.inr (.inl ⟨hfree, rfl, rfl⟩)), hm, fun _ => hnone⟩
  | writeUnlock =>
    obtain rfl : m = k.readers := by omega
    exact ⟨hwriter (.inr (.inr ⟨rfl, rfl, rfl⟩)), hm, fun hne => absurd rfl hne⟩

end RwLock

end KernelModules.Lib
