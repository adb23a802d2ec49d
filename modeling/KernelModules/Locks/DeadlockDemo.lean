import Mathlib.Algebra.Order.BigOperators.Group.Finset
import KernelModules.Lib.Threads
import KernelModules.Lib.Uaccess

/-!
# Taking two locks without deadlock

Processes run `deadlock_demo_read`: they try to take both mutexes, back off when the second is taken, give up after
ten tries, and release both in the reverse order. One step of a process is one `mutex_trylock`, one `mutex_unlock`,
one sleep or the code between two of these. Unlocking is possible only for the owner.

- a step takes a free mutex, gives back its own, or touches none (`readStep_cases`);
- so the owners are the processes that hold the mutexes by their position in the code (`Owned`, `step_owned`,
  `run_owned`);
- exclusion, progress and the final state follow (`deadlock_demo_exclusion`); the steps left to a process decrease with
  each step it makes (`readStep_remaining`), so that every schedule ends (`deadlock_demo_terminates`).
-/

namespace KernelModules.Locks

open Lib

universe u

/-! ## The code -/

/-- `resource_a` and `resource_b`. -/
inductive Resource
  | a
  | b
deriving DecidableEq, Repr

def maxRetries : Nat := 10

/-- Where a process is in `deadlock_demo_read`. -/
inductive Pc
  | entry (pos : Int)
  /-- At the head of the loop of `safe_acquire_both_locks`. -/
  | loop (retries : Nat)
  /-- The first mutex is taken, the second is next. -/
  | second (retries : Nat)
  /-- The second mutex was refused, the first is to be released. -/
  | backOff (retries : Nat)
  /-- In `msleep(10)`. -/
  | sleeping (retries : Nat)
  /-- `safe_acquire_both_locks` returned 0. -/
  | critical
  /-- At the first `mutex_unlock` of `release_both_locks`. -/
  | releaseB
  /-- At the second one. -/
  | releaseA
  /-- `safe_acquire_both_locks` returned `-EBUSY`. -/
  | busy
  /-- At `copy_to_user` with the text. -/
  | copying (text : List UInt8)
  | done (ret : Int)

inductive Act
  | check
  | trylock (m : Resource) (ok : Bool)
  | unlock (m : Resource)
  | giveUp
  | wake
  | work
  | format
  | copy (fault : Bool)

def acquiredText (pid : Int) : List UInt8 :=
  ascii "Successfully acquired both resources (PID: " ++ ascii (toString pid) ++ ascii ")\n"

def failedText : List UInt8 := ascii "Failed to acquire resources - try again later\n"

variable {P : Type u}

/-- One step of process `p`; `g` are the owners of the mutexes. -/
inductive ReadStep (pid : P → Int) (p : P) : (Resource → Option P) → Pc → Act → (Resource → Option P) → Pc → Prop
  | seen {g : Resource → Option P} {pos : Int} : pos > 0 → ReadStep pid p g (.entry pos) .check g (.done 0)
  | enter {g : Resource → Option P} {pos : Int} : ¬pos > 0 → ReadStep pid p g (.entry pos) .check g (.loop 0)
  | lockA {g : Resource → Option P} {retries : Nat} : retries < maxRetries → g .a = none →
      ReadStep pid p g (.loop retries) (.trylock .a true) (Function.update g .a (some p)) (.second retries)
  | missA {g : Resource → Option P} {retries : Nat} : retries < maxRetries → g .a ≠ none →
      ReadStep pid p g (.loop retries) (.trylock .a false) g (.sleeping retries)
  | giveUp {g : Resource → Option P} {retries : Nat} : ¬retries < maxRetries →
      ReadStep pid p g (.loop retries) .giveUp g .busy
  | lockB {g : Resource → Option P} {retries : Nat} : g .b = none →
      ReadStep pid p g (.second retries) (.trylock .b true) (Function.update g .b (some p)) .critical
  | missB {g : Resource → Option P} {retries : Nat} : g .b ≠ none →
      ReadStep pid p g (.second retries) (.trylock .b false) g (.backOff retries)
  | backOff {g : Resource → Option P} {retries : Nat} : g .a = some p →
      ReadStep pid p g (.backOff retries) (.unlock .a) (Function.update g .a none) (.sleeping retries)
  | wake {g : Resource → Option P} {retries : Nat} :
      ReadStep pid p g (.sleeping retries) .wake g (.loop (retries + 1))
  | work {g : Resource → Option P} : ReadStep pid p g .critical .work g .releaseB
  | unlockB {g : Resource → Option P} : g .b = some p →
      ReadStep pid p g .releaseB (.unlock .b) (Function.update g .b none) .releaseA
  | unlockA {g : Resource → Option P} : g .a = some p →
      ReadStep pid p g .releaseA (.unlock .a) (Function.update g .a none) (.copying (acquiredText (pid p)))
  | failed {g : Resource → Option P} : ReadStep pid p g .busy .format g (.copying failedText)
  | copy {g : Resource → Option P} {text : List UInt8} (fault : Bool) :
      ReadStep pid p g (.copying text) (.copy fault) g (.done (if fault then -eFault else text.length))

/-- Any number of processes, each at the start of its call; both mutexes are free. -/
def deadlockDemo [DecidableEq P] (pid : P → Int) : System (Threads P (Resource → Option P) Pc) (P × Act) :=
  interleave (fun g => ∀ m, g m = none) (fun l => ∃ pos, l = .entry pos) (ReadStep pid)

/-! ## Ownership -/

/-- The mutexes a process holds at a place in the code. -/
def Pc.holds : Pc → Resource → Bool
  | .second _, .a => true
  | .backOff _, .a => true
  | .critical, _ => true
  | .releaseB, _ => true
  | .releaseA, .a => true
  | _, _ => false

def Pc.finished : Pc → Bool
  | .done _ => true
  | _ => false

section Steps

variable {pid : P → Int} {p : P} {g g' : Resource → Option P} {l l' : Pc} {act : Act}

/-- A step takes a free mutex, gives back one of its own, or touches none. -/
theorem readStep_cases (h : ReadStep pid p g l act g' l') :
    (∃ m, g m = none ∧ g' = Function.update g m (some p) ∧ l'.holds = Function.update l.holds m true) ∨
    (∃ m, g m = some p ∧ g' = Function.update g m none ∧ l'.holds = Function.update l.holds m false) ∨
    (g' = g ∧ l'.holds = l.holds) := by
  have hext : ∀ {f f' : Resource → Bool}, f .a = f' .a → f .b = f' .b → f = f' := fun ha hb => by
    funext m
    cases m with
    | a => exact ha
    | b => exact hb
  cases h with
  | seen => exact .inr (.inr ⟨rfl, hext rfl rfl⟩)
  | enter => exact .inr (.inr ⟨rfl, hext rfl rfl⟩)
  | lockA _ hfree => exact .inl ⟨.a, hfree, rfl, hext rfl rfl⟩
  | missA => exact .inr (.inr ⟨rfl, hext rfl rfl⟩)
  | giveUp => exact .inr (.inr ⟨rfl, hext rfl rfl⟩)
  | lockB hfree => exact .inl ⟨.b, hfree, rfl, hext rfl rfl⟩
  | missB => exact .inr (.inr ⟨rfl, hext rfl rfl⟩)
  | backOff hown => exact .inr (.inl ⟨.a, hown, rfl, hext rfl rfl⟩)
  | wake => exact .inr (.inr ⟨rfl, hext rfl rfl⟩)
  | work => exact .inr (.inr ⟨rfl, hext rfl rfl⟩)
  | unlockB hown => exact .inr (.inl ⟨.b, hown, rfl, hext rfl rfl⟩)
  | unlockA hown => exact .inr (.inl ⟨.a, hown, rfl, hext rfl rfl⟩)
  | failed => exact .inr (.inr ⟨rfl, hext rfl rfl⟩)
  | copy => exact .inr (.inr ⟨rfl, hext rfl rfl⟩)

/-- The steps a process may still make. -/
def Pc.remaining : Pc → Nat
  | .entry _ => 4 * maxRetries + 4
  | .loop retries => 4 * (maxRetries - retries) + 3
  | .second retries => 4 * (maxRetries - (retries + 1)) + 6
  | .backOff retries => 4 * (maxRetries - (retries + 1)) + 5
  | .sleeping retries => 4 * (maxRetries - (retries + 1)) + 4
  | .critical => 4
  | .releaseB => 3
  | .releaseA => 2
  | .busy => 2
  | .copying _ => 1
  | .done _ => 0

theorem readStep_remaining (h : ReadStep pid p g l act g' l') : l'.remaining < l.remaining := by
  cases h with
  | lockA hlt | missA hlt =>
    simp only [Pc.remaining]
    omega
  | _ =>
    simp only [Pc.remaining]
    omega

/-- Whatever mutexes it finds taken, a process that holds what it is about to release can make a step. -/
theorem readStep_enabled (pid : P → Int) (hown : ∀ m, g m = some p ↔ l.holds m = true) (hl : l.finished = false) :
    ∃ act g' l', ReadStep pid p g l act g' l' := by
  cases l with
  | entry pos =>
    by_cases hpos : pos > 0
    · exact ⟨_, _, _, .seen hpos⟩
    · exact ⟨_, _, _, .enter hpos⟩
  | loop retries =>
    by_cases hlt : retries < maxRetries
    · by_cases hfree : g .a = none
      · exact ⟨_, _, _, .lockA hlt hfree⟩
      · exact ⟨_, _, _, .missA hlt hfree⟩
    · exact ⟨_, _, _, .giveUp hlt⟩
  | second retries =>
    by_cases hfree : g .b = none
    · exact ⟨_, _, _, .lockB hfree⟩
    · exact ⟨_, _, _, .missB hfree⟩
  | backOff retries => exact ⟨_, _, _, .backOff ((hown .a).mpr rfl)⟩
  | sleeping retries => exact ⟨_, _, _, .wake⟩
  | critical => exact ⟨_, _, _, .work⟩
  | releaseB => exact ⟨_, _, _, .unlockB ((hown .b).mpr rfl)⟩
  | releaseA => exact ⟨_, _, _, .unlockA ((hown .a).mpr rfl)⟩
  | busy => exact ⟨_, _, _, .failed⟩
  | copying text => exact ⟨_, _, _, .copy false⟩
  | done ret => cases hl

end Steps

/-! ## Runs -/

section Runs

variable {pid : P → Int} {tr : List (P × Act)} {s s' : Threads P (Resource → Option P) Pc}

/-- The owner of each mutex is the process that holds it by its place in the code. -/
def Owned (s : Threads P (Resource → Option P) Pc) : Prop := ∀ m, Tracks (s.shared m) fun p => (s.pc p).holds m

theorem Owned.owner_iff (h : Owned s) (m : Resource) (p : P) : s.shared m = some p ↔ (s.pc p).holds m = true := h m p

variable [DecidableEq P]

/-- **One step** of one process keeps ownership. -/
theorem step_owned {e : P × Act} (h : Owned s) (hs : (deadlockDemo pid).step s e s') : Owned s' := by
  obtain ⟨p, act⟩ := e
  obtain ⟨g, l, hstep, rfl⟩ := hs
  intro m
  refine (h m).step (f := fun l : Pc => l.holds m) ?_
  rcases readStep_cases hstep with ⟨r, hfree, rfl, hl⟩ | ⟨r, hown, rfl, hl⟩ | ⟨rfl, hl⟩
  · by_cases hmr : m = r
    · subst hmr
      exact .inr (.inl ⟨hfree, Function.update_self .., by rw [hl, Function.update_self]⟩)
    · exact .inl ⟨Function.update_of_ne hmr .., by rw [hl, Function.update_of_ne hmr]⟩
  · by_cases hmr : m = r
    · subst hmr
      exact .inr (.inr ⟨(h m p).mp hown, Function.update_self .., by rw [hl, Function.update_self]⟩)
    · exact .inl ⟨Function.update_of_ne hmr .., by rw [hl, Function.update_of_ne hmr]⟩
  · exact .inl ⟨rfl, by rw [hl]⟩

/-- **Every run** keeps ownership. -/
theorem run_owned (h : (deadlockDemo pid).Run tr s) : Owned s := by
  refine h.invariant ?_ fun _ _ _ howned hs => step_owned howned hs
  rintro s ⟨hfree, hstart⟩ m p
  obtain ⟨pos, hpos⟩ := hstart p
  simp [hfree m, hpos, Pc.holds]

/-- **Termination.** A process makes at most 44 steps, whatever the others do. -/
theorem deadlock_demo_bounded (h : (deadlockDemo pid).Run tr s) (p : P) :
    (System.labelsOf p tr).length + (s.pc p).remaining ≤ 4 * maxRetries + 4 := by
  refine @System.Run.history _ _ (deadlockDemo pid)
    (fun tr s => (System.labelsOf p tr).length + (s.pc p).remaining ≤ 4 * maxRetries + 4) ?_ ?_ _ _ h
  · rintro s ⟨-, hstart⟩
    obtain ⟨pos, hpos⟩ := hstart p
    rw [hpos]
    exact Nat.le_of_eq (Nat.zero_add _)
  · rintro tr s ⟨q, act⟩ s' - ih ⟨g, l, hstep, rfl⟩
    by_cases hq : q = p
    · subst hq
      have := readStep_remaining hstep
      rw [System.labelsOf_self, List.length_append, List.length_singleton]
      simp only [Function.update_self] at this ⊢
      omega
    · rw [System.labelsOf_ne hq]
      simp only [Function.update_of_ne (Ne.symm hq)]
      exact ih

/-- **Two locks without deadlock.** In every state of every interleaving: a mutex is owned by the one process that
took it and has not released it; at most one process is between a successful `safe_acquire_both_locks` and the
release, and it owns both mutexes; one that sleeps before a retry or was refused owns none; every unfinished process
can make a step; and when all have finished both mutexes are free. -/
theorem deadlock_demo_exclusion (pid : P → Int) (tr : List (P × Act)) (s : Threads P (Resource → Option P) Pc)
    (h : (deadlockDemo pid).Run tr s) :
    (∀ m p, s.shared m = some p ↔ (s.pc p).holds m = true) ∧
    (∀ m p q, (s.pc p).holds m = true → (s.pc q).holds m = true → p = q) ∧
    (∀ p q, s.pc p = .critical → s.pc q = .critical → p = q) ∧
    (∀ p, s.pc p = .critical → s.shared .a = some p ∧ s.shared .b = some p) ∧
    (∀ p m, s.pc p = .busy ∨ (∃ retries, s.pc p = .sleeping retries) → s.shared m ≠ some p) ∧
    (∀ p, (s.pc p).finished = false → ∃ act s', (deadlockDemo pid).step s (p, act) s') ∧
    ((∀ p, (s.pc p).finished = true) → ∀ m, s.shared m = none) := by
  have howned := run_owned h
  have hunique : ∀ m p q, (s.pc p).holds m = true → (s.pc q).holds m = true → p = q := fun m p q hp hq =>
    (howned m).unique hp hq
  refine ⟨howned, hunique, ?_, ?_, ?_, ?_, ?_⟩
  · intro p q hp hq
    exact hunique .a p q (by rw [hp]; rfl) (by rw [hq]; rfl)
  · intro p hp
    exact ⟨(howned.owner_iff .a p).mpr (by rw [hp]; rfl), (howned.owner_iff .b p).mpr (by rw [hp]; rfl)⟩
  · intro p m hp hown
    have hholds := (howned.owner_iff m p).mp hown
    rcases hp with hp | ⟨retries, hp⟩
    · rw [hp] at hholds
      cases hholds
    · rw [hp] at hholds
      cases hholds
  · intro p hp
    obtain ⟨act, g', l', hstep⟩ := readStep_enabled pid (fun m => howned.owner_iff m p) hp
    exact ⟨act, _, g', l', hstep, rfl⟩
  · intro hall m
    refine (howned m).free fun p => ?_
    have hp := hall p
    cases hl : s.pc p with
    | done ret => rfl
    | _ => rw [hl] at hp; cases hp

end Runs

/-- One of two processes takes both mutexes, the other is refused the first. -/
def oneRefused : List (Bool × Act) :=
  [(true, .check), (true, .trylock .a true), (true, .trylock .b true), (false, .check), (false, .trylock .a false)]

theorem run_oneRefused : ∃ s, (deadlockDemo fun p : Bool => if p then 1 else 2).Run oneRefused s ∧
    s.pc true = .critical ∧ s.pc false = .sleeping 0 :=
  ⟨_, ⟨⟨fun _ => none, fun _ => .entry 0⟩, ⟨fun _ => rfl, fun _ => ⟨0, rfl⟩⟩,
    .cons ⟨_, _, .enter (by decide), rfl⟩ <| .cons ⟨_, _, .lockA (by decide) rfl, rfl⟩ <|
    .cons ⟨_, _, .lockB rfl, rfl⟩ <| .cons ⟨_, _, .enter (by decide), rfl⟩ <|
    .cons ⟨_, _, .missA (by decide) (by decide), rfl⟩ <| .nil _⟩, rfl, rfl⟩

theorem deadlock_demo_exclusion_oneRefused : ∃ s, (deadlockDemo fun p : Bool => if p then 1 else 2).Run oneRefused s ∧
    s.shared .a = some true ∧ s.shared .b = some true ∧ s.shared .a ≠ some false ∧
    ∃ act s', (deadlockDemo fun p : Bool => if p then 1 else 2).step s (false, act) s' := by
  obtain ⟨s, hrun, htrue, hfalse⟩ := run_oneRefused
  obtain ⟨-, -, -, hboth, hnone, henabled, -⟩ := deadlock_demo_exclusion _ _ _ hrun
  exact ⟨s, hrun, (hboth true htrue).1, (hboth true htrue).2, hnone false .a (.inr ⟨0, hfalse⟩),
    henabled false (by rw [hfalse]; rfl)⟩

/-- **Every schedule ends.** Any number of processes make at most 44 steps each, however they are scheduled and
whoever is refused a mutex, and as long as one of them has not finished some process can make a step. -/
theorem deadlock_demo_terminates {P : Type u} [DecidableEq P] [Fintype P] (pid : P → Int) (tr : List (P × Act))
    (s : Threads P (Resource → Option P) Pc) (h : (deadlockDemo pid).Run tr s) :
    tr.length ≤ Fintype.card P * 44 ∧
      ((∀ e s', ¬(deadlockDemo pid).step s e s') → ∀ p, (s.pc p).finished = true) := by
  refine ⟨?_, fun hstuck p => ?_⟩
  · have hbound : ∀ p, (System.labelsOf p tr).length ≤ 44 := fun p =>
      Nat.le_of_add_right_le (deadlock_demo_bounded h p)
    calc tr.length = Finset.univ.sum fun p => (System.labelsOf p tr).length := (System.sum_length_labelsOf tr).symm
      _ ≤ Finset.univ.sum fun _ : P => 44 := Finset.sum_le_sum fun p _ => hbound p
      _ = Fintype.card P * 44 := Finset.sum_const_nat fun _ _ => rfl
  · by_contra hp
    obtain ⟨act, g', l', hstep⟩ := readStep_enabled pid (fun m => (run_owned h).owner_iff m p)
      (Bool.eq_false_iff.mpr hp)
    exact hstuck (p, act) _ ⟨g', l', hstep, rfl⟩

/-- One process is refused while the other holds both mutexes, and the system is not stuck. -/
theorem deadlock_demo_terminates_oneRefused : ∃ s, (deadlockDemo fun p : Bool => if p then 1 else 2).Run oneRefused s ∧
    s.pc false = .sleeping 0 ∧ ∃ e s', (deadlockDemo fun p : Bool => if p then 1 else 2).step s e s' := by
  obtain ⟨s, hrun, -, hfalse⟩ := run_oneRefused
  refine ⟨s, hrun, hfalse, ?_⟩
  by_contra hstuck
  have hdone := (deadlock_demo_terminates _ _ _ hrun).2 (fun e s' hstep => hstuck ⟨e, s', hstep⟩) false
  rw [hfalse] at hdone
  cases hdone

end KernelModules.Locks
