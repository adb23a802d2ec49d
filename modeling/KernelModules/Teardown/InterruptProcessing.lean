import KernelModules.Lib.Deferred

/-!
# Top halves and bottom halves

In `interrupt_processing.c` a timer calls the top half, which counts, schedules the work item of the bottom half and
measures itself, and then arms the timer again. The bottom half counts, sleeps and measures itself. A work item that is
scheduled while it is pending runs once. The file in `/proc` prints the counts, the times, and one time divided by the
other.

- `demo_halves`: there are never more bottom halves than top halves, and once `demo_exit` has returned nothing is
  pending or running and no top half is left without a bottom half after it;
- `demo_ratio`: the division traps only if a top half was measured to take no time at all.
-/

namespace KernelModules.Teardown.InterruptProcessing

open Lib

universe u

/-! ## The code -/

inductive Component
  | irqSimulator
  | bottomHalfWork
  /-- The read handler of `/proc/top_bottom_demo`. -/
  | procShow
deriving DecidableEq, Repr

instance : Fintype Component where
  elems := {.irqSimulator, .bottomHalfWork, .procShow}
  complete c := by cases c <;> decide

/-- The statements of `demo_init` that start something, and those of `demo_exit`. -/
inductive Stmt
  | modTimer
  | procCreate (ok : Bool)
  | delTimerSync
  | flushWork
  | procRemove
deriving DecidableEq, Repr

/-- The counts and times of the module, in nanoseconds, and the clock that `ktime_get` reads. -/
structure Data where
  topCount : Int32
  bottomCount : Int32
  topHalfTime : Int
  bottomHalfTime : Int
  clock : Int

inductive Place
  /-- `demo_top_half`, at its first `ktime_get`. -/
  | topStart
  /-- At `++top_count`. -/
  | topCount (start : Int)
  /-- At `schedule_work`. -/
  | schedule (start : Int)
  /-- At its second `ktime_get`. -/
  | topEnd (start : Int)
  /-- `irq_simulator_callback`, at `mod_timer`. -/
  | rearm
  /-- `demo_bottom_half`, at its first `ktime_get`. -/
  | bottomStart
  /-- At `++bottom_count`. -/
  | bottomCount (start : Int)
  /-- In `msleep`. -/
  | sleep (start : Int)
  /-- At its second `ktime_get`. -/
  | bottomEnd (start : Int)
  /-- `demo_proc_show`, at the line of the top half. -/
  | showTop
  /-- At the line of the bottom half. -/
  | showBottom
  /-- At the test of `top_half_time`. -/
  | showTest
  /-- At the division. -/
  | divide

inductive Act
  | clock (now : Int)
  | topCount
  | schedule
  | topEnd (elapsed : Int)
  | rearm
  | bottomCount
  | wake
  | bottomEnd (elapsed : Int)
  | line (count : Int32) (time : Int)
  | nonzero
  | ratio (q : Int)
  /-- A division by zero. -/
  | trap
deriving DecidableEq

/-- One action of a handler. The clock does not go back. -/
inductive Action : Component → (Component → Bool) → Data → Place → Act → Data → Option Component → Option Place → Prop
  | topStart {armed : Component → Bool} {d : Data} {now : Int} : d.clock ≤ now →
      Action .irqSimulator armed d .topStart (.clock now) { d with clock := now } none (some (.topCount now))
  | topCount {armed : Component → Bool} {d : Data} {start : Int} :
      Action .irqSimulator armed d (.topCount start) .topCount { d with topCount := d.topCount + 1 } none
        (some (.schedule start))
  | schedule {armed : Component → Bool} {d : Data} {start : Int} :
      Action .irqSimulator armed d (.schedule start) .schedule d (some .bottomHalfWork) (some (.topEnd start))
  | topEnd {armed : Component → Bool} {d : Data} {start now : Int} : d.clock ≤ now →
      Action .irqSimulator armed d (.topEnd start) (.topEnd (now - start))
        { d with topHalfTime := now - start, clock := now } none (some .rearm)
  | rearm {armed : Component → Bool} {d : Data} :
      Action .irqSimulator armed d .rearm .rearm d (some .irqSimulator) none
  | bottomStart {armed : Component → Bool} {d : Data} {now : Int} : d.clock ≤ now →
      Action .bottomHalfWork armed d .bottomStart (.clock now) { d with clock := now } none (some (.bottomCount now))
  | bottomCount {armed : Component → Bool} {d : Data} {start : Int} :
      Action .bottomHalfWork armed d (.bottomCount start) .bottomCount { d with bottomCount := d.bottomCount + 1 } none
        (some (.sleep start))
  | sleep {armed : Component → Bool} {d : Data} {start : Int} :
      Action .bottomHalfWork armed d (.sleep start) .wake d none (some (.bottomEnd start))
  | bottomEnd {armed : Component → Bool} {d : Data} {start now : Int} : d.clock ≤ now →
      Action .bottomHalfWork armed d (.bottomEnd start) (.bottomEnd (now - start))
        { d with bottomHalfTime := now - start, clock := now } none none
  | showTop {armed : Component → Bool} {d : Data} :
      Action .procShow armed d .showTop (.line d.topCount d.topHalfTime) d none (some .showBottom)
  | showBottom {armed : Component → Bool} {d : Data} :
      Action .procShow armed d .showBottom (.line d.bottomCount d.bottomHalfTime) d none (some .showTest)
  | zero {armed : Component → Bool} {d : Data} : d.topHalfTime = 0 →
      Action .procShow armed d .showTest (.ratio 0) d none none
  | nonzero {armed : Component → Bool} {d : Data} : d.topHalfTime ≠ 0 →
      Action .procShow armed d .showTest .nonzero d none (some .divide)
  -- the time is read once more
  | ratio {armed : Component → Bool} {d : Data} : d.topHalfTime ≠ 0 →
      Action .procShow armed d .divide (.ratio (d.bottomHalfTime.tdiv d.topHalfTime)) d none none
  | trap {armed : Component → Bool} {d : Data} : d.topHalfTime = 0 → Action .procShow armed d .divide .trap d none none

def workload : Workload Component Stmt Place Act Data where
  arms
    | .modTimer, .irqSimulator => true
    | .procCreate ok, .procShow => ok
    | _, _ => false
  closes
    | .delTimerSync, .irqSimulator => true
    | .flushWork, .bottomHalfWork => true
    | .procRemove, .procShow => true
    | _, _ => false
  -- `flush_work` waits until the work item has run
  cancels
    | .delTimerSync => true
    | .procRemove => true
    | _ => false
  keeps
    | .procShow => true
    | _ => false
  serial
    | .procShow => false
    | _ => true
  start
    | .irqSimulator, l => l = .topStart
    | .bottomHalfWork, l => l = .bottomStart
    | .procShow, l => l = .showTop
  act := Action

/-- `demo_init`, which does not look whether the file could be made, then `demo_exit`. -/
def program (ok : Bool) : List Stmt := [.modTimer, .procCreate ok, .delTimerSync, .flushWork, .procRemove]

/-- Loading, any interrupts, bottom halves and reads in any contexts, and unloading. -/
def interruptProcessing (I : Type u) [DecidableEq I] (clock : Int) :
    System (Work I Component Stmt Place Data) (WorkEvent I Component Stmt Place Act) :=
  workload.system ⟨0, 0, 0, 0, clock⟩ fun ks => ∃ ok, ks = program ok

/-! ## Unloading -/

/-- What the timer arms. -/
def sources : Component → Component → Bool
  | .irqSimulator, .irqSimulator => true
  | .irqSimulator, .bottomHalfWork => true
  | _, _ => false

theorem action_sources {c c' : Component} {armed : Component → Bool} {d d' : Data} {l : Place} {a : Act}
    {l' : Option Place} (h : workload.act c armed d l a d' (some c') l') : false = true ∨ sources c c' = true := by
  cases h with
  | schedule => exact .inr rfl
  | rearm => exact .inr rfl

theorem program_ordered : ∀ ks, (∃ ok, ks = program ok) → workload.Ordered sources (fun _ => false) ks := by
  rintro ks ⟨ok, rfl⟩
  cases ok with
  | true => decide
  | false => decide

section Runs

variable {I : Type u} [DecidableEq I] {clock : Int} {tr : List (WorkEvent I Component Stmt Place Act)}
  {s s' : Work I Component Stmt Place Data} {e : WorkEvent I Component Stmt Place Act}

/-- The program closes every component. -/
theorem run_idle (h : (interruptProcessing I clock).Run tr s) (hend : s.todo = []) (c : Component) : s.Idle c := by
  have hclosed : ∀ k c, (∀ ok, k ∈ program ok) → workload.closes k c = true → s.Idle c := fun k c hk hc => by
    refine Workload.run_finished program_ordered action_sources ?_ hc (Workload.run_restrict h) hend
    rintro ks ⟨ok, rfl⟩
    exact hk ok
  cases c with
  | irqSimulator => exact hclosed .delTimerSync _ (by decide) rfl
  | bottomHalfWork => exact hclosed .flushWork _ (by decide) rfl
  | procShow => exact hclosed .procRemove _ (by decide) rfl

/-! ## The halves of a run -/

/-- A top half is counted. -/
def isTop : WorkEvent I Component Stmt Place Act → Bool
  | .act _ _ .topCount _ => true
  | _ => false

/-- A bottom half is counted. -/
def isBottom : WorkEvent I Component Stmt Place Act → Bool
  | .act _ _ .bottomCount _ => true
  | _ => false

theorem run_counts (h : (interruptProcessing I clock).Run tr s) :
    s.data.topCount = Int32.ofNat (tr.countP isTop) ∧ s.data.bottomCount = Int32.ofNat (tr.countP isBottom) := by
  refine System.Run.history (P := fun tr s => s.data.topCount = Int32.ofNat (tr.countP isTop) ∧
    s.data.bottomCount = Int32.ofNat (tr.countP isBottom)) ?_ ?_ h
  · rintro s ⟨hdata, -⟩
    rw [hdata]
    exact ⟨rfl, rfl⟩
  · intro tr s e s' _ ih hstep
    rw [System.countP_snoc, System.countP_snoc]
    cases hstep with
    | control => exact ih
    | start => exact ih
    | act hactive hact =>
      cases hact with
      | topCount => exact ⟨by rw [ih.1]; exact (Int32.ofNat_add _ 1).symm, ih.2⟩
      | bottomCount => exact ⟨ih.1, by rw [ih.2]; exact (Int32.ofNat_add _ 1).symm⟩
      | _ => exact ih

/-- A top half has counted and not yet scheduled the work item. -/
def Scheduling (s : Work I Component Stmt Place Data) : Prop := s.At .irqSimulator fun l => ∃ start, l = .schedule start

/-- A bottom half has been started and not yet counted. -/
def Counting (s : Work I Component Stmt Place Data) : Prop :=
  s.At .bottomHalfWork fun l => l = .bottomStart ∨ ∃ start, l = .bottomCount start

/-- The work item is pending. -/
def Pending (s : Work I Component Stmt Place Data) : Prop := s.armed .bottomHalfWork = true

/-- What a step does to an interrupt on its way to its bottom half: it comes in, goes from one stage to the next, or is
served. -/
inductive Move (s s' : Work I Component Stmt Place Data) : Bool → Bool → Prop
  | other : (Scheduling s' ↔ Scheduling s) → (Pending s' ↔ Pending s) → (Counting s' ↔ Counting s) →
    Move s s' false false
  | top : Scheduling s' → (Pending s' ↔ Pending s) → (Counting s' ↔ Counting s) → Move s s' true false
  | scheduled : Scheduling s → ¬Scheduling s' → Pending s' → (Counting s' ↔ Counting s) → Move s s' false false
  | started : (Scheduling s' ↔ Scheduling s) → Pending s → ¬Pending s' → ¬Counting s → Counting s' →
    Move s s' false false
  | bottom : (Scheduling s' ↔ Scheduling s) → (Pending s' ↔ Pending s) → Counting s → ¬Counting s' →
    Move s s' false true

omit [DecidableEq I] in
theorem move_control {k : Stmt} {ks : List Stmt}
    (hclose : ∀ c, workload.closes k c = true → s.Resting c ∧ (workload.cancels k = true ∨ s.armed c = false)) :
    Move s { s with armed := workload.armedAfter k s.armed, done := s.done ++ [k], todo := ks } false false := by
  refine .other Iff.rfl ?_ Iff.rfl
  cases k with
  | flushWork =>
    -- the work item is not pending when it returns
    have hnot : s.armed .bottomHalfWork = false := (hclose .bottomHalfWork rfl).2.resolve_left (by decide)
    rw [Pending, Pending, hnot]
    exact Iff.rfl
  | _ => exact Iff.rfl

theorem move_start {i : I} {c : Component} {l : Place} (hstep : workload.Step s (.start i c l) s') :
    Move s s' false false := by
  have hirq : Scheduling s' ↔ _ := Workload.at_start rfl hstep
  have hwork : Counting s' ↔ _ := Workload.at_start rfl hstep
  cases hstep with
  | start hfree harmed hstart hrest =>
    cases c with
    | irqSimulator =>
      cases hstart
      have hnot := Workload.not_at_of_resting (p := fun l => ∃ start, l = .schedule start) (hrest rfl)
      exact .other (iff_of_false (fun h => by simpa using hirq.mp h) hnot) Iff.rfl hwork
    | bottomHalfWork =>
      cases hstart
      exact .started hirq harmed (by simp [Pending, workload]) (Workload.not_at_of_resting (hrest rfl))
        (hwork.mpr (by simp))
    | procShow => exact .other hirq Iff.rfl hwork

theorem move_act (hrun : (interruptProcessing I clock).Run tr s) {i : I} {c : Component} {a : Act}
    {c' : Option Component}
    (hstep : workload.Step s (.act i c a c') s') :
    Move s s' (isTop (.act i c a c' : WorkEvent I Component Stmt Place Act))
      (isBottom (.act i c a c' : WorkEvent I Component Stmt Place Act)) := by
  cases hstep with
  | @act i c l a d c' l' hactive hact =>
    have hirq := Workload.at_act (c := .irqSimulator) (p := fun l => ∃ start, l = .schedule start) (d := d) (b := c')
      (n := l') rfl hrun hactive
    have hwork := Workload.at_act (c := .bottomHalfWork)
      (p := fun l => l = .bottomStart ∨ ∃ start, l = .bottomCount start)
      (d := d) (b := c') (n := l') rfl hrun hactive
    have hat : ∀ {c : Component} {p : Place → Prop}, workload.serial c = true → s.active i = some (c, l) →
        (s.At c p ↔ p l) := fun hserial hactive => Workload.at_iff hserial hrun hactive
    cases hact with
    | topStart =>
      exact .other (hirq.trans ((iff_of_false (by simp) (by simp)).trans (hat rfl hactive).symm)) Iff.rfl hwork
    | topCount => exact .top (hirq.mpr (by simp)) Iff.rfl hwork
    | schedule => exact .scheduled ((hat rfl hactive).mpr ⟨_, rfl⟩) (mt hirq.mp (by simp)) rfl hwork
    | topEnd =>
      exact .other (hirq.trans ((iff_of_false (by simp) (by simp)).trans (hat rfl hactive).symm)) Iff.rfl hwork
    | rearm =>
      exact .other (hirq.trans ((iff_of_false (by simp) (by simp)).trans (hat rfl hactive).symm)) Iff.rfl hwork
    | bottomStart =>
      exact .other hirq Iff.rfl (hwork.trans ((iff_of_true (by simp) (by simp)).trans (hat rfl hactive).symm))
    | bottomCount => exact .bottom hirq Iff.rfl ((hat rfl hactive).mpr (.inr ⟨_, rfl⟩)) (mt hwork.mp (by simp))
    | sleep =>
      exact .other hirq Iff.rfl (hwork.trans ((iff_of_false (by simp) (by simp)).trans (hat rfl hactive).symm))
    | bottomEnd =>
      exact .other hirq Iff.rfl (hwork.trans ((iff_of_false (by simp) (by simp)).trans (hat rfl hactive).symm))
    | _ => exact .other hirq Iff.rfl hwork

theorem step_move (hrun : (interruptProcessing I clock).Run tr s) (hstep : workload.Step s e s') :
    Move s s' (isTop e) (isBottom e) := by
  cases e with
  | control k =>
    cases hstep with
    | control _ hclose => exact move_control hclose
  | start i c l => exact move_start hstep
  | act i c a c' => exact move_act hrun hstep

open Classical in
/-- One if it holds. -/
noncomputable def flag (p : Prop) : Nat := if p then 1 else 0

theorem flag_of {p : Prop} (h : p) : flag p = 1 := if_pos h

theorem flag_of_not {p : Prop} (h : ¬p) : flag p = 0 := if_neg h

/-- The interrupts on their way to their bottom half. -/
noncomputable def owed (s : Work I Component Stmt Place Data) : Nat :=
  flag (Scheduling s) + flag (Pending s) + flag (Counting s)

omit [DecidableEq I] in
theorem owed_eq_zero (ha : ¬Scheduling s) (hb : ¬Pending s) (hc : ¬Counting s) : owed s = 0 := by
  rw [owed, flag_of_not ha, flag_of_not hb, flag_of_not hc]

omit [DecidableEq I] in
/-- Interrupts do not multiply on their way. -/
theorem Move.owed_le {top bottom : Bool} (h : Move s s' top bottom) : bottom.toNat + owed s' ≤ top.toNat + owed s := by
  rw [owed, owed]
  cases h with
  | other ha hb hc => rw [propext ha, propext hb, propext hc]
  | top ha hb hc =>
    rw [flag_of ha, propext hb, propext hc, Bool.toNat_true, Bool.toNat_false]
    omega
  | scheduled ha ha' hb' hc =>
    rw [flag_of ha, flag_of_not ha', flag_of hb', propext hc]
    omega
  | started ha hb hb' hc hc' => rw [propext ha, flag_of hb, flag_of_not hb', flag_of_not hc, flag_of hc']
  | bottom ha hb hc hc' =>
    rw [propext ha, propext hb, flag_of hc, flag_of_not hc', Bool.toNat_true, Bool.toNat_false]
    omega

omit [DecidableEq I] in
/-- An interrupt that is on its way stays so until it is served, and one that comes in is on its way. -/
theorem Move.owed_zero {top bottom : Bool} (h : Move s s' top bottom) (h0 : owed s' = 0) :
    top = false ∧ (bottom = true ∨ owed s = 0) := by
  rw [owed] at h0
  cases h with
  | other ha hb hc =>
    rw [propext ha, propext hb, propext hc] at h0
    exact ⟨rfl, .inr h0⟩
  | top ha =>
    rw [flag_of ha] at h0
    omega
  | scheduled _ _ hb' =>
    rw [flag_of hb'] at h0
    omega
  | started _ _ _ _ hc' =>
    rw [flag_of hc'] at h0
    omega
  | bottom => exact ⟨rfl, .inl rfl⟩

/-- Every interrupt was served or is on its way, and none is served twice. -/
theorem run_owed (h : (interruptProcessing I clock).Run tr s) :
    tr.countP isBottom + owed s ≤ tr.countP isTop ∧ (owed s = 0 → System.FollowedBy isTop isBottom tr) := by
  refine System.Run.history (P := fun tr s => tr.countP isBottom + owed s ≤ tr.countP isTop ∧
    (owed s = 0 → System.FollowedBy isTop isBottom tr)) ?_ ?_ h
  · rintro s ⟨-, harmed, hactive, -⟩
    have hnot : ∀ c p, ¬s.At c p := fun c p ⟨i, l, hi, _⟩ => by
      rw [hactive i] at hi
      cases hi
    have h0 : owed s = 0 := owed_eq_zero (hnot _ _) (by simp [Pending, harmed]) (hnot _ _)
    exact ⟨by simp [h0], fun _ => System.followedBy_nil _ _⟩
  · intro tr s e s' hrun ih hstep
    have hmove := step_move hrun hstep
    refine ⟨?_, fun h0 => ?_⟩
    · have hle := hmove.owed_le
      rw [System.countP_snoc, System.countP_snoc]
      omega
    · obtain ⟨htop, hbottom⟩ := hmove.owed_zero h0
      exact (System.followedBy_snoc _ _ _ _).mpr ⟨htop, hbottom.imp_right ih.2⟩

end Runs

/-- **Top halves and bottom halves.** `top_count` and `bottom_count` are the numbers of top and bottom halves, as
`int`s, and there are never more bottom halves. Once `demo_exit` has returned, the timer, the work item and the file
are neither pending nor running, and every top half has a bottom half after it. -/
theorem demo_halves {I : Type u} [DecidableEq I] {clock : Int} (tr : List (WorkEvent I Component Stmt Place Act))
    (s : Work I Component Stmt Place Data) (h : (interruptProcessing I clock).Run tr s) :
    s.data.topCount = Int32.ofNat (tr.countP isTop) ∧ s.data.bottomCount = Int32.ofNat (tr.countP isBottom) ∧
      tr.countP isBottom ≤ tr.countP isTop ∧
      (s.todo = [] → (∀ c, s.Idle c) ∧ System.FollowedBy isTop isBottom tr) := by
  obtain ⟨htop, hbottom⟩ := run_counts h
  obtain ⟨hle, hserved⟩ := run_owed h
  refine ⟨htop, hbottom, by omega, fun hend => ⟨run_idle h hend, hserved ?_⟩⟩
  have hirq := run_idle h hend .irqSimulator
  have hwork := run_idle h hend .bottomHalfWork
  exact owed_eq_zero (Workload.not_at_of_resting hirq.2) (by simp [Pending, hwork.1])
    (Workload.not_at_of_resting hwork.2)

/-- No handler runs and the program is at its start. -/
def loaded : Work Unit Component Stmt Place Data := ⟨⟨0, 0, 0, 0, 0⟩, fun _ => false, fun _ => none, [], program true⟩

/-- One interrupt, whose bottom half runs before the module is unloaded. -/
def oneInterrupt : List (WorkEvent Unit Component Stmt Place Act) :=
  [.control .modTimer, .control (.procCreate true), .start () .irqSimulator .topStart,
    .act () .irqSimulator (.clock 1) none, .act () .irqSimulator .topCount none,
    .act () .irqSimulator .schedule (some .bottomHalfWork), .act () .irqSimulator (.topEnd 2) none,
    .act () .irqSimulator .rearm (some .irqSimulator), .control .delTimerSync, .start () .bottomHalfWork .bottomStart,
    .act () .bottomHalfWork (.clock 3) none, .act () .bottomHalfWork .bottomCount none,
    .act () .bottomHalfWork .wake none,
    .act () .bottomHalfWork (.bottomEnd 10) none, .control .flushWork, .control .procRemove]

theorem demo_halves_oneInterrupt : ∃ s, (interruptProcessing Unit 0).Run oneInterrupt s ∧ s.todo = [] ∧
    s.data.topCount = 1 ∧ s.data.bottomCount = 1 ∧ System.FollowedBy isTop isBottom oneInterrupt := by
  have hrun : (interruptProcessing Unit 0).Run oneInterrupt _ :=
    ⟨loaded, ⟨rfl, fun _ => rfl, fun _ => rfl, rfl, true, rfl⟩,
      .cons (.quiet rfl (fun _ => rfl) (.inr (by decide))) <| .cons (.quiet rfl (fun _ => rfl) (.inr (by decide))) <|
      .cons (.start rfl rfl rfl fun _ _ _ h => by cases h) <| .cons (.act rfl (.topStart (by decide))) <|
      .cons (.act rfl .topCount) <| .cons (.act rfl .schedule) <|
      .cons (.act rfl (@Action.topEnd _ _ 1 3 (by decide))) <|
      .cons (.act rfl .rearm) <| .cons (.quiet rfl (fun _ => rfl) (.inl rfl)) <|
      .cons (.start rfl rfl rfl fun _ _ _ h => by cases h) <| .cons (.act rfl (.bottomStart (by decide))) <|
      .cons (.act rfl .bottomCount) <| .cons (.act rfl .sleep) <|
      .cons (.act rfl (@Action.bottomEnd _ _ 3 13 (by decide))) <|
      .cons (.quiet rfl (fun _ => rfl) (.inr (by decide))) <| .cons (.quiet rfl (fun _ => rfl) (.inl rfl)) <| .nil _⟩
  obtain ⟨htop, hbottom, -, hexit⟩ := demo_halves _ _ hrun
  exact ⟨_, hrun, rfl, htop, hbottom, (hexit rfl).2⟩

/-! ## The ratio -/

section Ratio

variable {I : Type u} [DecidableEq I] {clock : Int} {tr : List (WorkEvent I Component Stmt Place Act)}
  {s s' : Work I Component Stmt Place Data} {e : WorkEvent I Component Stmt Place Act}

/-- A top half is measured to take no time. -/
def isInstant : WorkEvent I Component Stmt Place Act → Bool
  | .act _ _ (.topEnd elapsed) _ => elapsed = 0
  | _ => false

/-- The division traps, or what is printed is negative. -/
def isWrong : WorkEvent I Component Stmt Place Act → Bool
  | .act _ _ .trap _ => true
  | .act _ _ (.ratio q) _ => q < 0
  | _ => false

/-- When a half that is at this place was started. -/
def startOf : Place → Option Int
  | .topCount start => some start
  | .schedule start => some start
  | .topEnd start => some start
  | .bottomCount start => some start
  | .sleep start => some start
  | .bottomEnd start => some start
  | _ => none

/-- The times are not negative, and every half was started before now. -/
structure Timed (s : Work I Component Stmt Place Data) : Prop where
  top : 0 ≤ s.data.topHalfTime
  bottom : 0 ≤ s.data.bottomHalfTime
  started : ∀ i c l start, s.active i = some (c, l) → startOf l = some start → start ≤ s.data.clock

/-- The clock does not go back, and a half goes on with the time at which it was started. -/
theorem Timed.act {i : I} {c : Component} {l : Place} {a : Act} {d : Data} {c' : Option Component} {l' : Option Place}
    (h : Timed s) (hactive : s.active i = some (c, l)) (hact : Action c s.armed s.data l a d c' l') :
    Timed { s with
      data := d
      armed := Workload.arm s.armed c'
      active := Function.update s.active i (l'.map fun l => (c, l)) } := by
  have hclock : s.data.clock ≤ d.clock := by
    cases hact with
    | topStart hle => exact hle
    | topEnd hle => exact hle
    | bottomStart hle => exact hle
    | bottomEnd hle => exact hle
    | _ => exact le_rfl
  have hstart : ∀ l₁ start, l' = some l₁ → startOf l₁ = some start → start = d.clock ∨ startOf l = some start := by
    intro l₁ start hl₁ hs
    cases hact <;> cases hl₁ <;> first | cases hs; done | exact .inr hs | (cases hs; exact .inl rfl)
  refine ⟨?_, ?_, fun j c₁ l₁ start hj hl₁ => ?_⟩
  · cases hact with
    | @topEnd _ _ start now hle =>
      have := h.started i _ _ start hactive rfl
      simp only
      omega
    | _ => exact h.top
  · cases hact with
    | @bottomEnd _ _ start now hle =>
      have := h.started i _ _ start hactive rfl
      simp only
      omega
    | _ => exact h.bottom
  · by_cases hji : j = i
    · simp only [hji, Function.update_self] at hj
      obtain ⟨l₂, hl₂, heq⟩ := Option.map_eq_some_iff.mp hj
      cases heq
      rcases hstart l₁ start hl₂ hl₁ with rfl | hl
      · exact le_rfl
      · exact (h.started i c l start hactive hl).trans hclock
    · simp only [Function.update_of_ne hji] at hj
      exact (h.started j c₁ l₁ start hj hl₁).trans hclock

theorem run_timed (h : (interruptProcessing I clock).Run tr s) : Timed s := by
  refine h.invariant (I := Timed) ?_ ?_
  · rintro s ⟨hdata, -, hactive, -⟩
    refine ⟨by rw [hdata], by rw [hdata], fun i c l start hi => ?_⟩
    rw [hactive i] at hi
    cases hi
  · intro s e s' hs hstep
    cases hstep with
    | control => exact ⟨hs.top, hs.bottom, hs.started⟩
    | @start i c l hfree _ hstart _ =>
      refine ⟨hs.top, hs.bottom, fun j c₁ l₁ start hj hl₁ => ?_⟩
      by_cases hji : j = i
      · simp only [hji, Function.update_self] at hj
        cases hj
        cases c <;> cases hstart <;> cases hl₁
      · simp only [Function.update_of_ne hji] at hj
        exact hs.started j c₁ l₁ start hj hl₁
    | act hactive hact => exact hs.act hactive hact

/-- As long as every top half takes some time, whoever is about to divide finds a time. -/
theorem run_divides (h : (interruptProcessing I clock).Run tr s) (hsome : ∀ e ∈ tr, isInstant e = false) :
    (∀ i, s.active i = some (.procShow, .divide) → s.data.topHalfTime ≠ 0) ∧ ∀ e ∈ tr, isWrong e = false := by
  revert hsome
  refine System.Run.history (P := fun tr s => (∀ e ∈ tr, isInstant e = false) →
    (∀ i, s.active i = some (.procShow, .divide) → s.data.topHalfTime ≠ 0) ∧ ∀ e ∈ tr, isWrong e = false) ?_ ?_ h
  · rintro s ⟨-, -, hactive, -⟩ -
    refine ⟨fun i hi => ?_, fun e he => by cases he⟩
    rw [hactive i] at hi
    cases hi
  · intro tr s e s' hrun ih hstep hsome
    obtain ⟨hdivide, hwrong⟩ := ih fun e he => hsome e (List.mem_append_left _ he)
    have hlast := hsome e (List.mem_append_right _ (List.mem_singleton.mpr rfl))
    have htimed := run_timed hrun
    refine ⟨?_, List.forall_mem_append.mpr ⟨hwrong, List.forall_mem_singleton.mpr ?_⟩⟩
    · cases hstep with
      | control => exact hdivide
      | @start i c l _ _ hstart _ =>
        intro j hj
        by_cases hji : j = i
        · simp only [hji, Function.update_self] at hj
          cases hj
          cases hstart
        · simp only [Function.update_of_ne hji] at hj
          exact hdivide j hj
      | @act i c l a d c' l' hactive hact =>
        intro j hj
        by_cases hji : j = i
        · simp only [hji, Function.update_self] at hj
          cases hact with
          | nonzero hne => exact hne
          | _ => cases hj
        · simp only [Function.update_of_ne hji] at hj
          cases hact with
          | topEnd => simpa [isInstant] using hlast
          | _ => exact hdivide j hj
    · cases hstep with
      | control => rfl
      | start => rfl
      | @act i c l a d c' l' hactive hact =>
        cases hact with
        | zero => rfl
        | ratio => simpa [isWrong] using Int.tdiv_nonneg htimed.bottom htimed.top
        | trap h0 => exact absurd h0 (hdivide i hactive)
        | _ => rfl

end Ratio

/-- **The ratio of the times.** Whatever the contexts do between the test and the division, `demo_proc_show` traps or
prints a negative ratio only if a top half before was measured to take no time at all. -/
theorem demo_ratio {I : Type u} [DecidableEq I] {clock : Int} (tr : List (WorkEvent I Component Stmt Place Act))
    (s : Work I Component Stmt Place Data) (h : (interruptProcessing I clock).Run tr s)
    (hwrong : ∃ e ∈ tr, isWrong e = true) : ∃ e ∈ tr, isInstant e = true := by
  by_contra hnone
  have hsome : ∀ e ∈ tr, isInstant e = false := fun e he => by
    simpa using fun hi => hnone ⟨e, he, hi⟩
  obtain ⟨e, he, hbad⟩ := hwrong
  rw [(run_divides h hsome).2 e he] at hbad
  cases hbad

/-- An interrupt that takes some time, a reader that finds its time, and an interrupt that takes none before the reader
divides. -/
def instantInterrupt : List (WorkEvent Bool Component Stmt Place Act) :=
  [.control .modTimer, .control (.procCreate true), .start false .irqSimulator .topStart,
    .act false .irqSimulator (.clock 1) none, .act false .irqSimulator .topCount none,
    .act false .irqSimulator .schedule (some .bottomHalfWork), .act false .irqSimulator (.topEnd 2) none,
    .act false .irqSimulator .rearm (some .irqSimulator), .start true .procShow .showTop,
    .act true .procShow (.line 1 2) none, .act true .procShow (.line 0 0) none, .act true .procShow .nonzero none,
    .start false .irqSimulator .topStart, .act false .irqSimulator (.clock 3) none,
    .act false .irqSimulator .topCount none, .act false .irqSimulator .schedule (some .bottomHalfWork),
    .act false .irqSimulator (.topEnd 0) none, .act true .procShow .trap none]

theorem demo_ratio_instantInterrupt : ∃ s, (interruptProcessing Bool 0).Run instantInterrupt s ∧
    (∃ e ∈ instantInterrupt, isWrong e = true) ∧ ∃ e ∈ instantInterrupt, isInstant e = true := by
  have hrun : (interruptProcessing Bool 0).Run instantInterrupt _ :=
    ⟨⟨⟨0, 0, 0, 0, 0⟩, fun _ => false, fun _ => none, [], program true⟩,
      ⟨rfl, fun _ => rfl, fun _ => rfl, rfl, true, rfl⟩,
      .cons (.quiet rfl (fun _ => rfl) (.inr (by decide))) <| .cons (.quiet rfl (fun _ => rfl) (.inr (by decide))) <|
      .cons (.start rfl rfl rfl fun _ _ _ h => by cases h) <| .cons (.act rfl (.topStart (by decide))) <|
      .cons (.act rfl .topCount) <| .cons (.act rfl .schedule) <|
      .cons (.act rfl (@Action.topEnd _ _ 1 3 (by decide))) <|
      .cons (.act rfl .rearm) <| .cons (.start rfl rfl rfl fun h => by cases h) <| .cons (.act rfl .showTop) <|
      .cons (.act rfl .showBottom) <| .cons (.act rfl (.nonzero (by decide))) <|
      .cons (.start rfl rfl rfl fun _ i _ h => by cases i <;> cases h) <| .cons (.act rfl (.topStart (by decide))) <|
      .cons (.act rfl .topCount) <| .cons (.act rfl .schedule) <|
      .cons (.act rfl (@Action.topEnd _ _ 3 3 (by decide))) <|
      .cons (.act rfl (.trap rfl)) <| .nil _⟩
  have hwrong : ∃ e ∈ instantInterrupt, isWrong e = true :=
    ⟨.act true .procShow .trap none, by simp [instantInterrupt], rfl⟩
  exact ⟨_, hrun, hwrong, demo_ratio _ _ hrun hwrong⟩

end KernelModules.Teardown.InterruptProcessing
