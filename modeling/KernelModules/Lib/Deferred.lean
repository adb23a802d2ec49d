import Mathlib.Data.Fintype.Basic
import KernelModules.Lib.Runs

/-!
# Deferred work and its teardown

A module has components that run later: timers, tasklets, work items, the handlers of a file. A component is armed, then
an execution context starts it, and while it runs it may arm others or itself. A control thread executes the statements
of a program: some arm components, some return only when certain components are idle and have closed them then.

- `Workload` describes the components and the statements, `Workload.Step` is one step of a context or of the control
  thread;
- a step is late if it arms a component that is closed already. Without late steps every closed component is idle
  (`Workload.step_settled`);
- `Workload.Ordered` is a condition on the program alone: everything that can arm a component is closed with it or
  before it. The steps of a run are then never late, up to those of the loose components, for which it has to be
  assumed (`Workload.run_inOrder`, `Workload.run_finished`);
- a component that the program leaves alone is idle exactly if every time it was armed it was started later, and every
  execution has come to its end (`Workload.run_armed_iff`, `Workload.run_resting_iff`);
- a component that does not run twice at once is at one place at most, and only its own steps move it there
  (`Work.At`, `Workload.at_start`, `Workload.at_act`).
-/

namespace KernelModules.Lib

universe u v w x y z

/-- Components `C` with places `L` and actions `A`, statements `K` of the control thread, shared data `D`. -/
structure Workload (C : Type u) (K : Type v) (L : Type w) (A : Type x) (D : Type y) where
  /-- The statement arms the component. -/
  arms : K → C → Bool
  /-- The statement returns only when the component is idle. -/
  closes : K → C → Bool
  /-- It makes the component idle by disarming it; otherwise it waits until the component has been started. -/
  cancels : K → Bool
  /-- The component stays armed when it is started, as the handler of an open file does. -/
  keeps : C → Bool
  /-- The component does not run in two contexts at once. -/
  serial : C → Bool
  start : C → L → Prop
  /-- One action of a running component: the data, what it arms, and where it goes on, if it does. -/
  act : C → (C → Bool) → D → L → A → D → Option C → Option L → Prop

/-- The components armed, what each context runs, and the program of the control thread. -/
structure Work (I : Type z) (C : Type u) (K : Type v) (L : Type w) (D : Type y) where
  data : D
  armed : C → Bool
  active : I → Option (C × L)
  done : List K
  todo : List K

inductive WorkEvent (I : Type z) (C : Type u) (K : Type v) (L : Type w) (A : Type x)
  | control (k : K)
  | start (i : I) (c : C) (l : L)
  | act (i : I) (c : C) (a : A) (armed : Option C)

variable {I : Type z} {C : Type u} {K : Type v} {L : Type w} {A : Type x} {D : Type y}

/-- No context runs the component. -/
def Work.Resting (s : Work I C K L D) (c : C) : Prop := ∀ i l, s.active i ≠ some (c, l)

/-- Neither armed nor running. -/
def Work.Idle (s : Work I C K L D) (c : C) : Prop := s.armed c = false ∧ s.Resting c

/-- Some context runs the component and is at one of the given places. -/
def Work.At (s : Work I C K L D) (c : C) (p : L → Prop) : Prop := ∃ i l, s.active i = some (c, l) ∧ p l

/-- A context that goes on with another component leaves this one resting. -/
theorem Work.Resting.update [DecidableEq I] {s : Work I C K L D} {c : C} (h : s.Resting c) {i : I}
    {next : Option (C × L)} (hnext : ∀ l, next ≠ some (c, l)) :
    ∀ j l, Function.update s.active i next j ≠ some (c, l) := by
  intro j l
  by_cases hj : j = i
  · rw [hj, Function.update_self]
    exact hnext l
  · rw [Function.update_of_ne hj]
    exact h j l

/-- A context that runs another component before and after does not matter. -/
theorem resting_update_iff [DecidableEq I] {active : I → Option (C × L)} {c : C} {i : I} {next : Option (C × L)}
    (hbefore : ∀ l, active i ≠ some (c, l)) (hnext : ∀ l, next ≠ some (c, l)) :
    (∀ j l, Function.update active i next j ≠ some (c, l)) ↔ ∀ j l, active j ≠ some (c, l) := by
  constructor
  · intro h j l hj
    have hji : j ≠ i := fun hji => hbefore l (hji ▸ hj)
    exact h j l (by rw [Function.update_of_ne hji]; exact hj)
  · intro h j l hj
    by_cases hji : j = i
    · rw [hji, Function.update_self] at hj
      exact hnext l hj
    · rw [Function.update_of_ne hji] at hj
      exact h j l hj

/-- What a context runs after a step in which it started nothing, it ran before. -/
theorem running_before [DecidableEq I] {active : I → Option (C × L)} {c : C} {i j : I} {next : Option (C × L)} {l : L}
    (hnext : ∀ l, next = some (c, l) → ∃ l', active i = some (c, l'))
    (h : Function.update active i next j = some (c, l)) : ∃ l', active j = some (c, l') := by
  by_cases hji : j = i
  · rw [hji, Function.update_self] at h
    rw [hji]
    exact hnext l h
  · rw [Function.update_of_ne hji] at h
    exact ⟨l, h⟩

namespace Workload

variable (W : Workload C K L A D)

/-- What is armed after a statement. -/
def armedAfter (k : K) (armed : C → Bool) (c : C) : Bool :=
  if W.closes k c then false else if W.arms k c then true else armed c

/-- A statement that was executed closed the component. -/
def closed (s : Work I C K L D) (c : C) : Bool := s.done.any fun k => W.closes k c

/-- The step does not arm a closed component. -/
def InTime (s : Work I C K L D) : WorkEvent I C K L A → Prop
  | .control k => ∀ c, W.arms k c = true → W.closed s c = false
  | .start _ _ _ => True
  | .act _ _ _ none => True
  | .act _ _ _ (some c) => W.closed s c = false

/-- Every closed component is idle. -/
def Settled (s : Work I C K L D) : Prop := ∀ c, W.closed s c = true → s.Idle c

section Closing

variable {W} {s : Work I C K L D} {k : K} {ks : List K}

theorem closed_control :
    W.closed { s with armed := W.armedAfter k s.armed, done := s.done ++ [k], todo := ks } =
      fun c => W.closed s c || W.closes k c := by
  funext c
  simp [closed]

/-- Once a statement was executed, so were those before it. -/
theorem mem_done {k' : K} {pre post : List K} (hprogram : s.done ++ s.todo = pre ++ k :: post) (hk : k ∈ s.done)
    (hpre : k ∉ pre) (hk' : k' ∈ pre) : k' ∈ s.done := by
  rcases List.append_eq_append_iff.mp hprogram with ⟨l, hl, -⟩ | ⟨l, hl, -⟩
  · rw [hl] at hpre
    exact absurd (List.mem_append_left l hk) hpre
  · rw [hl]
    exact List.mem_append_left l hk'

end Closing

variable [DecidableEq C]

def arm (armed : C → Bool) : Option C → C → Bool
  | none => armed
  | some c => Function.update armed c true

theorem arm_of_ne {armed : C → Bool} {c : C} {c' : Option C} (h : c' ≠ some c) : arm armed c' c = armed c := by
  cases c' with
  | none => rfl
  | some c' =>
    have hne : c ≠ c' := fun hc => h (by rw [hc])
    exact Function.update_of_ne hne true armed

variable [DecidableEq I]

/-- One step of the control thread or of one context. -/
inductive Step : Work I C K L D → WorkEvent I C K L A → Work I C K L D → Prop
  | control {s : Work I C K L D} {k : K} {ks : List K} : s.todo = k :: ks →
      (∀ c, W.closes k c = true → s.Resting c ∧ (W.cancels k = true ∨ s.armed c = false)) →
      Step s (.control k) { s with armed := W.armedAfter k s.armed, done := s.done ++ [k], todo := ks }
  | start {s : Work I C K L D} {i : I} {c : C} {l : L} : s.active i = none → s.armed c = true → W.start c l →
      (W.serial c = true → s.Resting c) →
      Step s (.start i c l) { s with
        armed := if W.keeps c then s.armed else Function.update s.armed c false
        active := Function.update s.active i (some (c, l)) }
  | act {s : Work I C K L D} {i : I} {c : C} {l : L} {a : A} {d : D} {c' : Option C} {l' : Option L} :
      s.active i = some (c, l) → W.act c s.armed s.data l a d c' l' →
      Step s (.act i c a c') { s with
        data := d
        armed := arm s.armed c'
        active := Function.update s.active i (l'.map fun l => (c, l)) }

/-- All interleavings, from the data at load time and one of the programs. -/
def system (data : D) (program : List K → Prop) : System (Work I C K L D) (WorkEvent I C K L A) where
  init s := s.data = data ∧ (∀ c, s.armed c = false) ∧ (∀ i, s.active i = none) ∧ s.done = [] ∧ program s.todo
  step := W.Step

/-! ## One step -/

section OneStep

variable {W} {s s' : Work I C K L D} {e : WorkEvent I C K L A}

/-- While no context runs anything, the control thread goes on if it need not wait. -/
theorem Step.quiet {k : K} {ks : List K} (htodo : s.todo = k :: ks) (hrest : ∀ i, s.active i = none)
    (hwait : W.cancels k = true ∨ ∀ c, W.closes k c = true → s.armed c = false) :
    W.Step s (.control k) { s with armed := W.armedAfter k s.armed, done := s.done ++ [k], todo := ks } := by
  refine .control htodo fun c hc => ⟨fun i l h => ?_, hwait.imp id fun h => h c hc⟩
  rw [hrest i] at h
  cases h

/-- **A step in time** keeps every closed component idle. -/
theorem step_settled (hs : W.Settled s) (htime : W.InTime s e) (h : W.Step s e s') : W.Settled s' := by
  cases h with
  | @control k ks htodo hclose =>
    intro c hc
    cases hk : W.closes k c with
    | true => exact ⟨if_pos hk, (hclose c hk).1⟩
    | false =>
      simp only [closed_control, hk, Bool.or_false] at hc
      obtain ⟨harmed, hrest⟩ := hs c hc
      have harms : W.arms k c = false := by
        cases harms : W.arms k c with
        | false => rfl
        | true =>
          rw [htime c harms] at hc
          cases hc
      refine ⟨?_, hrest⟩
      simp only [armedAfter, hk, harms, Bool.false_eq_true, ↓reduceIte]
      exact harmed
  | @start i c₀ l hfree harmed₀ _ _ =>
    intro c hc
    obtain ⟨harmed, hrest⟩ := hs c hc
    have hne : c ≠ c₀ := fun h => by
      rw [h, harmed₀] at harmed
      cases harmed
    refine ⟨?_, hrest.update fun l' h => hne (congrArg Prod.fst (Option.some.inj h)).symm⟩
    cases hkeep : W.keeps c₀ with
    | true => exact harmed
    | false =>
      simp only [Bool.false_eq_true, ↓reduceIte]
      rw [Function.update_of_ne hne]
      exact harmed
  | @act i c₀ l a d c' l' hactive hact =>
    intro c hc
    obtain ⟨harmed, hrest⟩ := hs c hc
    have hne : c ≠ c₀ := fun h => hrest i l (h ▸ hactive)
    refine ⟨?_, hrest.update fun l₁ h => ?_⟩
    · have hnot : c' ≠ some c := fun h => by
        subst h
        have hclosed : W.closed s c = true := hc
        rw [show W.closed s c = false from htime] at hclosed
        cases hclosed
      exact (arm_of_ne hnot).trans harmed
    · obtain ⟨l₂, -, hl₂⟩ := Option.map_eq_some_iff.mp h
      exact hne (congrArg Prod.fst hl₂).symm

end OneStep

/-! ## Programs in order -/

/-- The condition on the steps of the loose components: they arm nothing that is closed. -/
def Timely (loose : C → Bool) (s : Work I C K L D) : WorkEvent I C K L A → Prop
  | .act _ c _ (some c') => loose c = true → W.closed s c' = false
  | _ => True

/-- What can arm a component is closed before it or with it, and no statement arms it later. -/
def Ordered (src : C → C → Bool) : (C → Bool) → List K → Prop
  | _, [] => True
  | closed, k :: ks =>
    (∀ c' c, W.closes k c' = true → src c c' = true → (closed c || W.closes k c) = true) ∧
    (∀ c, W.arms k c = true → closed c = false) ∧ Ordered src (fun c => closed c || W.closes k c) ks

instance decidableOrdered [Fintype C] (src : C → C → Bool) :
    ∀ (closed : C → Bool) (ks : List K), Decidable (W.Ordered src closed ks)
  | _, [] => inferInstanceAs (Decidable True)
  | closed, k :: ks =>
    have := decidableOrdered src (fun c => closed c || W.closes k c) ks
    inferInstanceAs (Decidable ((∀ c' c, W.closes k c' = true → src c c' = true → (closed c || W.closes k c) = true) ∧
      (∀ c, W.arms k c = true → closed c = false) ∧ Ordered W src (fun c => closed c || W.closes k c) ks))

section Ordered

variable {W} {src : C → C → Bool} {loose : C → Bool} {s s' : Work I C K L D} {e : WorkEvent I C K L A}

/-- The sources of closed components are closed, and the rest of the program is in order. -/
structure InOrder (W : Workload C K L A D) (src : C → C → Bool) (s : Work I C K L D) : Prop where
  settled : W.Settled s
  sources : ∀ c' c, W.closed s c' = true → src c c' = true → W.closed s c = true
  todo : W.Ordered src (W.closed s) s.todo

/-- A running component is not closed, so neither is what it can arm. -/
theorem InOrder.inTime (h : W.InOrder src s)
    (hsrc : ∀ {c armed d l a d' c' l'}, W.act c armed d l a d' (some c') l' → loose c = true ∨ src c c' = true)
    (hstep : W.Step s e s') (htimely : W.Timely loose s e) : W.InTime s e := by
  cases hstep with
  | @control k ks htodo hclose =>
    have hordered := h.todo
    rw [htodo] at hordered
    exact hordered.2.1
  | start => trivial
  | @act i c l a d c' l' hactive hact =>
    cases c' with
    | none => trivial
    | some c' =>
      rcases hsrc hact with hloose | hsrc
      · exact htimely hloose
      · cases hclosed : W.closed s c' with
        | false => exact hclosed
        | true => exact ((h.settled c (h.sources c' c hclosed hsrc)).2 i l hactive).elim

theorem step_inOrder (h : W.InOrder src s) (htime : W.InTime s e) (hstep : W.Step s e s') : W.InOrder src s' := by
  refine ⟨step_settled h.settled htime hstep, ?_, ?_⟩
  · cases hstep with
    | @control k ks htodo hclose =>
      have hordered := h.todo
      rw [htodo] at hordered
      simp only [closed_control]
      intro c' c hc' hcc'
      rcases Bool.or_eq_true_iff.mp hc' with hc' | hc'
      · rw [h.sources c' c hc' hcc', Bool.true_or]
      · exact hordered.1 c' c hc' hcc'
    | start => exact h.sources
    | act => exact h.sources
  · cases hstep with
    | @control k ks htodo hclose =>
      have hordered := h.todo
      rw [htodo] at hordered
      rw [closed_control]
      exact hordered.2.2
    | start => exact h.todo
    | act => exact h.todo

/-- No component is loose: every run is timely. -/
theorem run_restrict {data : D} {program : List K → Prop} {tr : List (WorkEvent I C K L A)}
    (h : (W.system data program).Run tr s) : ((W.system data program).restrict (W.Timely fun _ => false)).Run tr s := by
  obtain ⟨s₀, h₀, hp⟩ := h
  refine ⟨s₀, h₀, hp.restrict fun e _ s => ?_⟩
  cases e with
  | control k => trivial
  | start i c l => trivial
  | act i c a armed =>
    cases armed with
    | none => trivial
    | some c' => exact fun h => by cases h

/-- **Teardown.** If the program closes everything after what can arm it, up to the loose components, and these arm
nothing that is closed, then every closed component is idle and stays so. -/
theorem run_inOrder {data : D} {program : List K → Prop} {tr : List (WorkEvent I C K L A)}
    (hprogram : ∀ ks, program ks → W.Ordered src (fun _ => false) ks)
    (hsrc : ∀ {c armed d l a d' c' l'}, W.act c armed d l a d' (some c') l' → loose c = true ∨ src c c' = true)
    (h : ((W.system data program).restrict (W.Timely loose)).Run tr s) : W.InOrder src s := by
  refine h.invariant (I := W.InOrder src) ?_ ?_
  · rintro s ⟨-, -, -, hdone, htodo⟩
    have hclosed : W.closed s = fun _ => false := by
      funext c
      rw [closed, hdone]
      rfl
    refine ⟨fun c hc => ?_, fun c' c hc' => ?_, ?_⟩
    · rw [hclosed] at hc
      cases hc
    · rw [hclosed] at hc'
      cases hc'
    · rw [hclosed]
      exact hprogram _ htodo
  · rintro s e s' hs ⟨hstep, htimely⟩
    exact step_inOrder hs (hs.inTime hsrc hstep htimely) hstep

/-- The statements executed and those left are the program. -/
theorem run_program {data : D} {program : List K → Prop} {tr : List (WorkEvent I C K L A)}
    (h : (W.system data program).Run tr s) : program (s.done ++ s.todo) := by
  refine h.invariant (I := fun s => program (s.done ++ s.todo)) ?_ ?_
  · rintro s ⟨-, -, -, hdone, htodo⟩
    rw [hdone]
    exact htodo
  · intro s e s' hs hstep
    cases hstep with
    | @control k ks htodo hclose =>
      rw [htodo] at hs
      rw [List.append_assoc]
      exact hs
    | start => exact hs
    | act => exact hs

/-- What an executed statement closes is idle. -/
theorem run_idle_of_mem {data : D} {program : List K → Prop} {tr : List (WorkEvent I C K L A)} {c : C} {k : K}
    (hprogram : ∀ ks, program ks → W.Ordered src (fun _ => false) ks)
    (hsrc : ∀ {c armed d l a d' c' l'}, W.act c armed d l a d' (some c') l' → loose c = true ∨ src c c' = true)
    (h : ((W.system data program).restrict (W.Timely loose)).Run tr s) (hk : k ∈ s.done) (hc : W.closes k c = true) :
    s.Idle c :=
  (run_inOrder hprogram hsrc h).settled c (List.any_eq_true.mpr ⟨k, hk, hc⟩)

/-- When the program has ended, what a statement of every program closes is idle. -/
theorem run_finished {data : D} {program : List K → Prop} {tr : List (WorkEvent I C K L A)} {c : C} {k : K}
    (hprogram : ∀ ks, program ks → W.Ordered src (fun _ => false) ks)
    (hsrc : ∀ {c armed d l a d' c' l'}, W.act c armed d l a d' (some c') l' → loose c = true ∨ src c c' = true)
    (hk : ∀ ks, program ks → k ∈ ks) (hc : W.closes k c = true)
    (h : ((W.system data program).restrict (W.Timely loose)).Run tr s) (hend : s.todo = []) : s.Idle c := by
  have hdone := run_program h.of_restrict
  rw [hend, List.append_nil] at hdone
  exact run_idle_of_mem hprogram hsrc h (hk _ hdone) hc

end Ordered

/-! ## One component -/

section Component

variable {W} {data : D} {program : List K → Prop} {tr : List (WorkEvent I C K L A)} {s s' : Work I C K L D}
  {e : WorkEvent I C K L A} {c : C}

/-- The step of a context arms the component. -/
def armsEvent (c : C) : WorkEvent I C K L A → Bool
  | .act _ _ _ (some c') => c' = c
  | _ => false

def startsEvent (c : C) : WorkEvent I C K L A → Bool
  | .start _ c' _ => c' = c
  | _ => false

/-- The component comes to its end with one of the given actions. -/
def endsEvent (last : A → Bool) (c : C) : WorkEvent I C K L A → Bool
  | .act _ c' a _ => decide (c' = c) && last a
  | _ => false

/-- A component that does not run twice at once is run by one context at most. -/
theorem run_serial (hserial : W.serial c = true) (h : (W.system data program).Run tr s) :
    ∀ i j l l', s.active i = some (c, l) → s.active j = some (c, l') → i = j := by
  refine h.invariant (I := fun s => ∀ i j l l', s.active i = some (c, l) → s.active j = some (c, l') → i = j) ?_ ?_
  · rintro s ⟨-, -, hactive, -, -⟩ i j l l' hi
    rw [hactive i] at hi
    cases hi
  · intro s e s' hs hstep
    cases hstep with
    | control => exact hs
    | @start i₀ c₀ l₀ hfree harmed _ hrest =>
      intro i j l l' hi hj
      by_cases hc : c₀ = c
      · -- no other context runs it
        subst hc
        have honly : ∀ i l, Function.update s.active i₀ (some (c₀, l₀)) i = some (c₀, l) → i = i₀ := by
          intro i l hi
          by_contra hii
          rw [Function.update_of_ne hii] at hi
          exact hrest hserial i l hi
        exact (honly i l hi).trans (honly j l' hj).symm
      · have hnext : ∀ l, some (c₀, l₀) = some (c, l) → ∃ l', s.active i₀ = some (c, l') := fun l h =>
          absurd (congrArg Prod.fst (Option.some.inj h)) hc
        obtain ⟨l₁, hi⟩ := running_before hnext hi
        obtain ⟨l₂, hj⟩ := running_before hnext hj
        exact hs i j l₁ l₂ hi hj
    | @act i₀ c₀ l₀ a d c' l₁ hactive _ =>
      intro i j l l' hi hj
      have hnext : ∀ l, (l₁.map fun l => (c₀, l)) = some (c, l) → ∃ l', s.active i₀ = some (c, l') := by
        intro l h
        obtain ⟨l₂, -, hl₂⟩ := Option.map_eq_some_iff.mp h
        exact ⟨l₀, by rw [hactive, (Prod.mk.inj hl₂).1]⟩
      obtain ⟨l₂, hi⟩ := running_before hnext hi
      obtain ⟨l₃, hj⟩ := running_before hnext hj
      exact hs i j l₂ l₃ hi hj

/-- A component that the program neither arms nor closes is disarmed exactly if it was started after it was last
armed. -/
theorem run_armed_iff (hkeeps : W.keeps c = false)
    (hprogram : ∀ ks, program ks → ∀ k ∈ ks, W.arms k c = false ∧ W.closes k c = false)
    (h : (W.system data program).Run tr s) :
    s.armed c = false ↔ System.FollowedBy (armsEvent c) (startsEvent c) tr := by
  refine System.Run.history (P := fun tr s => s.armed c = false ↔
    System.FollowedBy (armsEvent c) (startsEvent c) tr) ?_ ?_ h
  · rintro s ⟨-, harmed, -⟩
    exact iff_of_true (harmed c) (System.followedBy_nil _ _)
  · intro tr s e s' hrun ih hstep
    rw [System.followedBy_snoc]
    cases hstep with
    | @control k ks htodo _ =>
      obtain ⟨harms, hcloses⟩ := hprogram _ (run_program hrun) k (by rw [htodo]; simp)
      simp [armsEvent, startsEvent, armedAfter, harms, hcloses, ih]
    | @start i c₀ l hfree harmed _ _ =>
      by_cases hc : c₀ = c
      · subst hc
        simp [armsEvent, startsEvent, hkeeps]
      · have hsame : (if W.keeps c₀ then s.armed else Function.update s.armed c₀ false) c = s.armed c := by
          cases W.keeps c₀ with
          | true => rfl
          | false => exact Function.update_of_ne (Ne.symm hc) _ _
        simp only [hsame, armsEvent, startsEvent, decide_eq_false hc, ih]
        simp
    | @act i c₀ l a d c' l' hactive _ =>
      by_cases hc : c' = some c
      · subst hc
        simp [armsEvent, startsEvent, arm]
      · have hnot : armsEvent c (.act i c₀ a c' : WorkEvent I C K L A) = false := by
          cases c' with
          | none => rfl
          | some c' => exact decide_eq_false fun h => hc (h ▸ rfl)
        simp only [arm_of_ne hc, hnot, startsEvent, ih]
        simp

/-- A component that does not run twice at once rests exactly if every execution that was started has come to its end.
-/
theorem run_resting_iff (hserial : W.serial c = true) {last : A → Bool}
    (hlast : ∀ {armed d l a d' c' l'}, W.act c armed d l a d' c' l' → (l' = none ↔ last a = true))
    (h : (W.system data program).Run tr s) :
    s.Resting c ↔ System.FollowedBy (startsEvent c) (endsEvent last c) tr := by
  refine System.Run.history (P := fun tr s => s.Resting c ↔
    System.FollowedBy (startsEvent c) (endsEvent last c) tr) ?_ ?_ h
  · rintro s ⟨-, -, hactive, -⟩
    refine iff_of_true (fun i l hi => ?_) (System.followedBy_nil _ _)
    rw [hactive i] at hi
    cases hi
  · intro tr s e s' hrun ih hstep
    rw [System.followedBy_snoc, ← ih]
    cases hstep with
    | control => simp [startsEvent, endsEvent, Work.Resting]
    | @start i c₀ l hfree _ _ _ =>
      by_cases hc : c₀ = c
      · subst hc
        refine iff_of_false (fun hrest => hrest i l (Function.update_self ..)) ?_
        simp [startsEvent]
      · have hnot : startsEvent c (.start i c₀ l : WorkEvent I C K L A) = false := decide_eq_false hc
        simp only [hnot, endsEvent, Bool.false_eq_true, false_or, true_and]
        refine resting_update_iff (fun l' h => ?_) fun l' h => hc (congrArg Prod.fst (Option.some.inj h))
        rw [hfree] at h
        cases h
    | @act i c₀ l a d c' l' hactive hact =>
      have hnot : startsEvent c (.act i c₀ a c' : WorkEvent I C K L A) = false := rfl
      simp only [hnot, endsEvent, Bool.and_eq_true, decide_eq_true_iff, true_and]
      by_cases hc : c₀ = c
      · subst hc
        have hbusy : ¬s.Resting c₀ := fun hrest => hrest i l hactive
        simp only [hbusy, or_false, true_and]
        rw [← hlast hact]
        constructor
        · intro hrest
          cases l' with
          | none => rfl
          | some l' => exact absurd (Function.update_self ..) (hrest i l')
        · rintro rfl j l' hj
          -- no other context runs it
          by_cases hji : j = i
          · rw [hji] at hj
            simp at hj
          · simp only [Function.update_of_ne hji] at hj
            exact hji (run_serial hserial hrun j i l' l hj hactive)
      · simp only [hc, false_and, false_or]
        refine resting_update_iff (fun l₁ h => ?_) fun l₁ h => ?_
        · rw [hactive] at h
          exact hc (congrArg Prod.fst (Option.some.inj h))
        · obtain ⟨l₂, -, hl₂⟩ := Option.map_eq_some_iff.mp h
          exact hc (congrArg Prod.fst hl₂)

end Component

/-! ## Where a component is -/

section Places

variable {W} {data : D} {program : List K → Prop} {tr : List (WorkEvent I C K L A)} {s s' : Work I C K L D} {c : C}
  {p : L → Prop}

omit [DecidableEq C] [DecidableEq I] in
/-- A component that rests is nowhere. -/
theorem not_at_of_resting (h : s.Resting c) : ¬s.At c p := fun ⟨i, l, hi, _⟩ => h i l hi

omit [DecidableEq C] in
/-- Contexts that run another component before and after do not matter. -/
theorem at_update_other {active : I → Option (C × L)} {i : I} {next : Option (C × L)}
    (hbefore : ∀ l, active i ≠ some (c, l)) (hnext : ∀ l, next ≠ some (c, l)) :
    (∃ j l, Function.update active i next j = some (c, l) ∧ p l) ↔ ∃ j l, active j = some (c, l) ∧ p l := by
  constructor
  · rintro ⟨j, l, hj, hl⟩
    by_cases hji : j = i
    · rw [hji, Function.update_self] at hj
      exact absurd hj (hnext l)
    · rw [Function.update_of_ne hji] at hj
      exact ⟨j, l, hj, hl⟩
  · rintro ⟨j, l, hj, hl⟩
    have hji : j ≠ i := fun hji => hbefore l (hji ▸ hj)
    exact ⟨j, l, by rw [Function.update_of_ne hji]; exact hj, hl⟩

omit [DecidableEq C] in
/-- The only context that runs the component moves it. -/
theorem at_update_self {active : I → Option (C × L)} {i : I} {next : Option L}
    (honly : ∀ j l, active j = some (c, l) → j = i) :
    (∃ j l, Function.update active i (next.map fun l => (c, l)) j = some (c, l) ∧ p l) ↔ ∃ l, next = some l ∧ p l := by
  constructor
  · rintro ⟨j, l, hj, hl⟩
    by_cases hji : j = i
    · rw [hji, Function.update_self] at hj
      obtain ⟨l', hl', heq⟩ := Option.map_eq_some_iff.mp hj
      exact ⟨l, by rw [hl', (Prod.mk.inj heq).2], hl⟩
    · rw [Function.update_of_ne hji] at hj
      exact absurd (honly j l hj) hji
  · rintro ⟨l, rfl, hl⟩
    exact ⟨i, l, by rw [Function.update_self]; rfl, hl⟩

/-- A component that is started is where it starts; the others are where they were. -/
theorem at_start {i : I} {c' : C} {l : L} (hserial : W.serial c = true) (h : W.Step s (.start i c' l) s') :
    s'.At c p ↔ if c' = c then p l else s.At c p := by
  cases h with
  | start hfree harmed hstart hrest =>
    have hbefore : ∀ l, s.active i ≠ some (c, l) := fun l h => by
      rw [hfree] at h
      cases h
    by_cases hc : c' = c
    · subst hc
      have honly : ∀ j l, s.active j = some (c', l) → j = i := fun j l hj => (hrest hserial j l hj).elim
      rw [if_pos rfl]
      exact (at_update_self honly).trans ⟨fun ⟨l', hl', hp⟩ => Option.some.inj hl' ▸ hp, fun hp => ⟨l, rfl, hp⟩⟩
    · rw [if_neg hc]
      exact at_update_other hbefore fun l' h => hc (congrArg Prod.fst (Option.some.inj h))

/-- A component that comes to its end rests. -/
theorem resting_of_end {i : I} {l : L} (hserial : W.serial c = true) (hrun : (W.system data program).Run tr s)
    (hactive : s.active i = some (c, l)) : ∀ j l', Function.update s.active i none j ≠ some (c, l') := by
  intro j l' hj
  by_cases hji : j = i
  · rw [hji, Function.update_self] at hj
    cases hj
  · rw [Function.update_of_ne hji] at hj
    exact hji (run_serial hserial hrun j i l' l hj hactive)

/-- The component is where the context that runs it is. -/
theorem at_iff {i : I} {l : L} (hserial : W.serial c = true) (hrun : (W.system data program).Run tr s)
    (hactive : s.active i = some (c, l)) : s.At c p ↔ p l := by
  constructor
  · rintro ⟨j, l', hj, hl'⟩
    have hji := run_serial hserial hrun j i l' l hj hactive
    rw [hji, hactive] at hj
    cases hj
    exact hl'
  · exact fun hl => ⟨i, l, hactive, hl⟩

/-- A component that acts is where its action leads; the others are where they were. -/
theorem at_act {i : I} {c' : C} {l : L} {d : D} {b : Option C} {n : Option L} (hserial : W.serial c = true)
    (hrun : (W.system data program).Run tr s) (hactive : s.active i = some (c', l)) :
    ({ s with data := d, armed := arm s.armed b, active := Function.update s.active i (n.map fun l => (c', l)) } :
      Work I C K L D).At c p ↔ if c' = c then ∃ l₁, n = some l₁ ∧ p l₁ else s.At c p := by
  split
  · next hc =>
    subst hc
    exact at_update_self fun j l₁ hj => run_serial hserial hrun j i l₁ l hj hactive
  · next hc =>
    refine at_update_other (fun l₁ h => ?_) fun l₁ h => ?_
    · rw [hactive] at h
      exact hc (congrArg Prod.fst (Option.some.inj h))
    · obtain ⟨l₂, -, hl₂⟩ := Option.map_eq_some_iff.mp h
      exact hc (congrArg Prod.fst hl₂)

end Places

end Workload

end KernelModules.Lib
