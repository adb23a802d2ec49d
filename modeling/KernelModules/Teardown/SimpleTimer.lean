import Mathlib.Logic.Function.Basic
import KernelModules.Lib.Runs
import KernelModules.Lib.Uaccess

/-!
# Loading and unloading the timer module again and again

`simple_timer_init` creates `/proc/simple_timer` and starts two timers whose callbacks start them again.
`simple_timer_exit` stops both and removes the file, which it looks up by calling `proc_create` once more. The
registry of `/proc` refuses a name that it has, so this call returns NULL and nothing is removed.

- the timers are idle wherever the code has not started them or has stopped them (`Stopped`, `step_stopped`);
- the entry is made by the first load and never goes away (`History`, `step_history`, `run_history`);
- so everything is as it should be exactly as long as the module was not unloaded (`simple_timer_cycles`).
-/

namespace KernelModules.Teardown.SimpleTimer

open Lib

universe u

/-! ## The registry -/

/-- The entries of `/proc`. -/
abbrev Registry (E : Type u) := String → Option E

variable {E : Type u}

/-- `proc_create(name, ..., ops)`: the name of the new entry, or NULL if there is one of this name. -/
def procCreate (name : String) (ops : E) (r : Registry E) : Option String × Registry E :=
  match r name with
  | some _ => (none, r)
  | none => (some name, Function.update r name (some ops))

/-- `proc_remove`. -/
def procRemove : Option String → Registry E → Registry E
  | none, r => r
  | some name, r => Function.update r name none

/-! ## The code -/

inductive Timer
  | periodicTimer
  | hrTimer
deriving DecidableEq, Repr

/-- Where a callback is. -/
inductive Callback
  /-- At `atomic_inc_return`. -/
  | count
  /-- At `mod_timer`, or at `return HRTIMER_RESTART`. -/
  | restart

/-- Where the module is. -/
inductive Place
  | unloaded
  /-- `simple_timer_init`, at `mod_timer`. -/
  | modTimer
  /-- At `hrtimer_start`. -/
  | hrtimerStart
  | loaded
  /-- `simple_timer_exit`, at `hrtimer_cancel`. -/
  | hrtimerCancel
  /-- At `proc_remove`. -/
  | procRemove

structure Kernel (E : Type u) where
  registry : Registry E
  place : Place
  pending : Timer → Bool
  running : Timer → Option Callback
  /-- `periodic_count` and `hr_count`. -/
  count : Timer → Int32

inductive Act
  /-- `proc_create` in `simple_timer_init`; the load fails with `-ENOMEM` if it fails. -/
  | load (ok : Bool)
  | start (t : Timer)
  | fire (t : Timer)
  | count (t : Timer)
  | restart (t : Timer)
  /-- `del_timer_sync` or `hrtimer_cancel`. -/
  | cancel (t : Timer)
  /-- `proc_remove`, the end of `simple_timer_exit`. -/
  | unload
deriving DecidableEq, Repr

def procName : String := "simple_timer"

/-- One step of the thread that loads and unloads the module, or of a timer. -/
inductive Step (timerProcOps : E) : Kernel E → Act → Kernel E → Prop
  | load {s : Kernel E} {r : Registry E} {name : String} : s.place = .unloaded →
      procCreate procName timerProcOps s.registry = (some name, r) →
      Step timerProcOps s (.load true) { s with registry := r, place := .modTimer, count := fun _ => 0 }
  | loadFailed {s : Kernel E} {r : Registry E} : s.place = .unloaded →
      procCreate procName timerProcOps s.registry = (none, r) →
      Step timerProcOps s (.load false) { s with registry := r }
  | modTimer {s : Kernel E} : s.place = .modTimer →
      Step timerProcOps s (.start .periodicTimer)
        { s with place := .hrtimerStart, pending := Function.update s.pending .periodicTimer true }
  | hrtimerStart {s : Kernel E} : s.place = .hrtimerStart →
      Step timerProcOps s (.start .hrTimer)
        { s with place := .loaded, pending := Function.update s.pending .hrTimer true }
  | fire {s : Kernel E} {t : Timer} : s.pending t = true → s.running t = none →
      Step timerProcOps s (.fire t)
        { s with pending := Function.update s.pending t false, running := Function.update s.running t (some .count) }
  | count {s : Kernel E} {t : Timer} : s.running t = some .count →
      Step timerProcOps s (.count t)
        { s with count := Function.update s.count t (s.count t + 1),
                 running := Function.update s.running t (some .restart) }
  | restart {s : Kernel E} {t : Timer} : s.running t = some .restart →
      Step timerProcOps s (.restart t)
        { s with pending := Function.update s.pending t true, running := Function.update s.running t none }
  -- both calls return only when the callback does not run
  | delTimerSync {s : Kernel E} : s.place = .loaded → s.running .periodicTimer = none →
      Step timerProcOps s (.cancel .periodicTimer)
        { s with place := .hrtimerCancel, pending := Function.update s.pending .periodicTimer false }
  | hrtimerCancel {s : Kernel E} : s.place = .hrtimerCancel → s.running .hrTimer = none →
      Step timerProcOps s (.cancel .hrTimer)
        { s with place := .procRemove, pending := Function.update s.pending .hrTimer false }
  | unload {s : Kernel E} {pde : Option String} {r : Registry E} : s.place = .procRemove →
      procCreate procName timerProcOps s.registry = (pde, r) →
      Step timerProcOps s .unload { s with registry := procRemove pde r, place := .unloaded }

/-- Any loads, firings and unloads, from a registry before the first load. -/
def simpleTimer (timerProcOps : E) (registry : Registry E) : System (Kernel E) Act where
  init s := s.registry = registry ∧ s.place = .unloaded ∧ (∀ t, s.pending t = false) ∧ ∀ t, s.running t = none
  step := Step timerProcOps

/-! ## The timers -/

/-- The places where a timer has not been started or has been stopped. -/
def Place.stopped : Place → Timer → Bool
  | .unloaded, _ => true
  | .modTimer, _ => true
  | .hrtimerStart, .hrTimer => true
  | .hrtimerCancel, .periodicTimer => true
  | .procRemove, _ => true
  | _, _ => false

/-- A stopped timer is neither pending nor running. -/
def Stopped (s : Kernel E) : Prop := ∀ t, s.place.stopped t = true → s.pending t = false ∧ s.running t = none

section Steps

variable {timerProcOps : E} {reg : Registry E} {s s' : Kernel E} {a : Act} {tr : List Act}

/-- A timer that is pending or running is not stopped. -/
theorem Stopped.active (hs : Stopped s) {t : Timer} (h : s.pending t = true ∨ s.running t ≠ none) :
    s.place.stopped t = false := by
  by_contra hstopped
  obtain ⟨hpending, hrunning⟩ := hs t (Bool.eq_true_of_not_eq_false hstopped)
  rcases h with h | h
  · rw [hpending] at h
    cases h
  · exact h hrunning

/-- A step that leaves all timers but one that is not stopped. -/
theorem Stopped.frame (hs : Stopped s) {t : Timer} (ht : s.place.stopped t = false) (hplace : s'.place = s.place)
    (hothers : ∀ t', t' ≠ t → s'.pending t' = s.pending t' ∧ s'.running t' = s.running t') : Stopped s' := by
  intro t' ht'
  rw [hplace] at ht'
  have hne : t' ≠ t := by
    rintro rfl
    rw [ht] at ht'
    cases ht'
  rw [(hothers t' hne).1, (hothers t' hne).2]
  exact hs t' ht'

/-- **One step** keeps stopped timers idle. -/
theorem step_stopped (h : Step timerProcOps s a s') (hs : Stopped s) : Stopped s' := by
  cases h with
  | load hplace hcreate =>
    intro t _
    exact hs t (by rw [hplace]; rfl)
  | loadFailed => exact hs
  | modTimer hplace =>
    intro t ht
    cases t with
    | periodicTimer => cases ht
    | hrTimer => exact hs .hrTimer (by rw [hplace]; rfl)
  | hrtimerStart hplace =>
    intro t ht
    cases t <;> cases ht
  | @fire t hpending hrunning =>
    exact hs.frame (hs.active (.inl hpending)) rfl fun t' ht' =>
      ⟨Function.update_of_ne ht' _ _, Function.update_of_ne ht' _ _⟩
  | @count t hrunning =>
    exact hs.frame (hs.active (.inr (by simp [hrunning]))) rfl fun t' ht' => ⟨rfl, Function.update_of_ne ht' _ _⟩
  | @restart t hrunning =>
    exact hs.frame (hs.active (.inr (by simp [hrunning]))) rfl fun t' ht' =>
      ⟨Function.update_of_ne ht' _ _, Function.update_of_ne ht' _ _⟩
  | delTimerSync hplace hrunning =>
    intro t ht
    cases t with
    | periodicTimer => exact ⟨by simp, hrunning⟩
    | hrTimer => cases ht
  | hrtimerCancel hplace hrunning =>
    intro t _
    cases t with
    | periodicTimer => exact hs .periodicTimer (by rw [hplace]; rfl)
    | hrTimer => exact ⟨by simp, hrunning⟩
  | unload hplace hcreate =>
    intro t _
    exact hs t (by rw [hplace]; rfl)

/-- **Every run** does. -/
theorem run_stopped (h : (simpleTimer timerProcOps reg).Run tr s) : Stopped s := by
  refine h.invariant (I := Stopped) ?_ fun _ _ _ hs hstep => step_stopped hstep hs
  rintro s ⟨-, -, hpending, hrunning⟩ t -
  exact ⟨hpending t, hrunning t⟩

/-! ## The entry -/

theorem procCreate_of_none {r : Registry E} {name : String} {ops : E} (h : r name = none) :
    procCreate name ops r = (some name, Function.update r name (some ops)) := by
  rw [procCreate, h]

theorem procCreate_of_some {r : Registry E} {name : String} {ops e : E} (h : r name = some e) :
    procCreate name ops r = (none, r) := by
  rw [procCreate, h]

/-- What the labels so far say about the registry and the place: nothing has happened before the first load that
succeeded; after it the entry is there, and without an unload the module is. -/
structure History (timerProcOps : E) (reg : Registry E) (tr : List Act) (s : Kernel E) : Prop where
  before : Act.load true ∉ tr → s.registry = reg ∧ s.place = .unloaded
  listed : Act.load true ∈ tr → s.registry = Function.update reg procName (some timerProcOps)
  inside : Act.load true ∈ tr → Act.unload ∉ tr → s.place ≠ .unloaded

/-- A step that is not a load or an unload, and that keeps the module where it is or moves it inside. -/
theorem History.keep (hs : History timerProcOps reg tr s) (ha : a ≠ .load true) (hregistry : s'.registry = s.registry)
    (hout : s.place = .unloaded ↔ s'.place = .unloaded) : History timerProcOps reg (tr ++ [a]) s' := by
  have hmem : Act.load true ∈ tr ++ [a] ↔ Act.load true ∈ tr := by
    rw [List.mem_append, List.mem_singleton]
    exact ⟨fun h => h.resolve_right fun h => ha h.symm, .inl⟩
  refine ⟨fun h => ?_, fun h => ?_, fun h hun => ?_⟩
  · obtain ⟨h1, h2⟩ := hs.before fun hmem' => h (hmem.mpr hmem')
    exact ⟨hregistry.trans h1, hout.mp h2⟩
  · exact hregistry.trans (hs.listed (hmem.mp h))
  · exact fun hplace => hs.inside (hmem.mp h) (fun hmem' => hun (List.mem_append_left _ hmem')) (hout.mpr hplace)

/-- **One step** continues the history. -/
theorem step_history (hreg : reg procName = none) (hs : History timerProcOps reg tr s) (h : Step timerProcOps s a s') :
    History timerProcOps reg (tr ++ [a]) s' := by
  have hentry : Act.load true ∈ tr → s.registry procName = some timerProcOps := fun hmem => by
    rw [hs.listed hmem, Function.update_self]
  have hnone : Act.load true ∉ tr → s.registry procName = none := fun hmem => by
    rw [(hs.before hmem).1]
    exact hreg
  cases h with
  | load hplace hcreate =>
    by_cases hmem : Act.load true ∈ tr
    · rw [procCreate_of_some (hentry hmem)] at hcreate
      cases hcreate
    · rw [procCreate_of_none (hnone hmem), (hs.before hmem).1] at hcreate
      obtain ⟨-, rfl⟩ := Prod.mk.inj hcreate
      refine ⟨fun h => absurd (List.mem_append_right _ List.mem_cons_self) h, fun _ => rfl, fun _ _ h => by cases h⟩
  | loadFailed hplace hcreate =>
    by_cases hmem : Act.load true ∈ tr
    · rw [procCreate_of_some (hentry hmem)] at hcreate
      obtain ⟨-, rfl⟩ := Prod.mk.inj hcreate
      exact hs.keep (by decide) rfl Iff.rfl
    · rw [procCreate_of_none (hnone hmem)] at hcreate
      cases hcreate
  | modTimer hplace => exact hs.keep (by decide) rfl (by simp [hplace])
  | hrtimerStart hplace => exact hs.keep (by decide) rfl (by simp [hplace])
  | fire => exact hs.keep (by simp) rfl Iff.rfl
  | count => exact hs.keep (by simp) rfl Iff.rfl
  | restart => exact hs.keep (by simp) rfl Iff.rfl
  | delTimerSync hplace => exact hs.keep (by decide) rfl (by simp [hplace])
  | hrtimerCancel hplace => exact hs.keep (by decide) rfl (by simp [hplace])
  | unload hplace hcreate =>
    by_cases hmem : Act.load true ∈ tr
    · -- the name is taken, so there is nothing to remove
      rw [procCreate_of_some (hentry hmem)] at hcreate
      obtain ⟨rfl, rfl⟩ := Prod.mk.inj hcreate
      refine ⟨fun h => absurd (List.mem_append_left _ hmem) h, fun _ => hs.listed hmem, fun _ hun => ?_⟩
      exact absurd (List.mem_append_right _ List.mem_cons_self) hun
    · rw [(hs.before hmem).2] at hplace
      cases hplace

theorem run_history (hreg : reg procName = none) (h : (simpleTimer timerProcOps reg).Run tr s) :
    History timerProcOps reg tr s := by
  refine h.history (P := History timerProcOps reg) ?_ fun _ _ _ _ _ hs hstep => step_history hreg hs hstep
  rintro s ⟨hregistry, hplace, -, -⟩
  exact ⟨fun _ => ⟨hregistry, hplace⟩, fun h => (by cases h), fun h => (by cases h)⟩

/-! ## Cycles -/

/-- Every load succeeds; and from the load to the next unload, the registry comes back to what it was and no timer is
left pending. -/
def Clean (timerProcOps : E) (reg : Registry E) (tr : List Act) : Prop :=
  Act.load false ∉ tr ∧
  ∀ pre mid post s₀ s₁, tr = pre ++ Act.load true :: (mid ++ Act.unload :: post) → Act.unload ∉ mid →
    (simpleTimer timerProcOps reg).Run pre s₀ →
    (simpleTimer timerProcOps reg).Path s₀ (Act.load true :: (mid ++ [Act.unload])) s₁ →
    s₁.registry = s₀.registry ∧ ∀ t, s₁.pending t = false

/-- Only a loaded module is unloaded. -/
theorem load_mem_of_unload (hreg : reg procName = none) (hrun : (simpleTimer timerProcOps reg).Run tr s)
    (h : Step timerProcOps s .unload s') : Act.load true ∈ tr := by
  by_contra hmem
  have hplace := ((run_history hreg hrun).before hmem).2
  cases h with
  | unload hremove _ =>
    rw [hplace] at hremove
    cases hremove

/-- A load fails only after an unload. -/
theorem unload_mem_of_loadFailed (hreg : reg procName = none) (hrun : (simpleTimer timerProcOps reg).Run tr s)
    (h : Step timerProcOps s (.load false) s') : Act.unload ∈ tr := by
  have hs := run_history hreg hrun
  by_contra hun
  cases h with
  | loadFailed hplace hcreate =>
    by_cases hmem : Act.load true ∈ tr
    · exact hs.inside hmem hun hplace
    · rw [procCreate_of_none (by rw [(hs.before hmem).1]; exact hreg)] at hcreate
      cases hcreate

/-- An unload leaves the entry that its load has made. -/
theorem registry_ne_of_unload (hreg : reg procName = none) {mid : List Act} {s₀ s₁ : Kernel E}
    (hrun : (simpleTimer timerProcOps reg).Run tr s₀)
    (hpath : (simpleTimer timerProcOps reg).Path s₀ (Act.load true :: (mid ++ [Act.unload])) s₁) :
    s₁.registry ≠ s₀.registry := by
  have hlisted := (run_history hreg (hrun.extend hpath)).listed (by simp)
  have hfree : s₀.registry procName = none := by
    cases hpath with
    | cons hstep _ =>
      cases hstep with
      | load _ hcreate =>
        cases hname : s₀.registry procName with
        | none => rfl
        | some e =>
          rw [procCreate_of_some hname] at hcreate
          cases hcreate
  intro heq
  rw [← heq, hlisted, Function.update_self] at hfree
  cases hfree

end Steps

/-- **Cycles.** All is in order exactly as long as no unload has finished: every unload leaves the entry behind. The
timers are idle after every unload. -/
theorem simple_timer_cycles (timerProcOps : E) (reg : Registry E) (hreg : reg procName = none) (tr : List Act)
    (s : Kernel E) (h : (simpleTimer timerProcOps reg).Run tr s) :
    (Clean timerProcOps reg tr ↔ Act.unload ∉ tr) ∧
    ∀ pre post s₁, tr = pre ++ Act.unload :: post → (simpleTimer timerProcOps reg).Run (pre ++ [Act.unload]) s₁ →
      ∀ t, s₁.pending t = false ∧ s₁.running t = none := by
  refine ⟨⟨fun hclean hmem => ?_, fun hun => ⟨fun hfail => ?_, ?_⟩⟩, ?_⟩
  · -- the first unload, and the load before it
    obtain ⟨pre, post, rfl, hfirst⟩ := List.eq_append_cons_of_mem hmem
    obtain ⟨s₁, s₂, hpre, hstep, -⟩ := h.cut
    obtain ⟨before, mid, rfl⟩ := List.append_of_mem (load_mem_of_unload hreg hpre hstep)
    obtain ⟨s₀, h₀, hp⟩ := hpre
    obtain ⟨s₀', hbefore, hmid⟩ := hp.split
    have hpath : (simpleTimer timerProcOps reg).Path s₀' (Act.load true :: (mid ++ [Act.unload])) s₂ :=
      hmid.append (.single hstep)
    have hsame := hclean.2 before mid post s₀' s₂ (by simp)
      (fun hm => hfirst (List.mem_append_right _ (List.mem_cons_of_mem _ hm))) ⟨s₀, h₀, hbefore⟩ hpath
    exact registry_ne_of_unload hreg ⟨s₀, h₀, hbefore⟩ hpath hsame.1
  · obtain ⟨pre, post, rfl⟩ := List.append_of_mem hfail
    obtain ⟨s₁, s₂, hpre, hstep, -⟩ := h.cut
    exact hun (List.mem_append_left _ (unload_mem_of_loadFailed hreg hpre hstep))
  · rintro pre mid post s₀ s₁ rfl
    exact absurd (by simp) hun
  · intro pre post s₁ _ hrun t
    obtain ⟨s₂, s₃, _, hstep, hlast⟩ := hrun.cut
    cases hlast with
    | nil =>
      refine run_stopped hrun t ?_
      cases hstep with
      | unload => rfl

/-- One load, and the first firing of the periodic timer. -/
def loadAndFire : List Act :=
  [.load true, .start .periodicTimer, .start .hrTimer, .fire .periodicTimer, .count .periodicTimer,
    .restart .periodicTimer]

/-- The kernel before the first load, with an empty registry. -/
def beforeLoad : Kernel Unit := ⟨fun _ => none, .unloaded, fun _ => false, fun _ => none, fun _ => 0⟩

theorem simple_timer_cycles_loadAndFire :
    ∃ s, (simpleTimer () fun _ => none).Run loadAndFire s ∧ Clean () (fun _ => none) loadAndFire := by
  have hrun : (simpleTimer () fun _ => none).Run loadAndFire _ :=
    ⟨beforeLoad, ⟨rfl, rfl, fun _ => rfl, fun _ => rfl⟩,
      .cons (.load rfl rfl) <| .cons (.modTimer rfl) <| .cons (.hrtimerStart rfl) <| .cons (.fire rfl rfl) <|
      .cons (.count rfl) <| .cons (.restart rfl) <| .nil _⟩
  exact ⟨_, hrun, (simple_timer_cycles () _ rfl _ _ hrun).1.mpr (by decide)⟩

/-- One load and one unload, and the next load. -/
def loadUnloadLoad : List Act :=
  [.load true, .start .periodicTimer, .start .hrTimer, .cancel .periodicTimer, .cancel .hrTimer, .unload, .load false]

/-- The unload leaves the entry behind, and the next load fails. -/
theorem simple_timer_entry_left :
    ∃ s, (simpleTimer () fun _ => none).Run loadUnloadLoad s ∧ Act.load false ∈ loadUnloadLoad ∧
      s.place = .unloaded ∧ s.registry procName = some () :=
  ⟨_, ⟨beforeLoad, ⟨rfl, rfl, fun _ => rfl, fun _ => rfl⟩,
    .cons (.load rfl rfl) <| .cons (.modTimer rfl) <| .cons (.hrtimerStart rfl) <| .cons (.delTimerSync rfl rfl) <|
    .cons (.hrtimerCancel rfl rfl) <| .cons (.unload rfl rfl) <| .cons (.loadFailed rfl rfl) <| .nil _⟩,
    by decide, rfl, rfl⟩

end KernelModules.Teardown.SimpleTimer
