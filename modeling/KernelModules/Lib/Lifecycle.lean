import KernelModules.Lib.Runs
import Mathlib.Data.List.Basic

/-!
# Loading and unloading

A module is loaded by a script that acquires named resources one after another; each attempt may fail, and fails if
the name is taken. What a script does when an attempt has failed is part of it: it releases what it has and returns an
error, or goes on. Another script unloads the module. To release a resource that is not held, or one that something
else uses, is a fault (`none`).

Besides, a module has jobs, which run in the background: timers, deferred work. A script starts and stops them, but an
active job may also end by itself or start others, and whoever uses a resource may start jobs as long as it is
registered (`Drifts`). This happens before every step of a script and while the module is loaded. A job that is active
when the scripts are done is left behind like a resource.

- `Script.leaves` is a check of a script that follows all its branches with the resources that are held and the jobs
  that may be active. If it finds no fault, a run ends in one of the ends that it finds, whatever runs in the
  background and whatever else is registered, as long as nothing else uses the names of the script
  (`Script.run_leaf`);
- `Module.clean` is a check of the two scripts: an error leaves nothing behind, and from whatever a successful load
  holds the other script releases everything without a fault;
- `Kernel.system` is the system of all loads and unloads of a family of modules, in any order, with any failures and
  with the jobs in the background. If the modules are clean and do not use each other's names, then in every run
  exactly the loaded modules hold anything (`run_orderly`), no load or unload is a fault (`Orderly.load`,
  `Orderly.unload`), and a load in which no attempt fails succeeds (`Orderly.load_ok`).
-/

namespace KernelModules.Lib

universe u v w

/-- What a script returns: success, an error of its own, or that of the attempt that failed last. -/
inductive Ret
  | ok
  | error (code : Nat)
  | last
  deriving DecidableEq

def Ret.value (e : Int) : Ret → Int
  | ok => 0
  | error code => -code
  | last => e

/-- Errors are negative. -/
def Negative {ρ : Type u} (fails : ρ → Option Int) : Prop := ∀ r e, fails r = some e → e < 0

theorem negative_none {ρ : Type u} : Negative fun _ : ρ => none := fun _ _ he => by cases he

/-- What is known of the resources `ρ` and the jobs `κ`. -/
structure Rules (ρ : Type u) (κ : Type v) where
  /-- The second must not be released while the first is registered. -/
  uses : ρ → ρ → Bool
  /-- The first is released with the second if all that is below it is. -/
  below : ρ → ρ → Bool
  /-- The resource must not be released while the job is active. -/
  needs : κ → ρ → Bool
  /-- The release of the resource waits for the job. -/
  drains : ρ → κ → Bool
  /-- The jobs that may be started as long as the resource is registered. -/
  wakes : ρ → List κ
  /-- The jobs that an active job may start, itself among them if it may start again. -/
  starts : κ → List κ

/-- What is registered, and the jobs that are active. -/
@[ext]
structure Holding (ρ : Type u) (κ : Type v) where
  held : List ρ
  active : List κ
  deriving DecidableEq

/-- Scripts over resources and jobs. -/
inductive Script (ρ : Type u) (κ : Type v)
  /-- The script ends. -/
  | done (ret : Ret)
  /-- An attempt to acquire a resource, and how the script goes on if it fails and if it does not. -/
  | acquire (r : ρ) (failed next : Script ρ κ)
  /-- A resource is released, with those below it if `tree`; if it is not held, that is a fault if `must`. -/
  | drop (r : ρ) (tree must : Bool) (next : Script ρ κ)
  /-- A test whether all of some resources are held. -/
  | branch (rs : List ρ) (all missing : Script ρ κ)
  /-- The structure of a job is initialised, which is a fault while the job is active. -/
  | setup (j : κ) (next : Script ρ κ)
  /-- A job is started. -/
  | start (j : κ) (next : Script ρ κ)
  /-- A job is stopped: it is neither pending nor running when this returns. -/
  | stop (j : κ) (next : Script ρ κ)

namespace Holding

variable {ρ : Type u} {κ : Type v}

def nothing : Holding ρ κ := ⟨[], []⟩

/-- The same is registered, and there are no other jobs. -/
structure Within (h h' : Holding ρ κ) : Prop where
  held : h.held = h'.held
  active : h.active ⊆ h'.active

theorem Within.refl (h : Holding ρ κ) : h.Within h := ⟨rfl, List.Subset.refl _⟩

theorem Within.eq_nothing {h : Holding ρ κ} (hin : h.Within nothing) : h = nothing :=
  Holding.ext hin.held (List.subset_nil.mp hin.active)

end Holding

open Holding

namespace Script

variable {ρ : Type u} {κ : Type v}

def release (r : ρ) (next : Script ρ κ) : Script ρ κ := drop r false true next
def releaseIf (r : ρ) (next : Script ρ κ) : Script ρ κ := drop r false false next
def releaseTree (r : ρ) (next : Script ρ κ) : Script ρ κ := drop r true true next

/-- An attempt whose failure is not looked at. -/
def try_ (r : ρ) (next : Script ρ κ) : Script ρ κ := acquire r next next

/-- All names that a script may acquire. -/
def names : Script ρ κ → List ρ
  | done _ => []
  | acquire r failed next => r :: (failed.names ++ next.names)
  | branch _ all missing => all.names ++ missing.names
  | drop _ _ _ next | setup _ next | start _ next | stop _ next => next.names

end Script

/-! ## The background -/

section Background

variable {ρ : Type u} {κ : Type v} [DecidableEq κ]

/-- What the jobs may do by themselves: start, as long as something that starts them is there, and end. -/
inductive Drifts (R : Rules ρ κ) (held : List ρ) (active : List κ) : List κ → Prop
  | refl : Drifts R held active active
  | wake {active' : List κ} {j : κ} : Drifts R held active active' →
      ((∃ x ∈ held, j ∈ R.wakes x) ∨ ∃ i ∈ active', j ∈ R.starts i) → Drifts R held active (active'.insert j)
  | finish {active' : List κ} (j : κ) : Drifts R held active active' → Drifts R held active (active'.filter (· ≠ j))

/-- The jobs that are active when a script comes to a place. -/
def Background (R : Rules ρ κ) (bg : Script ρ κ → Holding ρ κ → List κ) : Prop :=
  ∀ s h, Drifts R h.held h.active (bg s h)

theorem background_active (R : Rules ρ κ) : Background R fun _ h => h.active := fun _ _ => .refl

/-- No other job can be started. -/
def Rules.Closed (R : Rules ρ κ) (h : Holding ρ κ) : Prop :=
  (∀ x ∈ h.held, ∀ j ∈ R.wakes x, j ∈ h.active) ∧ ∀ i ∈ h.active, ∀ j ∈ R.starts i, j ∈ h.active

instance (R : Rules ρ κ) (h : Holding ρ κ) : Decidable (R.Closed h) := inferInstanceAs (Decidable (_ ∧ _))

/-- The jobs that can be active soon. -/
def Rules.spread (R : Rules ρ κ) (h : Holding ρ κ) : Holding ρ κ :=
  ⟨h.held, (h.held.flatMap R.wakes ++ h.active.flatMap R.starts) ∪ h.active⟩

theorem Drifts.subset {R : Rules ρ κ} {h : Holding ρ κ} (hclosed : R.Closed h) {active active' : List κ}
    (hdrift : Drifts R h.held active active') (hsub : active ⊆ h.active) : active' ⊆ h.active := by
  induction hdrift with
  | refl => exact hsub
  | wake _ hj ih =>
    intro i hi
    rcases List.mem_insert_iff.mp hi with rfl | hi
    · rcases hj with ⟨x, hx, hj⟩ | ⟨x, hx, hj⟩
      · exact hclosed.1 x hx i hj
      · exact hclosed.2 x (ih hx) i hj
    · exact ih hi
  | finish j _ ih => exact fun i hi => ih (List.mem_of_mem_filter hi)

theorem Within.drift {R : Rules ρ κ} {h h' : Holding ρ κ} (hin : h.Within h') (hclosed : R.Closed h') {active : List κ}
    (hdrift : Drifts R h.held h.active active) : Holding.Within ⟨h.held, active⟩ h' :=
  ⟨hin.held, Drifts.subset hclosed (hin.held ▸ hdrift) hin.active⟩

end Background

namespace Script

variable {ρ : Type u} {κ : Type v} [DecidableEq ρ] [DecidableEq κ] (R : Rules ρ κ)

/-! ## Runs and their ends -/

/-- What a release takes away. -/
def gone (r : ρ) (tree : Bool) (x : ρ) : Bool := x == r || (tree && R.below x r)

/-- What is left after a release; a fault if something that is left, here or elsewhere, uses what is taken away. -/
def dropOwn (others h : Holding ρ κ) (r : ρ) (tree must : Bool) : Option (Holding ρ κ) :=
  if r ∈ h.held then
    if (∀ x ∈ h.held.filter (!gone R r tree ·) ++ others.held, ∀ y ∈ h.held, gone R r tree y → R.uses x y = false) ∧
        ∀ j ∈ h.active.filter (!R.drains r ·) ++ others.active, ∀ y ∈ h.held, gone R r tree y → R.needs j y = false then
      some ⟨h.held.filter (!gone R r tree ·), h.active.filter (!R.drains r ·)⟩
    else none
  else if must then none else some h

/-- The error when a name is taken, where an attempt has no other. -/
def eTaken : Int := -17

omit [DecidableEq κ] in
/-- The error of an attempt, if it fails. -/
def attempt (fails : ρ → Option Int) (others h : Holding ρ κ) (r : ρ) : Option Int :=
  if r ∈ h.held ++ others.held then some ((fails r).getD eTaken) else fails r

/-- A run of a script, given which attempts fail, what the jobs do in the background and what the others hold: the value
it returns, and what is held then. -/
def run (fails : ρ → Option Int) (bg : Script ρ κ → Holding ρ κ → List κ) (others : Holding ρ κ) :
    Script ρ κ → Int → Holding ρ κ → Option (Int × Holding ρ κ)
  | done ret, e, h => some (ret.value e, ⟨h.held, bg (done ret) h⟩)
  | acquire r failed next, e, h =>
    match attempt fails others h r with
    | some e' => failed.run fails bg others e' ⟨h.held, bg (acquire r failed next) h⟩
    | none => next.run fails bg others e ⟨r :: h.held, bg (acquire r failed next) h⟩
  | drop r tree must next, e, h =>
    (dropOwn R others ⟨h.held, bg (drop r tree must next) h⟩ r tree must).bind (next.run fails bg others e)
  | branch rs all missing, e, h =>
    if ∀ r ∈ rs, r ∈ h.held then all.run fails bg others e ⟨h.held, bg (branch rs all missing) h⟩
    else missing.run fails bg others e ⟨h.held, bg (branch rs all missing) h⟩
  | setup j next, e, h =>
    if j ∈ bg (setup j next) h then none else next.run fails bg others e ⟨h.held, bg (setup j next) h⟩
  | start j next, e, h => next.run fails bg others e ⟨h.held, (bg (start j next) h).insert j⟩
  | stop j next, e, h => next.run fails bg others e ⟨h.held, (bg (stop j next) h).filter (· ≠ j)⟩

omit [DecidableEq ρ] in
/-- Before a step the jobs spread; what is found then must be all of them. -/
def guard (h : Holding ρ κ) (f : Holding ρ κ → List (Option (Ret × Holding ρ κ))) : List (Option (Ret × Holding ρ κ)) :=
  if R.Closed (R.spread (R.spread h)) then f (R.spread (R.spread h)) else [none]

/-- All ends of a script, with the jobs that may be active then; `none` where there may be a fault. Attempts to
acquire a name that is not taken may fail or not, unless `failing` is false. -/
def leaves (failing : Bool) : Script ρ κ → Holding ρ κ → List (Option (Ret × Holding ρ κ))
  | done ret, h => guard R h fun h => [some (ret, h)]
  | acquire r failed next, h => guard R h fun h =>
    if r ∈ h.held then failed.leaves failing h
    else (if failing then failed.leaves failing h else []) ++ next.leaves failing ⟨r :: h.held, h.active⟩
  | drop r tree must next, h => guard R h fun h =>
    match dropOwn R nothing h r tree must with
    | some h' => next.leaves failing h'
    | none => [none]
  | branch rs all missing, h => guard R h fun h =>
    if ∀ r ∈ rs, r ∈ h.held then all.leaves failing h else missing.leaves failing h
  | setup j next, h => guard R h fun h => if j ∈ h.active then [none] else next.leaves failing h
  | start j next, h => guard R h fun h => next.leaves failing ⟨h.held, h.active.insert j⟩
  | stop j next, h => guard R h fun h => next.leaves failing ⟨h.held, h.active.filter (· ≠ j)⟩

/-- The others use neither what a script holds nor what it may acquire. -/
structure Unused (others : Holding ρ κ) (held : List ρ) (s : Script ρ κ) : Prop where
  uses : ∀ x ∈ others.held, ∀ y ∈ held ++ s.names, R.uses x y = false
  needs : ∀ j ∈ others.active, ∀ y ∈ held ++ s.names, R.needs j y = false

variable {R} {others h h₀ : Holding ρ κ} {s s' : Script ρ κ} {fails : ρ → Option Int}
  {bg : Script ρ κ → Holding ρ κ → List κ}

section Names

omit [DecidableEq ρ] [DecidableEq κ]

variable {held held' : List ρ} {r : ρ}

/-- The names of the parts of a script, next to what is held then. -/
theorem names_failed : held ++ s.names ⊆ held ++ (acquire r s s').names := by
  simp [names, List.subset_def]
  tauto

theorem names_next : (r :: held) ++ s'.names ⊆ held ++ (acquire r s s').names := by
  simp [names, List.subset_def]
  tauto

theorem names_drop {tree must : Bool} (h : held' ⊆ held) : held' ++ s.names ⊆ held ++ (drop r tree must s).names :=
  List.append_subset.mpr ⟨fun _ hy => List.mem_append_left _ (h hy), fun _ hy => List.mem_append_right _ hy⟩

theorem names_all {rs : List ρ} : held ++ s.names ⊆ held ++ (branch rs s s').names := by
  simp [names, List.subset_def]
  tauto

theorem names_missing {rs : List ρ} : held ++ s'.names ⊆ held ++ (branch rs s s').names := by
  simp [names, List.subset_def]
  tauto

end Names

omit [DecidableEq ρ] [DecidableEq κ] in
theorem Unused.mono {held held' : List ρ} (h : Unused R others held s) (hsub : held' ++ s'.names ⊆ held ++ s.names) :
    Unused R others held' s' :=
  ⟨fun x hx y hy => h.uses x hx y (hsub hy), fun j hj y hy => h.needs j hj y (hsub hy)⟩

omit [DecidableEq ρ] in
/-- Where the check finds no fault, it has found all jobs. -/
theorem guard_eq {f : Holding ρ κ → List (Option (Ret × Holding ρ κ))} (hnone : none ∉ guard R h₀ f) :
    ∃ h₁, guard R h₀ f = f h₁ ∧ h₀.Within h₁ ∧ R.Closed h₁ := by
  unfold guard at hnone ⊢
  split at hnone
  · next hclosed =>
    refine ⟨_, if_pos hclosed, ⟨rfl, fun j hj => ?_⟩, hclosed⟩
    exact List.mem_union_iff.mpr (.inr (List.mem_union_iff.mpr (.inr hj)))
  · exact absurd (List.mem_singleton.mpr rfl) hnone

omit [DecidableEq κ] in
theorem attempt_neg (hfails : Negative fails) {r : ρ} {e : Int} (h : attempt fails others h₀ r = some e) : e < 0 := by
  unfold attempt at h
  split at h
  · rw [← Option.some.inj h]
    cases hr : fails r with
    | none => decide
    | some e' => exact hfails r e' hr
  · exact hfails r e h

omit [DecidableEq κ] in
/-- A release can be done with fewer jobs, and next to others that do not use what is held. -/
theorem dropOwn_within {r : ρ} {tree must : Bool} {h₁ : Holding ρ κ} (hin : h.Within h₀)
    (hunused : Unused R others h.held s)
    (hdrop : dropOwn R nothing h₀ r tree must = some h₁) :
    ∃ h', dropOwn R others h r tree must = some h' ∧ h'.Within h₁ ∧ h'.held ⊆ h.held := by
  obtain ⟨held, active⟩ := h
  obtain ⟨held₀, active₀⟩ := h₀
  obtain ⟨rfl : held = held₀, hactive : active ⊆ active₀⟩ := hin
  simp only [dropOwn, nothing, List.append_nil] at hdrop ⊢
  by_cases hr : r ∈ held
  · rw [if_pos hr] at hdrop
    rw [if_pos hr]
    split at hdrop
    · next hfree =>
      cases Option.some.inj hdrop
      rw [if_pos]
      · exact ⟨_, rfl, ⟨rfl, List.filter_subset _ hactive⟩, List.filter_sublist.subset⟩
      · -- the others use nothing of what is held, and there are no more jobs than the check has seen
        refine ⟨fun x hx y hy hgone => ?_, fun j hj y hy hgone => ?_⟩
        · rcases List.mem_append.mp hx with hx | hx
          · exact hfree.1 x hx y hy hgone
          · exact hunused.uses x hx y (List.mem_append_left _ hy)
        · rcases List.mem_append.mp hj with hj | hj
          · exact hfree.2 j (List.filter_subset _ hactive hj) y hy hgone
          · exact hunused.needs j hj y (List.mem_append_left _ hy)
    · cases hdrop
  · rw [if_neg hr] at hdrop
    rw [if_neg hr]
    cases must with
    | true => cases hdrop
    | false =>
      cases Option.some.inj hdrop
      exact ⟨_, rfl, ⟨rfl, hactive⟩, List.Subset.refl _⟩

/-- An end of a script as the check has found it: the value, what is held and jobs that may be active. -/
def EndsIn (R : Rules ρ κ) (out : Option (Int × Holding ρ κ)) (ends : List (Option (Ret × Holding ρ κ))) : Prop :=
  ∃ ret h' h₁ e', some (ret, h₁) ∈ ends ∧ e' < 0 ∧ out = some (ret.value e', h') ∧ h'.Within h₁ ∧ R.Closed h₁

omit [DecidableEq ρ] [DecidableEq κ] in
theorem EndsIn.mono {out : Option (Int × Holding ρ κ)} {ends ends' : List (Option (Ret × Holding ρ κ))}
    (h : EndsIn R out ends) (hsub : ends ⊆ ends') : EndsIn R out ends' := by
  obtain ⟨ret, h', h₁, e', hmem, hrest⟩ := h
  exact ⟨ret, h', h₁, e', hsub hmem, hrest⟩

/-- What the attempts of a script have to be like if they must not fail. -/
def Free (failing : Bool) (fails : ρ → Option Int) (others : Holding ρ κ) (s : Script ρ κ) : Prop :=
  failing = false → (∀ r, fails r = none) ∧ ∀ r ∈ s.names, r ∉ others.held

omit [DecidableEq ρ] [DecidableEq κ] in
theorem Free.mono {failing : Bool} (h : Free failing fails others s) (hsub : s'.names ⊆ s.names) :
    Free failing fails others s' :=
  fun hf => ⟨(h hf).1, fun r hr => (h hf).2 r (hsub hr)⟩

omit [DecidableEq κ] in
/-- Where nothing may fail, an attempt fails only if the script has the resource already. -/
theorem Free.attempt_eq_none {r : ρ} (hfree : Free false fails others s) (hname : r ∈ s.names) (hr : r ∉ h.held) :
    attempt fails others h r = none := by
  obtain ⟨hnever, hothers⟩ := hfree rfl
  rw [attempt, if_neg, hnever r]
  rw [List.mem_append, not_or]
  exact ⟨hr, hothers r hname⟩

omit [DecidableEq κ] in
/-- The ends of an attempt are those of the script that follows a failure and of the one that follows a success. -/
theorem EndsIn.attempt {failing : Bool} {r : ρ} {held : List ρ} {failed : Int → Option (Int × Holding ρ κ)}
    {next : Option (Int × Holding ρ κ)} {ends ends' : List (Option (Ret × Holding ρ κ))} (hfails : Negative fails)
    (hfree : Free failing fails others (acquire r s s')) (hheld : h.held = held)
    (hnone : none ∉ if r ∈ held then ends else (if failing then ends else []) ++ ends')
    (hfailed : ∀ e < 0, none ∉ ends → EndsIn R (failed e) ends) (hnext : none ∉ ends' → EndsIn R next ends') :
    EndsIn R (match Script.attempt fails others h r with | some e => failed e | none => next)
      (if r ∈ held then ends else (if failing then ends else []) ++ ends') := by
  subst hheld
  split at hnone
  · next hr =>
    have hattempt : Script.attempt fails others h r = some ((fails r).getD eTaken) :=
      if_pos (List.mem_append_left _ hr)
    rw [if_pos hr, hattempt]
    exact hfailed _ (attempt_neg hfails hattempt) hnone
  · next hr =>
    rw [if_neg hr]
    rw [List.mem_append, not_or] at hnone
    cases hattempt : Script.attempt fails others h r with
    | some e =>
      cases failing with
      | true => exact (hfailed e (attempt_neg hfails hattempt) hnone.1).mono (List.subset_append_left _ _)
      | false =>
        rw [hfree.attempt_eq_none (by simp [names]) hr] at hattempt
        cases hattempt
    | none => exact (hnext hnone.2).mono (List.subset_append_right _ _)

omit [DecidableEq ρ] in
/-- What the check knows when a run makes its next step. -/
theorem guard_now {f : Holding ρ κ → List (Option (Ret × Holding ρ κ))} (hbg : Background R bg) (s : Script ρ κ)
    (hin : h.Within h₀) (hnone : none ∉ guard R h₀ f) :
    ∃ h₁, guard R h₀ f = f h₁ ∧ R.Closed h₁ ∧ Holding.Within ⟨h.held, bg s h⟩ h₁ := by
  obtain ⟨h₁, hleaves, hin₁, hclosed⟩ := guard_eq hnone
  have hin' : h.Within h₁ := ⟨hin.held.trans hin₁.held, List.Subset.trans hin.active hin₁.active⟩
  exact ⟨h₁, hleaves, hclosed, Within.drift hin' hclosed (hbg s h)⟩

/-- **Runs end where the check says**, whatever fails, whatever the jobs do in the background and whatever the others
hold, as long as they do not use the names of the script. -/
theorem run_leaf {failing : Bool} (hfails : Negative fails) (hbg : Background R bg) {e : Int} (he : e < 0)
    (hin : h.Within h₀) (hunused : Unused R others h.held s) (hfree : Free failing fails others s)
    (hnone : none ∉ s.leaves R failing h₀) : EndsIn R (s.run R fails bg others e h) (s.leaves R failing h₀) := by
  induction s generalizing h h₀ e with
  | done ret =>
    obtain ⟨h₁, hleaves, hclosed, hnow⟩ := guard_now hbg (done ret) hin hnone
    simp only [leaves, hleaves]
    exact ⟨ret, _, h₁, e, List.mem_singleton.mpr rfl, he, rfl, hnow, hclosed⟩
  | acquire r failed next ihf ihn =>
    obtain ⟨h₁, hleaves, hclosed, hnow⟩ := guard_now hbg (acquire r failed next) hin hnone
    simp only [leaves, hleaves] at hnone ⊢
    refine EndsIn.attempt hfails hfree hnow.held hnone (fun e' he' hno => ?_) fun hno => ?_
    · exact ihf he' hnow (hunused.mono names_failed) (hfree.mono (by simp [names])) hno
    · have hin' : Holding.Within ⟨r :: h.held, bg (acquire r failed next) h⟩ ⟨r :: h₁.held, h₁.active⟩ :=
        ⟨congrArg (r :: ·) hnow.held, hnow.active⟩
      exact ihn he hin' (hunused.mono names_next) (hfree.mono (by simp [names])) hno
  | drop r tree must next ih =>
    obtain ⟨h₁, hleaves, hclosed, hnow⟩ := guard_now hbg (drop r tree must next) hin hnone
    simp only [leaves, hleaves] at hnone ⊢
    cases hdrop : dropOwn R nothing h₁ r tree must with
    | none =>
      rw [hdrop] at hnone
      exact absurd (List.mem_singleton.mpr rfl) hnone
    | some h₂ =>
      obtain ⟨h', hdrop', hin', hsub⟩ := dropOwn_within hnow hunused hdrop
      rw [hdrop] at hnone
      simp only [run, hdrop', Option.bind_some]
      exact ih he hin' (hunused.mono (names_drop hsub)) (hfree.mono (List.Subset.refl _)) hnone
  | branch rs all missing iha ihm =>
    obtain ⟨h₁, hleaves, hclosed, hnow⟩ := guard_now hbg (branch rs all missing) hin hnone
    have hiff : (∀ r ∈ rs, r ∈ h₁.held) ↔ ∀ r ∈ rs, r ∈ h.held := by rw [show h.held = h₁.held from hnow.held]
    simp only [leaves, hleaves, hiff] at hnone ⊢
    rw [run]
    split at hnone
    · next hall =>
      rw [if_pos hall, if_pos hall]
      exact iha he hnow (hunused.mono names_all) (hfree.mono (by simp [names])) hnone
    · next hall =>
      rw [if_neg hall, if_neg hall]
      exact ihm he hnow (hunused.mono names_missing) (hfree.mono (by simp [names])) hnone
  | setup j next ih =>
    obtain ⟨h₁, hleaves, hclosed, hnow⟩ := guard_now hbg (setup j next) hin hnone
    simp only [leaves, hleaves] at hnone ⊢
    split at hnone
    · exact absurd (List.mem_singleton.mpr rfl) hnone
    · next hj =>
      rw [if_neg hj, run, if_neg fun hmem => hj (hnow.active hmem)]
      exact ih he hnow (hunused.mono (List.Subset.refl _)) (hfree.mono (List.Subset.refl _)) hnone
  | start j next ih =>
    obtain ⟨h₁, hleaves, hclosed, hnow⟩ := guard_now hbg (start j next) hin hnone
    simp only [leaves, hleaves] at hnone ⊢
    refine ih he ⟨hnow.held, fun i hi => ?_⟩ (hunused.mono (List.Subset.refl _)) (hfree.mono (List.Subset.refl _)) hnone
    exact List.mem_insert_iff.mpr ((List.mem_insert_iff.mp hi).imp_right fun hi => hnow.active hi)
  | stop j next ih =>
    obtain ⟨h₁, hleaves, hclosed, hnow⟩ := guard_now hbg (stop j next) hin hnone
    simp only [leaves, hleaves] at hnone ⊢
    exact ih he ⟨hnow.held, List.filter_subset _ hnow.active⟩ (hunused.mono (List.Subset.refl _))
      (hfree.mono (List.Subset.refl _)) hnone

omit [DecidableEq ρ] in
theorem mem_guard {f : Holding ρ κ → List (Option (Ret × Holding ρ κ))} {ret : Ret} {h' : Holding ρ κ}
    (hmem : some (ret, h') ∈ guard R h₀ f) : ∃ h₁, h₁.held = h₀.held ∧ some (ret, h') ∈ f h₁ := by
  unfold guard at hmem
  split at hmem
  · exact ⟨R.spread (R.spread h₀), rfl, hmem⟩
  · cases List.mem_singleton.mp hmem

omit [DecidableEq κ] in
theorem dropOwn_subset {r : ρ} {tree must : Bool} {h' : Holding ρ κ} (h : dropOwn R others h₀ r tree must = some h') :
    h'.held ⊆ h₀.held := by
  unfold dropOwn at h
  split at h
  · split at h
    · cases Option.some.inj h
      exact List.filter_sublist.subset
    · cases h
  · split at h
    · cases h
    · cases Option.some.inj h
      exact List.Subset.refl _

/-- A script holds in the end only what it held or acquired. -/
theorem leaf_subset {failing : Bool} {ret : Ret} {h' : Holding ρ κ} (hmem : some (ret, h') ∈ s.leaves R failing h₀) :
    h'.held ⊆ h₀.held ++ s.names := by
  induction s generalizing h₀ with
  | done r =>
    obtain ⟨h₁, hheld, hmem⟩ := mem_guard hmem
    cases List.mem_singleton.mp hmem
    rw [hheld]
    exact List.subset_append_left _ _
  | acquire r failed next ihf ihn =>
    obtain ⟨h₁, hheld, hmem⟩ := mem_guard hmem
    rw [← hheld]
    split at hmem
    · exact List.Subset.trans (ihf hmem) names_failed
    · rcases List.mem_append.mp hmem with hmem | hmem
      · split at hmem
        · exact List.Subset.trans (ihf hmem) names_failed
        · cases hmem
      · exact List.Subset.trans (ihn hmem) names_next
  | drop r tree must next ih =>
    obtain ⟨h₁, hheld, hmem⟩ := mem_guard hmem
    rw [← hheld]
    split at hmem
    · next h₂ hdrop => exact List.Subset.trans (ih hmem) (names_drop (dropOwn_subset hdrop))
    · cases List.mem_singleton.mp hmem
  | branch rs all missing iha ihm =>
    obtain ⟨h₁, hheld, hmem⟩ := mem_guard hmem
    rw [← hheld]
    split at hmem
    · exact List.Subset.trans (iha hmem) names_all
    · exact List.Subset.trans (ihm hmem) names_missing
  | setup j next ih =>
    obtain ⟨h₁, hheld, hmem⟩ := mem_guard hmem
    rw [← hheld]
    split at hmem
    · cases List.mem_singleton.mp hmem
    · exact ih hmem
  | start j next ih | stop j next ih =>
    obtain ⟨h₁, hheld, hmem⟩ := mem_guard hmem
    have hsub := ih hmem
    rw [← hheld]
    exact hsub

end Script

/-! ## Modules -/

/-- A module: the script that loads it and the one that unloads it. -/
structure Module (ρ : Type u) (κ : Type v) where
  init : Script ρ κ
  exit : Script ρ κ

namespace Module

variable {ρ : Type u} {κ : Type v} [DecidableEq ρ] [DecidableEq κ] (R : Rules ρ κ)

omit [DecidableEq ρ] [DecidableEq κ] in
def names (M : Module ρ κ) : List ρ := M.init.names ++ M.exit.names

/-- The jobs that may be active when the module is loaded. -/
def jobs (M : Module ρ κ) : List κ :=
  (M.init.leaves R true nothing).flatMap fun leaf => leaf.elim [] fun p => p.2.active

/-- The end of a load is as it should be: no fault, nothing held after an error, and after a success everything that is
held is released by the other script. -/
def cleanLeaf (M : Module ρ κ) : Option (Ret × Holding ρ κ) → Bool
  | none => false
  | some (.ok, h) => (M.exit.leaves R true h).all fun leaf => leaf.any fun p => p.2 = nothing
  | some (.error code, h) => code != 0 && h = nothing
  | some (.last, h) => h = nothing

/-- The check of a module. -/
def clean (M : Module ρ κ) : Bool := (M.init.leaves R true nothing).all (M.cleanLeaf R)

/-- The check that a load in which nothing fails succeeds. -/
def succeeds (M : Module ρ κ) : Bool :=
  (M.init.leaves R false nothing).all fun leaf => leaf.any fun p => p.1 = .ok

/-- With nothing else registered, whatever fails and whatever the jobs do: a load that returns an error leaves nothing
registered and no job active, and after one that succeeds the other script, whatever fails then, releases and stops
everything. -/
def Balanced (M : Module ρ κ) : Prop :=
  ∀ fails bg, Negative fails → Background R bg →
    ∃ ret h, M.init.run R fails bg nothing (-1) nothing = some (ret, h) ∧ (ret ≠ 0 → h = nothing) ∧
      (ret = 0 → ∀ fails' bg', Negative fails' → Background R bg' →
        ∃ ret', M.exit.run R fails' bg' nothing (-1) h = some (ret', nothing))

variable {R} {M : Module ρ κ} {others h : Holding ρ κ} {fails : ρ → Option Int} {bg : Script ρ κ → Holding ρ κ → List κ}

theorem none_not_mem_init (hclean : M.clean R = true) : none ∉ M.init.leaves R true nothing := fun hmem =>
  absurd (List.all_eq_true.mp hclean none hmem) Bool.false_ne_true

/-- A state of a loaded module, as the check has found it. -/
def Settled (R : Rules ρ κ) (M : Module ρ κ) (h : Holding ρ κ) : Prop :=
  ∃ h₁, some (.ok, h₁) ∈ M.init.leaves R true nothing ∧ h.Within h₁ ∧ R.Closed h₁

theorem clean_load (hclean : M.clean R = true) (hfails : Negative fails) (hbg : Background R bg)
    (hunused : Script.Unused R others [] M.init) :
    ∃ ret h, M.init.run R fails bg others (-1) nothing = some (ret, h) ∧ (ret = 0 → Settled R M h) ∧
      (ret ≠ 0 → h = nothing) := by
  obtain ⟨ret, h, h₁, e, hleaf, he, hrun, hin, hclosed⟩ := Script.run_leaf hfails hbg (by decide : (-1 : Int) < 0)
    (Within.refl nothing) hunused (fun hf => by cases hf) (none_not_mem_init hclean)
  have hgood := List.all_eq_true.mp hclean _ hleaf
  cases ret with
  | ok => exact ⟨0, h, hrun, fun _ => ⟨h₁, hleaf, hin, hclosed⟩, fun hne => absurd rfl hne⟩
  | error code =>
    simp only [cleanLeaf, Bool.and_eq_true, bne_iff_ne, decide_eq_true_eq] at hgood
    obtain ⟨hcode, rfl⟩ := hgood
    refine ⟨-code, h, hrun, fun h0 => ?_, fun _ => hin.eq_nothing⟩
    exact absurd (by omega : (code : Int) = 0) (by exact_mod_cast hcode)
  | last =>
    simp only [cleanLeaf, decide_eq_true_eq] at hgood
    subst hgood
    exact ⟨e, h, hrun, fun h0 => absurd h0 (by omega), fun _ => hin.eq_nothing⟩

theorem clean_unload (hclean : M.clean R = true) (hsettled : Settled R M h) (hfails : Negative fails)
    (hbg : Background R bg) (hunused : Script.Unused R others h.held M.exit) :
    ∃ ret, M.exit.run R fails bg others (-1) h = some (ret, nothing) := by
  obtain ⟨h₁, hleaf, hin, -⟩ := hsettled
  have hall := List.all_eq_true.mp (List.all_eq_true.mp hclean _ hleaf)
  have hnone : none ∉ M.exit.leaves R true h₁ := fun hmem => absurd (hall none hmem) Bool.false_ne_true
  obtain ⟨ret, h', h₂, e, hend, he, hrun, hin', -⟩ :=
    Script.run_leaf hfails hbg (by decide : (-1 : Int) < 0) hin hunused
    (fun hf => by cases hf) hnone
  obtain rfl : h₂ = nothing := by simpa using hall _ hend
  exact ⟨ret.value e, by rw [hrun, hin'.eq_nothing]⟩

/-- Without failures and taken names a load succeeds. -/
theorem load_succeeds (hok : M.succeeds R = true) (hfails : ∀ r, fails r = none) (hbg : Background R bg)
    (hfree : ∀ r ∈ M.init.names, r ∉ others.held) (hunused : Script.Unused R others [] M.init) :
    ∃ h, M.init.run R fails bg others (-1) nothing = some (0, h) := by
  have hall := List.all_eq_true.mp hok
  have hnone : none ∉ M.init.leaves R false nothing := fun hmem => absurd (hall none hmem) Bool.false_ne_true
  have hneg : Negative fails := fun r e he => by
    rw [hfails r] at he
    cases he
  obtain ⟨ret, h, h₁, e, hleaf, he, hrun, -⟩ := Script.run_leaf hneg hbg (by decide : (-1 : Int) < 0)
    (Within.refl nothing) hunused (fun _ => ⟨hfails, hfree⟩) hnone
  obtain rfl : ret = .ok := by simpa using hall _ hleaf
  exact ⟨h, hrun⟩

/-- The check is sound. -/
theorem clean.balanced (hclean : M.clean R = true) : M.Balanced R := by
  have hunused : ∀ (held : List ρ) (s : Script ρ κ), Script.Unused R nothing held s := fun _ _ =>
    ⟨fun _ hx => (List.not_mem_nil hx).elim, fun _ hj => (List.not_mem_nil hj).elim⟩
  intro fails bg hfails hbg
  obtain ⟨ret, h, hrun, hok, herr⟩ := clean_load hclean hfails hbg (hunused _ _)
  exact ⟨ret, h, hrun, herr, fun h0 fails' bg' hfails' hbg' => clean_unload hclean (hok h0) hfails' hbg' (hunused _ _)⟩

/-- A failed load that leaves something behind. -/
theorem not_balanced_of_load (hfails : Negative fails) (hbg : Background R bg) {ret : Int}
    (hload : M.init.run R fails bg nothing (-1) nothing = some (ret, h)) (hret : ret ≠ 0) (hne : h ≠ nothing) :
    ¬M.Balanced R := by
  intro hbal
  obtain ⟨ret', h', hrun, herr, -⟩ := hbal fails bg hfails hbg
  cases hrun.symm.trans hload
  exact hne (herr hret)

/-- An unload that leaves something behind. -/
theorem not_balanced_of_unload {h' : Holding ρ κ} (hfails : Negative fails) (hbg : Background R bg)
    (hload : M.init.run R fails bg nothing (-1) nothing = some (0, h)) {ret : Int}
    (hunload : M.exit.run R fails bg nothing (-1) h = some (ret, h')) (hne : h' ≠ nothing) : ¬M.Balanced R := by
  intro hbal
  obtain ⟨ret₀, h₀, hrun, -, hexit⟩ := hbal fails bg hfails hbg
  cases hrun.symm.trans hload
  obtain ⟨ret', hrun'⟩ := hexit rfl fails bg hfails hbg
  cases hrun'.symm.trans hunload
  exact hne rfl

end Module

/-! ## All modules together -/

/-- What the modules hold, which of them are loaded, and what is registered besides. -/
structure Kernel (ι : Type w) (ρ : Type u) (κ : Type v) where
  holding : ι → Holding ρ κ
  loaded : ι → Bool
  orphans : Holding ρ κ

/-- Loads, with the attempts that fail and the value returned, unloads, and what the jobs of a module do by
themselves. -/
inductive ModEvent (ι : Type w) (ρ : Type u)
  | load (i : ι) (fails : ρ → Option Int) (ret : Int)
  | unload (i : ι) (fails : ρ → Option Int)
  | background (i : ι)

namespace Kernel

variable {ι : Type w} {ρ : Type u} {κ : Type v} [DecidableEq ι] [DecidableEq ρ] [DecidableEq κ] (R : Rules ρ κ)
  (mods : ι → Module ρ κ) (all : List ι)

/-- What is registered besides the resources of a module. -/
def others (k : Kernel ι ρ κ) (i : ι) : Holding ρ κ where
  held := k.orphans.held ++ (all.filter (· ≠ i)).flatMap fun j => (k.holding j).held
  active := k.orphans.active ++ (all.filter (· ≠ i)).flatMap fun j => (k.holding j).active

/-- A load, and what it gives. A load that returns an error leaves what it still holds behind, as an unload does. -/
inductive Step : Kernel ι ρ κ → ModEvent ι ρ → Kernel ι ρ κ → Prop
  | load {k : Kernel ι ρ κ} {i : ι} {fails : ρ → Option Int} {bg : Script ρ κ → Holding ρ κ → List κ} {ret : Int}
    {h : Holding ρ κ} : i ∈ all → k.loaded i = false → Negative fails → Background R bg →
    (mods i).init.run R fails bg (k.others all i) (-1) nothing = some (ret, h) →
    Step k (.load i fails ret) (if ret = 0 then
        { k with holding := Function.update k.holding i h, loaded := Function.update k.loaded i true }
      else { k with orphans := ⟨h.held ++ k.orphans.held, h.active ++ k.orphans.active⟩ })
  | unload {k : Kernel ι ρ κ} {i : ι} {fails : ρ → Option Int} {bg : Script ρ κ → Holding ρ κ → List κ} {ret : Int}
    {h : Holding ρ κ} : k.loaded i = true → Negative fails → Background R bg →
    (mods i).exit.run R fails bg (k.others all i) (-1) (k.holding i) = some (ret, h) →
    Step k (.unload i fails)
      { holding := Function.update k.holding i nothing
        loaded := Function.update k.loaded i false
        orphans := ⟨h.held ++ k.orphans.held, h.active ++ k.orphans.active⟩ }
  | background {k : Kernel ι ρ κ} {i : ι} {active : List κ} : k.loaded i = true →
    Drifts R (k.holding i).held (k.holding i).active active →
    Step k (.background i) { k with holding := Function.update k.holding i ⟨(k.holding i).held, active⟩ }

/-- All loads and unloads, from a kernel in which `base` is registered. -/
def system (base : Holding ρ κ) : System (Kernel ι ρ κ) (ModEvent ι ρ) where
  init k := k.holding = (fun _ => nothing) ∧ k.loaded = (fun _ => false) ∧ k.orphans = base
  step := Step R mods all

/-- The names of different modules, and of the modules and what is registered besides, are different and not used. -/
structure Independent (base : Holding ρ κ) : Prop where
  base_names : ∀ i ∈ all, ∀ x ∈ base.held, ∀ y ∈ (mods i).names, R.uses x y = false ∧ y ≠ x
  base_jobs : ∀ i ∈ all, ∀ j ∈ base.active, ∀ y ∈ (mods i).names, R.needs j y = false
  names_names : ∀ i ∈ all, ∀ j ∈ all, i ≠ j → ∀ x ∈ (mods i).names, ∀ y ∈ (mods j).names, R.uses x y = false ∧ y ≠ x
  jobs_names : ∀ i ∈ all, ∀ j ∈ all, i ≠ j → ∀ x ∈ (mods i).jobs R, ∀ y ∈ (mods j).names, R.needs x y = false

/-- Exactly the loaded modules hold anything. -/
structure Orderly (base : Holding ρ κ) (k : Kernel ι ρ κ) : Prop where
  orphans : k.orphans = base
  known : ∀ i, k.loaded i = true → i ∈ all
  idle : ∀ i, k.loaded i = false → k.holding i = nothing
  busy : ∀ i, k.loaded i = true → (mods i).Settled R (k.holding i)

variable {R mods all} {base : Holding ρ κ} {k : Kernel ι ρ κ}

omit [DecidableEq ι] in
theorem Orderly.held_subset (h : Orderly R mods all base k) (i : ι) : (k.holding i).held ⊆ (mods i).names := by
  cases hi : k.loaded i with
  | false =>
    rw [h.idle i hi]
    exact List.nil_subset _
  | true =>
    obtain ⟨h₁, hleaf, hin, -⟩ := h.busy i hi
    rw [hin.held]
    exact List.Subset.trans (Script.leaf_subset hleaf) (List.subset_append_left _ _)

omit [DecidableEq ι] in
theorem Orderly.active_subset (h : Orderly R mods all base k) (i : ι) : (k.holding i).active ⊆ (mods i).jobs R := by
  cases hi : k.loaded i with
  | false =>
    rw [h.idle i hi]
    exact List.nil_subset _
  | true =>
    obtain ⟨h₁, hleaf, hin, -⟩ := h.busy i hi
    exact fun j hj => List.mem_flatMap.mpr ⟨_, hleaf, hin.active hj⟩

/-- What is registered besides a module does not use its names. -/
theorem Orderly.unused (h : Orderly R mods all base k) (hind : Independent R mods all base) {i : ι} (hi : i ∈ all)
    {held : List ρ} {s : Script ρ κ} (hsub : held ++ s.names ⊆ (mods i).names) :
    Script.Unused R (k.others all i) held s := by
  constructor
  · intro x hx y hy
    rcases List.mem_append.mp hx with hx | hx
    · exact (hind.base_names i hi x (h.orphans ▸ hx) y (hsub hy)).1
    · obtain ⟨j, hj, hx⟩ := List.mem_flatMap.mp hx
      obtain ⟨hj, hne⟩ := List.mem_filter.mp hj
      exact (hind.names_names j hj i hi (by simpa using hne) x (h.held_subset j hx) y (hsub hy)).1
  · intro x hx y hy
    rcases List.mem_append.mp hx with hx | hx
    · exact hind.base_jobs i hi x (h.orphans ▸ hx) y (hsub hy)
    · obtain ⟨j, hj, hx⟩ := List.mem_flatMap.mp hx
      obtain ⟨hj, hne⟩ := List.mem_filter.mp hj
      exact hind.jobs_names j hj i hi (by simpa using hne) x (h.active_subset j hx) y (hsub hy)

/-- No name of a module is taken by something else. -/
theorem Orderly.not_taken (h : Orderly R mods all base k) (hind : Independent R mods all base) {i : ι} (hi : i ∈ all)
    {y : ρ} (hy : y ∈ (mods i).names) : y ∉ (k.others all i).held := by
  intro hx
  rcases List.mem_append.mp hx with hx | hx
  · exact (hind.base_names i hi y (h.orphans ▸ hx) y hy).2 rfl
  · obtain ⟨j, hj, hx⟩ := List.mem_flatMap.mp hx
    obtain ⟨hj, hne⟩ := List.mem_filter.mp hj
    exact (hind.names_names j hj i hi (by simpa using hne) y (h.held_subset j hx) y hy).2 rfl

/-- One module changes what it holds and whether it is loaded. -/
theorem Orderly.update (h : Orderly R mods all base k) {i : ι} {own : Holding ρ κ} {b : Bool}
    (hknown : b = true → i ∈ all) (hidle : b = false → own = nothing) (hbusy : b = true → (mods i).Settled R own) :
    Orderly R mods all base
      { k with holding := Function.update k.holding i own, loaded := Function.update k.loaded i b } := by
  refine ⟨h.orphans, fun j hj => ?_, fun j hj => ?_, fun j hj => ?_⟩ <;> by_cases hji : j = i
  · subst hji; exact hknown (by simpa using hj)
  · exact h.known j (by simpa [Function.update_of_ne hji] using hj)
  · subst hji; simpa using hidle (by simpa using hj)
  · simpa [Function.update_of_ne hji] using h.idle j (by simpa [Function.update_of_ne hji] using hj)
  · subst hji; simpa using hbusy (by simpa using hj)
  · simpa [Function.update_of_ne hji] using h.busy j (by simpa [Function.update_of_ne hji] using hj)

section Clean

variable (hclean : ∀ i ∈ all, (mods i).clean R = true) (hind : Independent R mods all base)
include hclean hind

/-- **Loads do not fault**, and what one leaves behind is nothing after an error. -/
theorem Orderly.load (h : Orderly R mods all base k) {i : ι} (hi : i ∈ all) {fails : ρ → Option Int}
    (hfails : Negative fails) {bg : Script ρ κ → Holding ρ κ → List κ} (hbg : Background R bg) :
    ∃ ret own, (mods i).init.run R fails bg (k.others all i) (-1) nothing = some (ret, own) ∧
      (ret = 0 → (mods i).Settled R own) ∧ (ret ≠ 0 → own = nothing) :=
  Module.clean_load (hclean i hi) hfails hbg (h.unused hind hi (List.subset_append_left _ _))

/-- **Unloads do not fault**, and leave nothing behind. -/
theorem Orderly.unload (h : Orderly R mods all base k) {i : ι} (hi : k.loaded i = true) {fails : ρ → Option Int}
    (hfails : Negative fails) {bg : Script ρ κ → Holding ρ κ → List κ} (hbg : Background R bg) :
    ∃ ret, (mods i).exit.run R fails bg (k.others all i) (-1) (k.holding i) = some (ret, nothing) :=
  Module.clean_unload (hclean i (h.known i hi)) (h.busy i hi) hfails hbg (h.unused hind (h.known i hi)
    (List.append_subset.mpr ⟨h.held_subset i, List.subset_append_right _ _⟩))

omit hclean in
/-- **A load in which no attempt fails succeeds**: no name is taken. -/
theorem Orderly.load_ok (h : Orderly R mods all base k) {i : ι} (hi : i ∈ all) (hok : (mods i).succeeds R = true)
    {fails : ρ → Option Int} (hfails : ∀ r, fails r = none) {bg : Script ρ κ → Holding ρ κ → List κ}
    (hbg : Background R bg) : ∃ own, (mods i).init.run R fails bg (k.others all i) (-1) nothing = some (0, own) :=
  Module.load_succeeds hok hfails hbg (fun _ hr => h.not_taken hind hi (List.mem_append_left _ hr))
    (h.unused hind hi (List.subset_append_left _ _))

theorem step_orderly {e : ModEvent ι ρ} {k' : Kernel ι ρ κ} (h : Orderly R mods all base k)
    (hstep : Step R mods all k e k') : Orderly R mods all base k' := by
  cases hstep with
  | @load i fails bg ret own hmem hi hfails hbg hrun =>
    obtain ⟨ret', own', hrun', hok, herr⟩ := h.load hclean hind hmem hfails hbg
    cases Option.some.inj (hrun.symm.trans hrun')
    split
    · next hret => exact h.update (fun _ => hmem) (fun hf => by cases hf) fun _ => hok hret
    · next hret =>
      cases herr hret
      exact ⟨h.orphans, h.known, h.idle, h.busy⟩
  | @unload i fails bg ret own hi hfails hbg hrun =>
    obtain ⟨ret', hrun'⟩ := h.unload hclean hind hi hfails hbg
    cases Option.some.inj (hrun.symm.trans hrun')
    exact h.update (fun hf => by cases hf) (fun _ => rfl) fun hf => by cases hf
  | @background i active hi hdrift =>
    obtain ⟨h₁, hleaf, hin, hclosed⟩ := h.busy i hi
    have hsettled : (mods i).Settled R ⟨(k.holding i).held, active⟩ :=
      ⟨h₁, hleaf, Within.drift hin hclosed hdrift, hclosed⟩
    have hupdate := h.update (b := true) (fun _ => h.known i hi) (fun hf => by cases hf) fun _ => hsettled
    rwa [← hi, Function.update_eq_self] at hupdate

/-- **Any loads and unloads, in any order and with any failures**: exactly the loaded modules hold anything. -/
theorem run_orderly {tr : List (ModEvent ι ρ)} (h : (system R mods all base).Run tr k) :
    Orderly R mods all base k := by
  refine h.invariant (I := Orderly R mods all base) ?_ fun _ _ _ hk hstep => step_orderly hclean hind hk hstep
  rintro k₀ ⟨hholding, hloaded, horphans⟩
  have hnone : ∀ i, k₀.loaded i ≠ true := fun i => by simp [hloaded]
  exact ⟨horphans, fun i hi => absurd hi (hnone i), fun i _ => by rw [hholding], fun i hi => absurd hi (hnone i)⟩

end Clean

end Kernel

end KernelModules.Lib
