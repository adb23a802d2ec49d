import Mathlib.Algebra.Order.Ring.Int
import Mathlib.Data.Fintype.BigOperators

/-!
# Transition systems and their runs

A system has initial states and labelled steps; the label of a step carries whatever an observer sees of it.
`M.Path s tr s'` says that the labels `tr` lead from `s` to `s'`, `M.Run tr s` that they lead there from an initial
state.

- paths compose and split (`Path.append`, `Path.split`), so a run can be cut at any label (`Run.cut`);
- `M.restrict ok` has only those steps of `M` that meet a condition; its runs are runs of `M` (`Run.of_restrict`);
- an invariant of the steps holds in every state of a run (`Run.invariant`), and a property of the history and the
  state is proved along a run by `Run.history`; `FollowedBy` is such a property (`followedBy_snoc`);
- a system that follows another one step by step has its runs, with the labels that count (`Run.simulate`);
- `M.observe o` has the steps of `M` with something noted of the state before each (`Run.of_observe`, `Run.observe`);
- `M.family ok` runs one copy of `M` for each index, one step of one copy at a time; each copy makes a run of `M`
  (`Run.component`), a path of one copy is a path of the family (`Path.lift`), and every label belongs to one copy
  (`sum_length_labelsOf`);
- `M.prod N` runs two systems side by side, one step of one of them at a time (`Run.fst`, `Run.snd`).
-/

namespace KernelModules.Lib

universe u v w x

/-- Initial states and labelled steps. -/
structure System (S : Type u) (E : Type v) where
  init : S → Prop
  step : S → E → S → Prop

namespace System

variable {S : Type u} {E : Type v} {M : System S E}

/-- The labels `tr` lead from one state to another. -/
inductive Path (M : System S E) : S → List E → S → Prop
  | nil (s : S) : Path M s [] s
  | cons {s s₁ s₂ : S} {e : E} {tr : List E} : M.step s e s₁ → Path M s₁ tr s₂ → Path M s (e :: tr) s₂

/-- The labels `tr` lead from an initial state to `s`. -/
def Run (M : System S E) (tr : List E) (s : S) : Prop := ∃ s₀, M.init s₀ ∧ M.Path s₀ tr s

/-- Paths compose. -/
theorem Path.append {s s₁ s₂ : S} {tr tr' : List E} (h : M.Path s tr s₁) (h' : M.Path s₁ tr' s₂) :
    M.Path s (tr ++ tr') s₂ := by
  induction h with
  | nil s => exact h'
  | cons hs _ ih => exact .cons hs (ih h')

/-- A path can be cut anywhere. -/
theorem Path.split {s s₂ : S} {tr' : List E} : ∀ {tr : List E}, M.Path s (tr ++ tr') s₂ →
    ∃ s₁, M.Path s tr s₁ ∧ M.Path s₁ tr' s₂
  | [], h => ⟨s, .nil s, h⟩
  | e :: tr, h => by
    cases h with
    | cons hs h =>
      obtain ⟨s₁, h₁, h₂⟩ := Path.split h
      exact ⟨s₁, .cons hs h₁, h₂⟩

/-- A path of one label is a step. -/
theorem Path.single {s s' : S} {e : E} (h : M.step s e s') : M.Path s [e] s' := .cons h (.nil s')

/-- What the steps keep, paths keep. -/
theorem Path.invariant {I : S → Prop} (hstep : ∀ s e s', I s → M.step s e s' → I s') {s s' : S} {tr : List E}
    (h : M.Path s tr s') (hs : I s) : I s' := by
  induction h with
  | nil s => exact hs
  | cons he _ ih => exact ih (hstep _ _ _ hs he)

/-- The empty run. -/
theorem Run.nil {s : S} (h : M.init s) : M.Run [] s := ⟨s, h, .nil s⟩

/-- A run goes on along a path. -/
theorem Run.extend {s s' : S} {tr tr' : List E} (h : M.Run tr s) (h' : M.Path s tr' s') : M.Run (tr ++ tr') s' := by
  obtain ⟨s₀, h₀, hp⟩ := h
  exact ⟨s₀, h₀, hp.append h'⟩

/-- A run goes on with a step. -/
theorem Run.snoc {s s' : S} {tr : List E} {e : E} (h : M.Run tr s) (h' : M.step s e s') : M.Run (tr ++ [e]) s' :=
  h.extend (.single h')

/-- A run can be cut at any of its labels: the state before the label, the step, and the rest. -/
theorem Run.cut {s : S} {tr tr' : List E} {e : E} (h : M.Run (tr ++ e :: tr') s) :
    ∃ s₁ s₂, M.Run tr s₁ ∧ M.step s₁ e s₂ ∧ M.Path s₂ tr' s := by
  obtain ⟨s₀, h₀, hp⟩ := h
  obtain ⟨s₁, h₁, h₂⟩ := hp.split
  cases h₂ with
  | cons he h₂ => exact ⟨s₁, _, ⟨s₀, h₀, h₁⟩, he, h₂⟩

/-- The steps that meet a condition on the state before and the label. -/
def restrict (M : System S E) (ok : S → E → Prop) : System S E where
  init := M.init
  step s e s' := M.step s e s' ∧ ok s e

theorem Path.of_restrict {ok : S → E → Prop} {s s' : S} {tr : List E} (h : (M.restrict ok).Path s tr s') :
    M.Path s tr s' := by
  induction h with
  | nil s => exact .nil s
  | cons he _ ih => exact .cons he.1 ih

/-- A path whose labels meet the condition everywhere. -/
theorem Path.restrict {ok : S → E → Prop} {s s' : S} {tr : List E} (h : M.Path s tr s') (hok : ∀ e ∈ tr, ∀ s, ok s e) :
    (M.restrict ok).Path s tr s' := by
  induction h with
  | nil s => exact .nil s
  | @cons s s₁ s₂ e tr he _ ih =>
    exact .cons ⟨he, hok e List.mem_cons_self s⟩ (ih fun e he => hok e (List.mem_cons_of_mem _ he))

theorem Run.of_restrict {ok : S → E → Prop} {s : S} {tr : List E} (h : (M.restrict ok).Run tr s) : M.Run tr s := by
  obtain ⟨s₀, h₀, hp⟩ := h
  exact ⟨s₀, h₀, hp.of_restrict⟩

/-- **Invariants.** What holds initially and is kept by every step holds at the end of every run. -/
theorem Run.invariant {I : S → Prop} (hinit : ∀ s, M.init s → I s) (hstep : ∀ s e s', I s → M.step s e s' → I s')
    {s : S} {tr : List E} (h : M.Run tr s) : I s := by
  obtain ⟨s₀, h₀, hp⟩ := h
  exact hp.invariant hstep (hinit s₀ h₀)

/-- **Histories.** Induction along a run on a property of the labels so far and the state they lead to. -/
theorem Run.history {P : List E → S → Prop} (hinit : ∀ s, M.init s → P [] s)
    (hstep : ∀ tr s e s', M.Run tr s → P tr s → M.step s e s' → P (tr ++ [e]) s')
    {s : S} {tr : List E} (h : M.Run tr s) : P tr s := by
  -- the path is consumed from the front, the part already walked grows at its end
  have key : ∀ {tr : List E} {s₁ s : S}, M.Path s₁ tr s → ∀ pre, M.Run pre s₁ → P pre s₁ → P (pre ++ tr) s := by
    intro tr s₁ s hp
    induction hp with
    | nil s => intro pre _ h; simpa using h
    | cons he _ ih =>
      intro pre hr h
      simpa using ih _ (hr.snoc he) (hstep _ _ _ _ hr h he)
  obtain ⟨s₀, h₀, hp⟩ := h
  simpa using key hp [] (.nil h₀) (hinit s₀ h₀)

/-- What the last label adds to a count. -/
theorem countP_snoc (q : E → Bool) (tr : List E) (e : E) : (tr ++ [e]).countP q = tr.countP q + (q e).toNat := by
  rw [List.countP_append, List.countP_singleton]
  cases q e <;> rfl

/-- What the last label adds to the labels that count. -/
theorem filterMap_snoc {F : Type w} (f : E → Option F) (tr : List E) (e : E) :
    (tr ++ [e]).filterMap f = tr.filterMap f ++ (f e).toList := by
  rw [List.filterMap_append]
  cases hf : f e <;> simp [hf]

/-- The last label counts if none before it does. -/
theorem findSome?_snoc {F : Type w} (f : E → Option F) (tr : List E) (e : E) :
    (tr ++ [e]).findSome? f = (tr.findSome? f).or (f e) := by
  rw [List.findSome?_append]
  cases hf : f e <;> simp [hf]

/-- Every label of the first kind has one of the second kind behind it. -/
def FollowedBy (p q : E → Bool) (tr : List E) : Prop :=
  ∀ pre e post, tr = pre ++ e :: post → p e = true → ∃ e' ∈ post, q e' = true

theorem followedBy_nil (p q : E → Bool) : FollowedBy p q [] := fun pre e post h => by
  simp at h

theorem followedBy_cons (p q : E → Bool) (e : E) (tr : List E) :
    FollowedBy p q (e :: tr) ↔ (p e = true → ∃ e' ∈ tr, q e' = true) ∧ FollowedBy p q tr := by
  constructor
  · intro h
    refine ⟨h [] e tr rfl, ?_⟩
    rintro pre x post rfl hx
    exact h (e :: pre) x post rfl hx
  · rintro ⟨he, h⟩ (_ | ⟨x, pre⟩) x post htr hx
    · cases htr
      exact he hx
    · cases htr
      exact h pre x post rfl hx

instance decidableFollowedBy (p q : E → Bool) : (tr : List E) → Decidable (FollowedBy p q tr)
  | [] => .isTrue (followedBy_nil p q)
  | e :: tr =>
    have := decidableFollowedBy p q tr
    decidable_of_iff _ (followedBy_cons p q e tr).symm

/-- The last label must not be of the first kind; one of the second kind settles all those before. -/
theorem followedBy_snoc (p q : E → Bool) (tr : List E) (e : E) :
    FollowedBy p q (tr ++ [e]) ↔ p e = false ∧ (q e = true ∨ FollowedBy p q tr) := by
  constructor
  · intro h
    refine ⟨Bool.eq_false_iff.mpr fun hp => ?_, or_iff_not_imp_left.mpr fun hq => ?_⟩
    · obtain ⟨e', he', -⟩ := h tr e [] rfl hp
      cases he'
    · rintro pre x post rfl hx
      obtain ⟨e', he', hq'⟩ := h pre x (post ++ [e]) (by simp) hx
      rcases List.mem_append.mp he' with he' | he'
      · exact ⟨e', he', hq'⟩
      · exact absurd (List.mem_singleton.mp he' ▸ hq') hq
  · rintro ⟨hp, hsettled⟩ pre x post htr hx
    rcases List.eq_nil_or_concat post with rfl | ⟨post, e', rfl⟩
    · have hlast := List.append_inj_right' htr rfl
      rw [List.singleton_inj.mp hlast, hx] at hp
      cases hp
    · rw [List.concat_eq_append, ← List.cons_append, ← List.append_assoc] at htr
      obtain rfl := List.singleton_inj.mp (List.append_inj_right' htr rfl)
      obtain rfl := List.append_inj_left' htr rfl
      rw [List.concat_eq_append]
      rcases hsettled with hq | h
      · exact ⟨e, List.mem_append_right _ List.mem_cons_self, hq⟩
      · obtain ⟨e', he', hq'⟩ := h pre x post rfl hx
        exact ⟨e', List.mem_append_left _ he', hq'⟩

/-! ## Simulation and observation -/

/-- **Simulation.** Every step of `M` is followed by `N` with the label that counts of it, or by nothing. -/
theorem Run.simulate {T : Type w} {F : Type x} {N : System T F} {f : E → Option F} {R : List E → S → T → Prop}
    (hinit : ∀ s, M.init s → ∃ t, N.init t ∧ R [] s t)
    (hstep : ∀ tr s e s' t, R tr s t → M.step s e s' → ∃ t', N.Path t (f e).toList t' ∧ R (tr ++ [e]) s' t')
    {s : S} {tr : List E} (h : M.Run tr s) : ∃ t, N.Run (tr.filterMap f) t ∧ R tr s t := by
  refine Run.history (P := fun tr s => ∃ t, N.Run (tr.filterMap f) t ∧ R tr s t) ?_ ?_ h
  · intro s hs
    obtain ⟨t, ht, hR⟩ := hinit s hs
    exact ⟨t, .nil ht, hR⟩
  · rintro tr s e s' - ⟨t, hrun, hR⟩ he
    obtain ⟨t', hpath, hR'⟩ := hstep tr s e s' t hR he
    refine ⟨t', ?_, hR'⟩
    rw [filterMap_snoc]
    exact hrun.extend hpath

/-- The steps of `M`, each with what `o` says of it and the state before it. -/
def observe {O : Type w} (M : System S E) (o : S → E → O) : System S (E × O) where
  init := M.init
  step s e s' := M.step s e.1 s' ∧ e.2 = o s e.1

theorem Run.of_observe {O : Type w} {o : S → E → O} {s : S} {tr : List (E × O)} (h : (M.observe o).Run tr s) :
    M.Run (tr.map Prod.fst) s := by
  refine Run.history (P := fun tr s => M.Run (tr.map Prod.fst) s) (fun s hs => .nil hs) ?_ h
  rintro tr s e s' - hrun ⟨he, -⟩
  rw [List.map_append]
  exact hrun.snoc he

/-- Every run can be observed. -/
theorem Run.observe {O : Type w} (o : S → E → O) {s : S} {tr : List E} (h : M.Run tr s) :
    ∃ tr', tr'.map Prod.fst = tr ∧ (M.observe o).Run tr' s := by
  refine Run.history (P := fun tr s => ∃ tr', tr'.map Prod.fst = tr ∧ (M.observe o).Run tr' s) ?_ ?_ h
  · exact fun s hs => ⟨[], rfl, .nil hs⟩
  · rintro tr s e s' - ⟨tr', rfl, hrun⟩ he
    exact ⟨tr' ++ [(e, o s e)], by simp, hrun.snoc ⟨he, rfl⟩⟩

/-! ## Families -/

section Family

variable {ι : Type w} [DecidableEq ι] {ok : (ι → S) → ι → E → Prop}

/-- A copy of `M` for each index. A step is a step of one copy that the states of all of them allow. -/
def family (M : System S E) (ok : (ι → S) → ι → E → Prop) : System (ι → S) (ι × E) where
  init s := ∀ i, M.init (s i)
  step s e s' := ∃ c, M.step (s e.1) e.2 c ∧ ok s e.1 e.2 ∧ s' = Function.update s e.1 c

/-- The labels of one copy. -/
def labelsOf (i : ι) (tr : List (ι × E)) : List E := tr.filterMap fun e => if e.1 = i then some e.2 else none

theorem labelsOf_self (i : ι) (tr : List (ι × E)) (e : E) : labelsOf i (tr ++ [(i, e)]) = labelsOf i tr ++ [e] := by
  simp [labelsOf]

theorem labelsOf_ne {i j : ι} (h : j ≠ i) (tr : List (ι × E)) (e : E) :
    labelsOf i (tr ++ [(j, e)]) = labelsOf i tr := by simp [labelsOf, h]

theorem mem_labelsOf {i : ι} {tr : List (ι × E)} {e : E} : e ∈ labelsOf i tr ↔ (i, e) ∈ tr := by
  simp [labelsOf]

/-- Every label belongs to one copy. -/
theorem sum_length_labelsOf [Fintype ι] (tr : List (ι × E)) :
    Finset.univ.sum (fun i => (labelsOf i tr).length) = tr.length := by
  induction tr with
  | nil => simp [labelsOf]
  | cons e tr ih =>
    have hcons : ∀ i, (labelsOf i (e :: tr)).length = (if e.1 = i then 1 else 0) + (labelsOf i tr).length := fun i => by
      by_cases hi : e.1 = i
      · simp [labelsOf, hi, Nat.add_comm]
      · simp [labelsOf, hi]
    simp only [hcons, Finset.sum_add_distrib, ih, Finset.sum_ite_eq, Finset.mem_univ, if_true, List.length_cons]
    exact Nat.add_comm 1 _

/-- **Components.** Every copy of a run of the family makes a run of its own. -/
theorem Run.component {s : ι → S} {tr : List (ι × E)} (h : (M.family ok).Run tr s) (i : ι) :
    M.Run (labelsOf i tr) (s i) := by
  refine @Run.history _ _ (M.family ok) (fun tr s => M.Run (labelsOf i tr) (s i)) (fun s hs => .nil (hs i)) ?_ _ _ h
  rintro tr s ⟨j, e⟩ s' - hrun ⟨c, hc, -, rfl⟩
  by_cases hj : j = i
  · subst hj
    rw [labelsOf_self, Function.update_self]
    exact hrun.snoc hc
  · rw [labelsOf_ne hj, Function.update_of_ne (Ne.symm hj)]
    exact hrun

/-- A path of one copy is a path of the family, if its labels are allowed everywhere. -/
theorem Path.lift {i : ι} {c c' : S} {tr : List E} (h : M.Path c tr c') (hok : ∀ e ∈ tr, ∀ s, ok s i e) (s : ι → S) :
    (M.family ok).Path (Function.update s i c) (tr.map fun e => (i, e)) (Function.update s i c') := by
  induction h with
  | nil c => exact .nil _
  | @cons c c₁ c₂ e tr he _ ih =>
    refine .cons ⟨c₁, ?_, hok e List.mem_cons_self _, (Function.update_idem ..).symm⟩
      (ih fun e he => hok e (List.mem_cons_of_mem _ he))
    rw [Function.update_self]
    exact he

end Family

/-! ## Products -/

section Product

variable {T : Type w} {F : Type x} {N : System T F}

/-- Two systems side by side. -/
def prod (M : System S E) (N : System T F) : System (S × T) (E ⊕ F) where
  init s := M.init s.1 ∧ N.init s.2
  step s e s' := match e with
    | .inl e => M.step s.1 e s'.1 ∧ s'.2 = s.2
    | .inr f => N.step s.2 f s'.2 ∧ s'.1 = s.1

/-- The first makes a run of its own. -/
theorem Run.fst {s : S × T} {tr : List (E ⊕ F)} (h : (M.prod N).Run tr s) : M.Run (tr.filterMap Sum.getLeft?) s.1 := by
  refine @Run.history _ _ (M.prod N) (fun tr s => M.Run (tr.filterMap Sum.getLeft?) s.1) (fun s hs => .nil hs.1)
    ?_ _ _ h
  rintro tr s (e | f) s' - hrun hstep
  · rw [filterMap_snoc]
    exact hrun.snoc hstep.1
  · rw [filterMap_snoc, hstep.2]
    simpa using hrun

/-- So does the second. -/
theorem Run.snd {s : S × T} {tr : List (E ⊕ F)} (h : (M.prod N).Run tr s) : N.Run (tr.filterMap Sum.getRight?) s.2 := by
  refine @Run.history _ _ (M.prod N) (fun tr s => N.Run (tr.filterMap Sum.getRight?) s.2) (fun s hs => .nil hs.2)
    ?_ _ _ h
  rintro tr s (e | f) s' - hrun hstep
  · rw [filterMap_snoc, hstep.2]
    simpa using hrun
  · rw [filterMap_snoc]
    exact hrun.snoc hstep.1

end Product

end System

end KernelModules.Lib
