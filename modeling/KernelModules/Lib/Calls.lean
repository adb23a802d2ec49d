import KernelModules.Lib.Threads

/-!
# Calls that are programs of atomic operations

A program performs one atomic operation after another on a shared state; what it does next may depend on the results
(`Prog`). Executed alone it gives a state and a value (`Prog.run`) and the operations with their results
(`Prog.events`). `callers` has any number of processes that make calls, with the operations of all of them interleaved
in any way.

- **Linearization.** Some operations change what is looked at of the state (`view`) and are called effective, the
  others are silent. If each program, alone in the view it finds, does just the effective operation that it did among
  others (`Prog.Linear`), then a run does to the view what the calls do that are executed one after another in the
  order of their effective operations, and with the same results (`run_linear`).
- **No call is lost.** If each program performs a certain kind of operation once or never (`Prog.Makes`), each process
  performs it for its calls, one by one in their order (`run_performed`).
- **Counting.** If such an operation only comes first in a program, or right behind certain others (`Prog.Paired`), a
  run has as many of it as it has occasions, up to the processes that are at it (`run_paired`).
-/

namespace KernelModules.Lib

universe u

/-- A program over operations `O` with results `R`. -/
inductive Prog (O : Type) (R : O → Type) (A : Type)
  | ret (a : A)
  | bind (o : O) (next : R o → Prog O R A)

namespace Prog

variable {O : Type} {R : O → Type} {A S V : Type} {sem : (o : O) → S → S × R o} {view : S → V}
  {eff : (o : O) → R o → Bool}

/-- The program executed alone. -/
def run (sem : (o : O) → S → S × R o) : Prog O R A → S → S × A
  | .ret a, s => (s, a)
  | .bind o next, s => (next (sem o s).2).run sem (sem o s).1

/-- The operations of the program executed alone, with their results. -/
def events (sem : (o : O) → S → S × R o) : Prog O R A → S → List (Σ o, R o)
  | .ret _, _ => []
  | .bind o next, s => ⟨o, (sem o s).2⟩ :: (next (sem o s).2).events sem (sem o s).1

/-- What is left of a program after some operations, whatever their results were. -/
inductive Rest : Prog O R A → Prog O R A → Prop
  | refl (p : Prog O R A) : Rest p p
  | step {p : Prog O R A} {o : O} {next : R o → Prog O R A} (r : R o) : Rest p (.bind o next) → Rest p (next r)

/-- A rest of a program is the program or a rest of what comes after its first operation. -/
theorem rest_bind {o : O} {next : R o → Prog O R A} {q : Prog O R A} (h : Rest (.bind o next) q) :
    q = .bind o next ∨ ∃ r, Rest (next r) q := by
  induction h with
  | refl => exact .inl rfl
  | @step o' next' r _ ih =>
    rcases ih with hq | ⟨r', hq⟩
    · rw [bind.injEq] at hq
      obtain ⟨rfl, hnext⟩ := hq
      obtain rfl := eq_of_heq hnext
      exact .inr ⟨r, .refl _⟩
    · exact .inr ⟨r', .step r hq⟩

theorem rest_ret {a : A} {q : Prog O R A} (h : Rest (.ret a) q) : q = .ret a := by
  induction h with
  | refl => rfl
  | step r _ ih => cases ih

/-! ## Effective operations -/

/-- An operation that is not effective leaves the view. -/
def Silent (sem : (o : O) → S → S × R o) (view : S → V) (eff : (o : O) → R o → Bool) : Prop :=
  ∀ o s, eff o (sem o s).2 = false → view (sem o s).1 = view s

/-- The effective operations of the program executed alone. -/
def effects (sem : (o : O) → S → S × R o) (eff : (o : O) → R o → Bool) (p : Prog O R A) (s : S) : List (Σ o, R o) :=
  (p.events sem s).filter fun e => eff e.1 e.2

/-- Nothing effective comes. -/
def Quiet (eff : (o : O) → R o → Bool) : Prog O R A → Prop
  | .ret _ => True
  | .bind o next => ∀ r, eff o r = false ∧ (next r).Quiet eff

/-- Whatever effective operation the program does among others, alone in this view it does just this one. -/
def Linear (sem : (o : O) → S → S × R o) (view : S → V) (eff : (o : O) → R o → Bool) (p : Prog O R A) : Prop :=
  ∀ o next, Rest p (.bind o next) → ∀ s s', view s' = view s → eff o (sem o s).2 = true →
    p.effects sem eff s' = [⟨o, (sem o s).2⟩] ∧ view (p.run sem s').1 = view (sem o s).1

theorem effects_bind (o : O) (next : R o → Prog O R A) (s : S) : (bind o next).effects sem eff s =
    (if eff o (sem o s).2 then [⟨o, (sem o s).2⟩] else []) ++ (next (sem o s).2).effects sem eff (sem o s).1 := by
  rw [effects, events, List.filter_cons]
  split
  · rfl
  · rfl

theorem Quiet.rest {p q : Prog O R A} (hp : p.Quiet eff) (h : Rest p q) : q.Quiet eff := by
  induction h with
  | refl => exact hp
  | step r _ ih => exact (ih r).2

theorem Quiet.effects {p : Prog O R A} (hp : p.Quiet eff) (s : S) : p.effects sem eff s = [] := by
  induction p generalizing s with
  | ret a => rfl
  | bind o next ih =>
    obtain ⟨ho, hnext⟩ := hp (sem o s).2
    rw [effects_bind, ho, ih _ hnext]
    rfl

theorem Quiet.view_run (hsilent : Silent sem view eff) {p : Prog O R A} (hp : p.Quiet eff) (s : S) :
    view (p.run sem s).1 = view s := by
  induction p generalizing s with
  | ret a => rfl
  | bind o next ih =>
    obtain ⟨ho, hnext⟩ := hp (sem o s).2
    rw [run, ih _ hnext, hsilent o s ho]

theorem Quiet.linear {p : Prog O R A} (hp : p.Quiet eff) : p.Linear sem view eff := by
  intro o next hrest s s' _ heff
  have := ((hp.rest hrest) (sem o s).2).1
  rw [heff] at this
  cases this

/-- One operation that looks at no more than the view, and nothing effective behind it. -/
theorem linear_single (hsilent : Silent sem view eff) {o : O} {next : R o → Prog O R A}
    (hview : ∀ s s', view s' = view s → (sem o s').2 = (sem o s).2 ∧ view (sem o s').1 = view (sem o s).1)
    (hnext : ∀ r, (next r).Quiet eff) : (bind o next).Linear sem view eff := by
  intro o' next' hrest s s' hs heff
  rcases rest_bind hrest with hq | ⟨r, hq⟩
  · rw [bind.injEq] at hq
    obtain ⟨rfl, -⟩ := hq
    obtain ⟨hres, hview'⟩ := hview s s' hs
    rw [effects_bind, run, hres, heff, (hnext _).effects, (hnext _).view_run hsilent, hview']
    exact ⟨rfl, rfl⟩
  · exact absurd heff (by simp [((hnext r).rest hq (sem o' s).2).1])

/-- A silent operation first. -/
theorem Linear.skip (hsilent : Silent sem view eff) {o : O} (ho : ∀ r, eff o r = false) {p : Prog O R A}
    (hp : p.Linear sem view eff) : (bind o fun _ => p).Linear sem view eff := by
  intro o' next' hrest s s' hs heff
  rcases rest_bind hrest with hq | ⟨r, hq⟩
  · rw [bind.injEq] at hq
    obtain ⟨rfl, -⟩ := hq
    rw [ho] at heff
    cases heff
  · have hview : view (sem o s').1 = view s := (hsilent o s' (ho _)).trans hs
    rw [effects_bind, ho, run]
    exact hp o' next' hq s _ hview heff

/-! ## Operations of one kind -/

/-- Every way through the program performs exactly `n` of the operations. -/
def Makes (kind : O → Bool) : Prog O R A → Nat → Prop
  | .ret _, n => n = 0
  | .bind o next, n => ∃ m, n = m + (kind o).toNat ∧ ∀ r, (next r).Makes kind m

/-- The first operation is of the kind. -/
def headIs (kind : O → Bool) : Prog O R A → Bool
  | .ret _ => false
  | .bind o _ => kind o

/-- Whatever the results are, only such operations are performed. -/
def All (q : O → Bool) : Prog O R A → Prop
  | .ret _ => True
  | .bind o next => q o = true ∧ ∀ r, (next r).All q

/-- Behind the first operation, those of the kind come right behind the occasions, and only there. -/
def Paired (kind : O → Bool) (occasion : (o : O) → R o → Bool) : Prog O R A → Prop
  | .ret _ => True
  | .bind o next => ∀ r, (next r).headIs kind = occasion o r ∧ (next r).Paired kind occasion

section All

variable {q q' kind : O → Bool} {occasion : (o : O) → R o → Bool} {p : Prog O R A}

theorem All.mono (hp : p.All q) (hq : ∀ o, q o = true → q' o = true) : p.All q' := by
  induction p with
  | ret a => trivial
  | bind o next ih => exact ⟨hq o hp.1, fun r => ih r (hp.2 r)⟩

theorem All.quiet {eff : (o : O) → R o → Bool} (hp : p.All q) (heff : ∀ o r, q o = true → eff o r = false) :
    p.Quiet eff := by
  induction p with
  | ret a => trivial
  | bind o next ih => exact fun r => ⟨heff o r hp.1, ih r (hp.2 r)⟩

theorem All.makes (hp : p.All q) (hkind : ∀ o, q o = true → kind o = false) : p.Makes kind 0 := by
  induction p with
  | ret a => rfl
  | bind o next ih =>
    obtain ⟨ho, hnext⟩ := hp
    exact ⟨0, by simp [hkind o ho], fun r => ih r (hnext r)⟩

theorem All.headIs (hp : p.All q) (hkind : ∀ o, q o = true → kind o = false) : p.headIs kind = false := by
  cases p with
  | ret a => rfl
  | bind o next => exact hkind o hp.1

theorem All.paired (hp : p.All q) (hkind : ∀ o, q o = true → kind o = false)
    (hoccasion : ∀ o r, q o = true → occasion o r = false) : p.Paired kind occasion := by
  induction p with
  | ret a => trivial
  | bind o next ih =>
    obtain ⟨ho, hnext⟩ := hp
    intro r
    exact ⟨by rw [hoccasion o r ho, (hnext r).headIs hkind], ih r (hnext r)⟩

end All

end Prog

/-! ## Calls among others -/

namespace Calls

variable {O : Type} {R : O → Type} {A S V C : Type} {sem : (o : O) → S → S × R o} {prog : C → Prog O R A}

inductive Act (O : Type) (R : O → Type) (A C : Type)
  | call (c : C)
  | atomic (c : C) (e : Σ o, R o)
  | ret (c : C) (a : A)

/-- A process is between two calls, or has some of a call's program before it. -/
inductive Pc (O : Type) (R : O → Type) (A C : Type)
  | idle
  | running (c : C) (rest : Prog O R A)

/-- One step of a process. -/
inductive Step (sem : (o : O) → S → S × R o) (prog : C → Prog O R A) :
    S → Pc O R A C → Act O R A C → S → Pc O R A C → Prop
  | call {s : S} (c : C) : Step sem prog s .idle (.call c) s (.running c (prog c))
  | atomic {s : S} {c : C} {o : O} {next : R o → Prog O R A} :
      Step sem prog s (.running c (.bind o next)) (.atomic c ⟨o, (sem o s).2⟩) (sem o s).1
        (.running c (next (sem o s).2))
  | ret {s : S} {c : C} {a : A} : Step sem prog s (.running c (.ret a)) (.ret c a) s .idle

variable {P : Type u} [DecidableEq P]

/-- Any number of processes, any calls, any interleaving of their operations. -/
def callers (P : Type u) [DecidableEq P] (sem : (o : O) → S → S × R o) (prog : C → Prog O R A) (s₀ : S) :
    System (Threads P S (Pc O R A C)) (P × Act O R A C) :=
  interleave (fun s => s = s₀) (fun l => l = .idle) fun _ => Step sem prog

variable {s₀ : S} {tr : List (P × Act O R A C)} {s : Threads P S (Pc O R A C)}

/-- What a process has before it is a rest of its call's program. -/
def Pc.RestOf (prog : C → Prog O R A) : Pc O R A C → Prop
  | .idle => True
  | .running c rest => (prog c).Rest rest

theorem step_restOf {g g' : S} {l l' : Pc O R A C} {a : Act O R A C} (h : Step sem prog g l a g' l')
    (hl : l.RestOf prog) : l'.RestOf prog := by
  cases h with
  | call c => exact .refl _
  | atomic => exact .step _ hl
  | ret => trivial

theorem run_restOf (h : (callers P sem prog s₀).Run tr s) (p : P) : (s.pc p).RestOf prog := by
  refine h.invariant (I := fun s => ∀ p, (s.pc p).RestOf prog) ?_ ?_ p
  · rintro s ⟨-, hidle⟩ p
    rw [hidle p]
    trivial
  · rintro s ⟨p, a⟩ _ hs ⟨g', l', hstep, rfl⟩
    exact (Function.forall_update_iff s.pc fun _ l => l.RestOf prog).mpr
      ⟨step_restOf hstep (hs p), fun q _ => hs q⟩

/-! ## Linearization -/

section Linear

variable {view : S → V} {eff : (o : O) → R o → Bool}

/-- The effective operation that a step is, with its call. -/
def commit (eff : (o : O) → R o → Bool) : P × Act O R A C → Option (C × Σ o, R o)
  | (_, .atomic c e) => if eff e.1 e.2 then some (c, e) else none
  | _ => none

/-- The calls with their effective operations and results, in the order of the operations. -/
def commits (eff : (o : O) → R o → Bool) (tr : List (P × Act O R A C)) : List (C × Σ o, R o) :=
  tr.filterMap (commit eff)

/-- Calls executed one after another: their effective operations and the state. -/
def replay (sem : (o : O) → S → S × R o) (prog : C → Prog O R A) (eff : (o : O) → R o → Bool) :
    List C → S → (List (Σ o, R o)) × S
  | [], s => ([], s)
  | c :: cs, s =>
    let rest := replay sem prog eff cs ((prog c).run sem s).1
    ((prog c).effects sem eff s ++ rest.1, rest.2)

theorem replay_snoc (cs : List C) (c : C) (s : S) : replay sem prog eff (cs ++ [c]) s =
    ((replay sem prog eff cs s).1 ++ (prog c).effects sem eff (replay sem prog eff cs s).2,
      ((prog c).run sem (replay sem prog eff cs s).2).1) := by
  induction cs generalizing s with
  | nil => simp [replay]
  | cons d cs ih => simp [replay, ih]

/-- **Linearization.** The effective operations of a run, their results and the view are those of the calls executed one
after another in the order of the operations. -/
theorem run_linear (hsilent : Prog.Silent sem view eff) (hlinear : ∀ c, (prog c).Linear sem view eff)
    (h : (callers P sem prog s₀).Run tr s) :
    (replay sem prog eff ((commits eff tr).map Prod.fst) s₀).1 = (commits eff tr).map Prod.snd ∧
      view (replay sem prog eff ((commits eff tr).map Prod.fst) s₀).2 = view s.shared := by
  refine System.Run.history (P := fun tr s =>
    (replay sem prog eff ((commits eff tr).map Prod.fst) s₀).1 = (commits eff tr).map Prod.snd ∧
      view (replay sem prog eff ((commits eff tr).map Prod.fst) s₀).2 = view s.shared) ?_ ?_ h
  · rintro s ⟨hs, -⟩
    exact ⟨rfl, by rw [hs]; rfl⟩
  · rintro tr s ⟨p, a⟩ _ hrun ⟨hevents, hview⟩ ⟨g', l', hstep, rfl⟩
    have hrest := run_restOf hrun p
    generalize hl : s.pc p = l at hstep hrest
    have hlast : commits eff (tr ++ [(p, a)]) = commits eff tr ++ (commit eff (p, a)).toList :=
      System.filterMap_snoc _ _ _
    rw [hlast]
    cases hstep with
    | call | ret => simpa [commit] using ⟨hevents, hview⟩
    | @atomic c o next =>
      cases heff : eff o (sem o s.shared).2 with
      | false =>
        have hsame : view (sem o s.shared).1 = view s.shared := hsilent o s.shared heff
        simpa [commit, heff, hsame] using ⟨hevents, hview⟩
      | true =>
        obtain ⟨heffects, hview'⟩ := hlinear c o next hrest s.shared _ hview heff
        simp only [commit, heff, if_true, Option.toList_some, List.map_append, List.map_cons, List.map_nil, replay_snoc,
          heffects, hevents, hview', and_self]

end Linear

/-! ## No call is lost -/

section Performed

variable {kind : O → Bool} {due : C → Bool}

def Act.called : Act O R A C → Option C
  | .call c => some c
  | _ => none

def Act.performs (kind : O → Bool) : Act O R A C → Option C
  | .atomic c e => if kind e.1 then some c else none
  | _ => none

/-- The calls of a process. -/
def issued (p : P) (tr : List (P × Act O R A C)) : List C := (System.labelsOf p tr).filterMap Act.called

/-- The calls for which a process has performed the operation. -/
def performed (kind : O → Bool) (p : P) (tr : List (P × Act O R A C)) : List C :=
  (System.labelsOf p tr).filterMap (Act.performs kind)

/-- The call for which a process has yet to perform it. -/
def Pc.Owes (kind : O → Bool) : Pc O R A C → List C → Prop
  | .idle, cs => cs = []
  | .running c rest, cs => ∃ owing : Bool, rest.Makes kind owing.toNat ∧ cs = if owing then [c] else []

/-- **One step**: a call that is due becomes owing, and its operation pays it off. -/
theorem step_owes (hprog : ∀ c, (prog c).Makes kind (due c).toNat) {g g' : S} {l l' : Pc O R A C} {a : Act O R A C}
    (h : Step sem prog g l a g' l') {cs : List C} (hcs : l.Owes kind cs) :
    ∃ cs', l'.Owes kind cs' ∧ cs ++ a.called.toList.filter due = (a.performs kind).toList ++ cs' := by
  cases h with
  | call c =>
    obtain rfl : cs = [] := hcs
    refine ⟨if due c then [c] else [], ⟨due c, hprog c, rfl⟩, ?_⟩
    cases hdue : due c <;> simp [Act.called, Act.performs, hdue]
  | @atomic c o next =>
    obtain ⟨owing, ⟨m, hm, hnext⟩, rfl⟩ := hcs
    -- either the operation is of the kind and the call was owing it, or nothing changes
    cases hkind : kind o with
    | false =>
      rw [hkind, Bool.toNat_false, Nat.add_zero] at hm
      exact ⟨_, ⟨owing, hm ▸ hnext _, rfl⟩, by simp [Act.called, Act.performs, hkind]⟩
    | true =>
      rw [hkind, Bool.toNat_true] at hm
      cases owing with
      | false => simp at hm
      | true =>
        obtain rfl : m = 0 := by simpa using hm.symm
        exact ⟨[], ⟨false, hnext _, rfl⟩, by simp [Act.called, Act.performs, hkind]⟩
  | ret =>
    obtain ⟨owing, hzero, rfl⟩ := hcs
    cases owing with
    | false => exact ⟨[], rfl, rfl⟩
    | true => cases hzero

/-- **No call is lost.** Each process performs the operation once for each call that is due, in their order. -/
theorem run_performed (hprog : ∀ c, (prog c).Makes kind (due c).toNat) (h : (callers P sem prog s₀).Run tr s) (p : P) :
    ∃ cs, (s.pc p).Owes kind cs ∧ (issued p tr).filter due = performed kind p tr ++ cs := by
  refine System.Run.history (P := fun tr s => ∃ cs, (s.pc p).Owes kind cs ∧
    (issued p tr).filter due = performed kind p tr ++ cs) ?_ ?_ h
  · rintro s ⟨-, hidle⟩
    exact ⟨[], by rw [hidle p]; rfl, rfl⟩
  · rintro tr s ⟨q, a⟩ _ - ⟨cs, hcs, hissued⟩ ⟨g', l', hstep, rfl⟩
    by_cases hq : q = p
    · subst hq
      obtain ⟨cs', hcs', hmove⟩ := step_owes hprog hstep hcs
      refine ⟨cs', by simpa using hcs', ?_⟩
      simp only [issued, performed, System.labelsOf_self, System.filterMap_snoc, List.filter_append] at hissued ⊢
      rw [hissued, List.append_assoc, hmove, List.append_assoc]
    · refine ⟨cs, ?_, ?_⟩
      · simpa only [Function.update_of_ne (Ne.symm hq)] using hcs
      · simpa only [issued, performed, System.labelsOf_ne hq] using hissued

theorem run_performed_idle (hprog : ∀ c, (prog c).Makes kind (due c).toNat) (h : (callers P sem prog s₀).Run tr s)
    {p : P} (hidle : s.pc p = .idle) : (issued p tr).filter due = performed kind p tr := by
  obtain ⟨cs, howes, hissued⟩ := run_performed hprog h p
  rw [hidle] at howes
  obtain rfl : cs = [] := howes
  rw [hissued, List.append_nil]

end Performed

/-! ## Counting -/

section Paired

variable {kind : O → Bool} {occasion : (o : O) → R o → Bool}

/-- A call that starts with an operation of the kind, or an occasion for one. -/
def Act.raises (prog : C → Prog O R A) (kind : O → Bool) (occasion : (o : O) → R o → Bool) : Act O R A C → Bool
  | .call c => (prog c).headIs kind
  | .atomic _ e => occasion e.1 e.2
  | .ret _ _ => false

/-- An operation of the kind. -/
def Act.isKind (kind : O → Bool) : Act O R A C → Bool
  | .atomic _ e => kind e.1
  | _ => false

/-- The process is at an operation of the kind. -/
def Pc.atKind (kind : O → Bool) : Pc O R A C → Bool
  | .idle => false
  | .running _ rest => rest.headIs kind

def Pc.Paired (kind : O → Bool) (occasion : (o : O) → R o → Bool) : Pc O R A C → Prop
  | .idle => True
  | .running _ rest => rest.Paired kind occasion

theorem step_paired (hprog : ∀ c, (prog c).Paired kind occasion) {g g' : S} {l l' : Pc O R A C} {a : Act O R A C}
    (h : Step sem prog g l a g' l') (hl : l.Paired kind occasion) : l'.Paired kind occasion ∧
      (l'.atKind kind).toNat + (a.isKind kind).toNat = (l.atKind kind).toNat + (a.raises prog kind occasion).toNat := by
  cases h with
  | call c => exact ⟨hprog c, by simp [Pc.atKind, Act.isKind, Act.raises]⟩
  | @atomic c o next =>
    obtain ⟨hhead, hnext⟩ := hl (sem o g).2
    refine ⟨hnext, ?_⟩
    show ((next (sem o g).2).headIs kind).toNat + (kind o).toNat = (kind o).toNat + (occasion o (sem o g).2).toNat
    rw [hhead, Nat.add_comm]
  | ret => exact ⟨trivial, rfl⟩

/-- **Every run** has as many operations of the kind as occasions for them, up to the processes that are at one. -/
theorem run_paired (hprog : ∀ c, (prog c).Paired kind occasion) (h : (callers P sem prog s₀).Run tr s) :
    ∃ n, Counts n (fun p => (s.pc p).atKind kind) ∧
      n + tr.countP (fun e => e.2.isKind kind) = tr.countP fun e => e.2.raises prog kind occasion := by
  have hstart : ∀ l : Pc O R A C, l = .idle → l.Paired kind occasion ∧ l.atKind kind = false := by
    rintro l rfl
    exact ⟨trivial, rfl⟩
  exact (interleave_tally_of_inv _ _ hstart (fun hstep hl => step_paired hprog hstep hl) h).2

end Paired

/-! ## Two processes -/

section Pair

variable {g g' : S} {l l' : Pc O R A C} {a : Act O R A C}

theorem callers_step_true (h : Step sem prog g l a g' l') (m : Pc O R A C) :
    (callers Bool sem prog s₀).step (pair g l m) (true, a) (pair g' l' m) := by
  unfold callers
  exact interleave_step_true h m

theorem callers_step_false (h : Step sem prog g l a g' l') (m : Pc O R A C) :
    (callers Bool sem prog s₀).step (pair g m l) (false, a) (pair g' m l') := by
  unfold callers
  exact interleave_step_false h m

end Pair

end Calls

end KernelModules.Lib
