import KernelModules.Lib.Threads

/-!
# Increments that are not atomic

A process increments a shared counter by a load and, some time later, a store of what it loaded plus one. `increments`
has every interleaving of such pairs; it notes the values taken.

- as long as nobody loads between another's load and store, the values taken are `0, 1, 2, …` (`Serial`);
- once somebody has, a value was taken twice and the counter stays behind for good (`Behind`);
- so the values are distinct exactly if no two pairs overlap (`taken_nodup_iff`), and the counter tells their number
  exactly then (`value_eq_iff`).

A program whose steps load and store a counter of its own does such increments (`Follows`, `Follows.agree`).
-/

namespace KernelModules.Lib.Increments

universe u v w x y

inductive Inc
  | load
  | store
  deriving DecidableEq

/-- The counter and the values that were loaded, in order. -/
structure Counter where
  value : Nat
  taken : List Nat

/-- One half of an increment; a process keeps the value between its load and its store. -/
inductive Step : Counter → Option Nat → Inc → Counter → Option Nat → Prop
  | load {g : Counter} : Step g none .load { g with taken := g.taken ++ [g.value] } (some g.value)
  | store {g : Counter} {w : Nat} : Step g (some w) .store { g with value := w + 1 } none

variable {P : Type u} [DecidableEq P]

/-- Any number of processes, each any number of times. -/
def increments : System (Threads P Counter (Option Nat)) (P × Inc) :=
  interleave (fun g => g = ⟨0, []⟩) (fun l => l = none) fun _ => Step

/-! ## Overlapping pairs -/

/-- The process has loaded and not yet stored. -/
def Pending (p : P) (tr : List (P × Inc)) : Prop := (System.labelsOf p tr).getLast? = some .load

/-- Somebody loads while somebody has loaded and not yet stored. -/
def Overlap (tr : List (P × Inc)) : Prop := ∃ pre p post, tr = pre ++ (p, .load) :: post ∧ ∃ q, Pending q pre

theorem pending_self (p : P) (tr : List (P × Inc)) (e : Inc) : Pending p (tr ++ [(p, e)]) ↔ e = .load := by
  simp [Pending, System.labelsOf_self]

theorem pending_ne {p q : P} (h : q ≠ p) (tr : List (P × Inc)) (e : Inc) :
    Pending p (tr ++ [(q, e)]) ↔ Pending p tr := by
  rw [Pending, System.labelsOf_ne h, Pending]

theorem not_overlap_nil : ¬Overlap ([] : List (P × Inc)) := by
  rintro ⟨pre, p, post, h, -⟩
  simp at h

theorem overlap_snoc (tr : List (P × Inc)) (p : P) (e : Inc) :
    Overlap (tr ++ [(p, e)]) ↔ Overlap tr ∨ (e = .load ∧ ∃ q, Pending q tr) := by
  constructor
  · rintro ⟨pre, q, post, h, hpending⟩
    rcases List.eq_nil_or_concat post with rfl | ⟨post, last, rfl⟩
    · obtain ⟨rfl, hlast⟩ := List.append_inj' h rfl
      simp only [List.cons.injEq, Prod.mk.injEq, and_true] at hlast
      exact .inr ⟨hlast.2, hpending⟩
    · rw [List.concat_eq_append, ← List.cons_append, ← List.append_assoc] at h
      exact .inl ⟨pre, q, post, (List.append_inj' h rfl).1, hpending⟩
  · rintro (⟨pre, q, post, rfl, hpending⟩ | ⟨rfl, hpending⟩)
    · exact ⟨pre, q, post ++ [(p, e)], by simp, hpending⟩
    · exact ⟨tr, p, [], rfl, hpending⟩

/-- Increments one after the other. -/
def inTurn (ps : List P) : List (P × Inc) := ps.flatMap fun p => [(p, .load), (p, .store)]

theorem not_overlap_inTurn (ps : List P) : ¬Overlap (inTurn ps) := by
  have key : ¬Overlap (inTurn ps) ∧ ∀ q, ¬Pending q (inTurn ps) := by
    induction ps using List.reverseRecOn with
    | nil => exact ⟨not_overlap_nil, fun q => by simp [inTurn, Pending, System.labelsOf]⟩
    | append_singleton ps p ih =>
      have hlast : inTurn (ps ++ [p]) = inTurn ps ++ [(p, .load)] ++ [(p, .store)] := by simp [inTurn]
      rw [hlast]
      refine ⟨?_, fun q => ?_⟩
      · rw [overlap_snoc, overlap_snoc]
        rintro ((ho | ⟨-, q, hq⟩) | ⟨h, -⟩)
        · exact ih.1 ho
        · exact ih.2 q hq
        · cases h
      · by_cases hq : p = q
        · rw [hq, pending_self]
          exact fun h => by cases h
        · rw [pending_ne hq, pending_ne hq]
          exact ih.2 q
  exact key.1

/-! ## One step -/

variable {tr : List (P × Inc)} {g g' : Counter} {pc : P → Option Nat} {l' : Option Nat} {p : P} {e : Inc}

/-- What holds in any case: the values lie below their number, and who is pending has loaded one. -/
structure Bounded (tr : List (P × Inc)) (g : Counter) (pc : P → Option Nat) : Prop where
  length : g.taken.length = tr.countP fun e => e.2 == .load
  value : g.value ≤ g.taken.length
  taken : ∀ w ∈ g.taken, w < g.taken.length
  loaded : ∀ p w, pc p = some w → w < g.taken.length
  pending : ∀ p, Pending p tr ↔ (pc p).isSome = true

/-- No two pairs have overlapped: at most one process is pending, with the counter's value. -/
structure Serial (g : Counter) (pc : P → Option Nat) : Prop where
  taken : g.taken = List.range g.taken.length
  idle : (∀ p, pc p = none) → g.value = g.taken.length
  loaded : ∀ p w, pc p = some w → w = g.value ∧ w + 1 = g.taken.length
  unique : ∀ p q, (pc p).isSome = true → (pc q).isSome = true → p = q

/-- Two pairs have overlapped: a value was taken twice, and whoever stores next does not make up for it. -/
structure Behind (g : Counter) (pc : P → Option Nat) : Prop where
  taken : ¬g.taken.Nodup
  value : g.value < g.taken.length
  loaded : ∀ p w, pc p = some w → w + 1 < g.taken.length

theorem step_pending (hpending : ∀ q, Pending q tr ↔ (pc q).isSome = true) (h : Step g (pc p) e g' l') :
    ∀ q, Pending q (tr ++ [(p, e)]) ↔ (Function.update pc p l' q).isSome = true := by
  refine (Function.forall_update_iff pc fun q l => Pending q (tr ++ [(p, e)]) ↔ l.isSome = true).mpr ⟨?_, ?_⟩
  · rw [pending_self]
    generalize pc p = l at h
    cases h <;> simp
  · intro q hq
    rw [pending_ne (Ne.symm hq)]
    exact hpending q

theorem Bounded.step (hg : Bounded tr g pc) (h : Step g (pc p) e g' l') :
    Bounded (tr ++ [(p, e)]) g' (Function.update pc p l') := by
  have hpending := step_pending hg.pending h
  have hvalue := hg.value
  generalize hl : pc p = l at h
  cases h with
  | load =>
    refine ⟨?_, ?_, ?_, ?_, hpending⟩
    · simp [hg.length]
    · simp only [List.length_append, List.length_singleton]
      omega
    · intro w hw
      simp only [List.mem_append, List.mem_singleton, List.length_append, List.length_singleton] at hw ⊢
      rcases hw with hw | rfl
      · exact Nat.lt_succ_of_lt (hg.taken w hw)
      · omega
    · simp only [List.length_append, List.length_singleton]
      refine (Function.forall_update_iff pc fun _ l => ∀ w, l = some w → w < g.taken.length + 1).mpr ⟨?_, ?_⟩
      · rintro w ⟨⟩
        omega
      · exact fun q _ w hw => Nat.lt_succ_of_lt (hg.loaded q w hw)
  | store =>
    refine ⟨?_, hg.loaded p _ hl, hg.taken, ?_, hpending⟩
    · simp [hg.length]
    · exact (Function.forall_update_iff pc fun _ l => ∀ w, l = some w → w < g.taken.length).mpr
        ⟨by simp, fun q _ w hw => hg.loaded q w hw⟩

/-- The pairs stay apart if nobody loads while somebody is pending. -/
theorem Serial.step (hg : Serial g pc) (h : Step g (pc p) e g' l') (hload : e = .load → ∀ q, pc q = none) :
    Serial g' (Function.update pc p l') := by
  generalize hl : pc p = l at h
  cases h with
  | load =>
    have hnone : ∀ q, pc q = none := hload rfl
    have hvalue : g.value = g.taken.length := hg.idle hnone
    have hsome : ∀ q, (Function.update pc p (some g.value) q).isSome = true → q = p := by
      intro q hq
      by_contra hne
      rw [Function.update_of_ne hne, hnone q] at hq
      cases hq
    refine ⟨?_, ?_, ?_, ?_⟩
    · simp only [List.length_append, List.length_singleton, List.range_succ, ← hg.taken, hvalue]
    · intro hidle
      have := hidle p
      simp at this
    · refine (Function.forall_update_iff pc fun _ l => ∀ w, l = some w →
        w = g.value ∧ w + 1 = (g.taken ++ [g.value]).length).mpr ⟨?_, fun q _ w hw => ?_⟩
      · rintro w ⟨⟩
        simp [hvalue]
      · rw [hnone q] at hw
        cases hw
    · exact fun q r hq hr => (hsome q hq).trans (hsome r hr).symm
  | store =>
    obtain ⟨-, hlen⟩ := hg.loaded p _ hl
    -- the one that was pending stores, so nobody is pending any more
    have hnone : ∀ q, Function.update pc p none q = none := by
      refine (Function.forall_update_iff pc fun _ l => l = none).mpr ⟨rfl, fun q hq => ?_⟩
      by_contra hpending
      exact hq (hg.unique q p (Option.isSome_iff_ne_none.mpr hpending) (by simp [hl]))
    refine ⟨hg.taken, fun _ => hlen, ?_, ?_⟩
    · intro q v hv
      rw [hnone q] at hv
      cases hv
    · intro q r hq
      rw [hnone q] at hq
      cases hq

/-- A load that overlaps takes a value again. -/
theorem Serial.overlap {q : P} (hg : Serial g pc) (h : Step g (pc p) .load g' l') (hq : (pc q).isSome = true) :
    Behind g' (Function.update pc p l') := by
  obtain ⟨w, hw⟩ := Option.isSome_iff_exists.mp hq
  obtain ⟨rfl, hlen⟩ := hg.loaded q w hw
  generalize pc p = l at h
  cases h with
  | load =>
    refine ⟨?_, ?_, ?_⟩
    · have hmem : g.value ∈ g.taken := by
        rw [hg.taken, List.mem_range]
        omega
      intro hnodup
      exact (List.nodup_append.mp hnodup).2.2 _ hmem _ (List.mem_singleton_self _) rfl
    · simp only [List.length_append, List.length_singleton]
      omega
    · simp only [List.length_append, List.length_singleton]
      refine (Function.forall_update_iff pc fun _ l => ∀ w, l = some w → w + 1 < g.taken.length + 1).mpr ⟨?_, ?_⟩
      · rintro w ⟨⟩
        omega
      · intro r _ w hr
        have := (hg.loaded r w hr).2
        omega

/-- No step catches up. -/
theorem Behind.step (hg : Behind g pc) (h : Step g (pc p) e g' l') : Behind g' (Function.update pc p l') := by
  have hvalue := hg.value
  generalize hl : pc p = l at h
  cases h with
  | load =>
    refine ⟨fun hnodup => hg.taken (List.nodup_append.mp hnodup).1, ?_, ?_⟩
    · simp only [List.length_append, List.length_singleton]
      omega
    · simp only [List.length_append, List.length_singleton]
      refine (Function.forall_update_iff pc fun _ l => ∀ w, l = some w → w + 1 < g.taken.length + 1).mpr ⟨?_, ?_⟩
      · rintro w ⟨⟩
        omega
      · exact fun r _ w hr => Nat.lt_succ_of_lt (hg.loaded r w hr)
  | store =>
    refine ⟨hg.taken, hg.loaded p _ hl, ?_⟩
    exact (Function.forall_update_iff pc fun _ l => ∀ w, l = some w → w + 1 < g.taken.length).mpr
      ⟨by simp, fun r _ w hr => hg.loaded r w hr⟩

/-! ## Runs -/

section Runs

variable {t : Threads P Counter (Option Nat)}

theorem run_bounded (h : increments.Run tr t) : Bounded tr t.shared t.pc := by
  refine System.Run.history (P := fun tr t => Bounded tr t.shared t.pc) ?_ ?_ h
  · rintro ⟨g, pc⟩ ⟨rfl, hnone⟩
    have hpc : ∀ p, pc p = none := hnone
    exact ⟨rfl, by simp, by simp, by simp [hpc], by simp [hpc, Pending, System.labelsOf]⟩
  · rintro tr t ⟨p, e⟩ _ - ht ⟨g', l', hstep, rfl⟩
    exact ht.step hstep

/-- **Every run** keeps its pairs apart, or has fallen behind. -/
theorem run_serial (h : increments.Run tr t) :
    (¬Overlap tr → Serial t.shared t.pc) ∧ (Overlap tr → Behind t.shared t.pc) := by
  refine System.Run.history
    (P := fun tr t => (¬Overlap tr → Serial t.shared t.pc) ∧ (Overlap tr → Behind t.shared t.pc)) ?_ ?_ h
  · rintro ⟨g, pc⟩ ⟨rfl, hnone⟩
    have hpc : ∀ p, pc p = none := hnone
    exact ⟨fun _ => ⟨rfl, fun _ => rfl, by simp [hpc], by simp [hpc]⟩, fun h => absurd h not_overlap_nil⟩
  · rintro tr t ⟨p, e⟩ _ hrun ⟨hserial, hbehind⟩ ⟨g', l', hstep, rfl⟩
    have hpending := (run_bounded hrun).pending
    rw [overlap_snoc]
    constructor
    · intro hnot
      refine (hserial fun ho => hnot (.inl ho)).step hstep fun he q => ?_
      by_contra hq
      exact hnot (.inr ⟨he, q, (hpending q).mpr (Option.isSome_iff_ne_none.mpr hq)⟩)
    · intro ho
      by_cases hbefore : Overlap tr
      · exact (hbehind hbefore).step hstep
      · obtain ⟨he, q, hq⟩ := ho.resolve_left hbefore
        subst he
        exact (hserial hbefore).overlap hstep ((hpending q).mp hq)

theorem run_length (h : increments.Run tr t) : t.shared.taken.length = tr.countP fun e => e.2 == .load :=
  (run_bounded h).length

/-- The counter is positive once somebody has stored. -/
theorem run_positive (h : increments.Run tr t) {p : P} (hp : (p, .store) ∈ tr) : 1 ≤ t.shared.value := by
  refine System.Run.history (P := fun tr t => (∃ p, (p, .store) ∈ tr) → 1 ≤ t.shared.value) ?_ ?_ h ⟨p, hp⟩
  · rintro t - ⟨p, hp⟩
    cases hp
  · rintro tr t ⟨q, e⟩ _ - ih ⟨g', l', hstep, rfl⟩ ⟨p, hp⟩
    generalize t.pc q = l at hstep
    cases hstep with
    | load => exact ih ⟨p, by simpa using hp⟩
    | store => exact Nat.le_add_left 1 _

/-- The values taken are distinct exactly if no two pairs overlap. -/
theorem taken_nodup_iff (h : increments.Run tr t) : t.shared.taken.Nodup ↔ ¬Overlap tr := by
  obtain ⟨hserial, hbehind⟩ := run_serial h
  refine ⟨fun hnodup ho => (hbehind ho).taken hnodup, fun hnot => ?_⟩
  rw [(hserial hnot).taken]
  exact List.nodup_range

/-- When nobody is pending the counter tells how many values were taken, exactly if no two pairs overlap. -/
theorem value_eq_iff (h : increments.Run tr t) (hidle : ∀ p, t.pc p = none) :
    t.shared.value = t.shared.taken.length ↔ ¬Overlap tr := by
  obtain ⟨hserial, hbehind⟩ := run_serial h
  exact ⟨fun hvalue ho => absurd hvalue (hbehind ho).value.ne, fun hnot => (hserial hnot).idle hidle⟩

end Runs

/-! ## Counters of a program -/

section Follows

variable {G : Type v} {L : Type w} {E : Type x} {α : Type y} {init : G → Prop} {start : L → Prop}
  {move : P → G → L → E → G → L → Prop} {counter : G → α} {loaded : L → Option α} {half : E → Option Inc} {next : α → α}

/-- What one step does to a counter of the shared state and to the value the process has loaded of it. -/
def Follows (counter : G → α) (loaded : L → Option α) (half : E → Option Inc) (next : α → α) (g : G) (l : L) (e : E)
    (g' : G) (l' : L) : Prop :=
  match half e with
  | none => counter g' = counter g ∧ loaded l' = loaded l
  | some .load => counter g' = counter g ∧ loaded l = none ∧ loaded l' = some (counter g)
  | some .store => loaded l' = none ∧ ∃ v, loaded l = some v ∧ counter g' = next v

/-- What a load sees of the counter. -/
def seen (counter : G → α) (half : E → Option Inc) (s : Threads P G L) (e : P × E) : Option α :=
  if half e.2 = some .load then some (counter s.shared) else none

/-- The half of an increment that a label is. -/
def halfOf (half : E → Option Inc) (e : P × E) : Option (P × Inc) := (half e.2).map fun i => (e.1, i)

omit [DecidableEq P] in
theorem countP_load_filterMap (half : E → Option Inc) (tr : List (P × E)) :
    (tr.filterMap (halfOf half)).countP (fun e => e.2 == .load) = tr.countP fun e => half e.2 == some .load := by
  rw [List.countP_filterMap]
  refine List.countP_congr fun e _ => ?_
  simp only [halfOf]
  cases half e.2 <;> simp

/-- The states of a program and of the increments it makes, from a first value on. -/
structure Agree (counter : G → α) (loaded : L → Option α) (next : α → α) (a : α) (ids : List α) (s : Threads P G L)
    (t : Threads P Counter (Option Nat)) : Prop where
  counter : counter s.shared = next^[t.shared.value] a
  loaded : ∀ p, loaded (s.pc p) = (t.pc p).map fun n => next^[n] a
  taken : ids = t.shared.taken.map fun n => next^[n] a

omit [DecidableEq P] in
theorem Agree.idle {a : α} {ids : List α} {s : Threads P G L} {t : Threads P Counter (Option Nat)}
    (h : Agree counter loaded next a ids s t) (hidle : ∀ p, loaded (s.pc p) = none) (p : P) : t.pc p = none := by
  have := h.loaded p
  rw [hidle p] at this
  exact Option.map_eq_none_iff.mp this.symm

/-- **One step** of a program is half an increment, or none. -/
theorem Agree.step {a : α} {ids : List α} {s : Threads P G L} {t : Threads P Counter (Option Nat)} {p : P} {e : E}
    {g' : G}
    {l' : L} (ht : Agree counter loaded next a ids s t)
    (h : Follows counter loaded half next s.shared (s.pc p) e g' l') :
    ∃ t', increments.Path t (halfOf half (p, e)).toList t' ∧
      Agree counter loaded next a (ids ++ (seen counter half s (p, e)).toList) ⟨g', Function.update s.pc p l'⟩ t' := by
  have hloaded : ∀ o : Option Nat, loaded l' = o.map (fun n => next^[n] a) → ∀ q,
      loaded (Function.update s.pc p l' q) = (Function.update t.pc p o q).map fun n => next^[n] a := by
    intro o ho q
    by_cases hq : q = p
    · subst hq
      simpa using ho
    · rw [Function.update_of_ne hq, Function.update_of_ne hq]
      exact ht.loaded q
  have hp := ht.loaded p
  unfold Follows at h
  cases hhalf : half e with
  | none =>
    simp only [hhalf] at h
    refine ⟨t, by simpa [halfOf, hhalf] using .nil t, ?_, ?_, ?_⟩
    · exact h.1.trans ht.counter
    · intro q
      rw [hloaded (t.pc p) (h.2.trans hp) q, Function.update_eq_self]
    · simpa [seen, hhalf] using ht.taken
  | some i =>
    cases i with
    | load =>
      simp only [hhalf] at h
      obtain ⟨hcounter, hnone, hsome⟩ := h
      have hfree : t.pc p = none := by simpa [hnone] using hp.symm
      refine ⟨⟨{ t.shared with taken := t.shared.taken ++ [t.shared.value] },
        Function.update t.pc p (some t.shared.value)⟩, ?_, ?_, ?_, ?_⟩
      · have hstep : increments.step t (p, .load) _ := ⟨_, _, by rw [hfree]; exact .load, rfl⟩
        simpa [halfOf, hhalf] using System.Path.single hstep
      · exact hcounter.trans ht.counter
      · exact hloaded _ (by rw [hsome, ht.counter]; rfl)
      · simp [seen, hhalf, ht.taken, ht.counter]
    | store =>
      simp only [hhalf] at h
      obtain ⟨hnone, v, hsome, hcounter⟩ := h
      rw [hsome] at hp
      obtain ⟨w, hw, hv⟩ := Option.map_eq_some_iff.mp hp.symm
      refine ⟨⟨{ t.shared with value := w + 1 }, Function.update t.pc p none⟩, ?_, ?_, ?_, ?_⟩
      · have hstep : increments.step t (p, .store) _ := ⟨_, _, by rw [hw]; exact .store, rfl⟩
        simpa [halfOf, hhalf] using System.Path.single hstep
      · rw [Function.iterate_succ_apply', hv]
        exact hcounter
      · exact hloaded _ hnone
      · simpa [seen, hhalf] using ht.taken

/-- **A program's increments.** If every step follows the counter, a run makes a run of increments; the counter, the
values loaded and those seen are the ones of that run. -/
theorem Follows.agree {a : α} (hinit : ∀ g, init g → counter g = a) (hstart : ∀ l, start l → loaded l = none)
    (hstep : ∀ {p g l e g' l'}, move p g l e g' l' → Follows counter loaded half next g l e g' l')
    {tr : List ((P × E) × Option α)} {s : Threads P G L}
    (h : ((interleave init start move).observe (seen counter half)).Run tr s) :
    ∃ t : Threads P Counter (Option Nat), increments.Run (tr.filterMap fun e => halfOf half e.1) t ∧
      Agree counter loaded next a (tr.filterMap Prod.snd) s t := by
  refine System.Run.simulate (R := fun tr s t => Agree counter loaded next a (tr.filterMap Prod.snd) s t) ?_ ?_ h
  · rintro s ⟨hg, hpc⟩
    exact ⟨⟨⟨0, []⟩, fun _ => none⟩, ⟨rfl, fun _ => rfl⟩, hinit _ hg, fun p => hstart _ (hpc p), rfl⟩
  · rintro tr s ⟨⟨p, e⟩, o⟩ _ t ht ⟨⟨g', l', he, rfl⟩, ho⟩
    dsimp only at ho
    subst ho
    obtain ⟨t', hpath, ht'⟩ := ht.step (hstep he)
    refine ⟨t', hpath, ?_⟩
    rw [System.filterMap_snoc]
    exact ht'

/-- The same for a run that nobody observes. -/
theorem Follows.agree_run {a : α} (hinit : ∀ g, init g → counter g = a) (hstart : ∀ l, start l → loaded l = none)
    (hstep : ∀ {p g l e g' l'}, move p g l e g' l' → Follows counter loaded half next g l e g' l')
    {tr : List (P × E)} {s : Threads P G L} (h : (interleave init start move).Run tr s) :
    ∃ (t : Threads P Counter (Option Nat)) (ids : List α), increments.Run (tr.filterMap (halfOf half)) t ∧
      Agree counter loaded next a ids s t := by
  obtain ⟨tr', rfl, hrun⟩ := h.observe (seen counter half)
  obtain ⟨t, ht, hagree⟩ := Follows.agree hinit hstart hstep hrun
  refine ⟨t, _, ?_, hagree⟩
  rw [List.filterMap_map]
  exact ht

end Follows

/-! ## Machine words -/

theorem iterate_add_one (a : Int32) (n : Nat) : (fun x : Int32 => x + 1)^[n] a = a + Int32.ofNat n := by
  induction n with
  | zero => simp
  | succ n ih =>
    rw [Function.iterate_succ_apply', ih, Int32.ofNat_add, Int32.add_assoc]
    rfl

theorem int32_ofNat_inj {n m : Nat} (hn : n < 2 ^ 32) (hm : m < 2 ^ 32) (h : Int32.ofNat n = Int32.ofNat m) :
    n = m := by
  have := congrArg (fun x : Int32 => x.toBitVec.toNat) h
  simp at this
  omega

section Words

variable {G : Type v} {L : Type w} {counter : G → Int32} {loaded : L → Option Int32} {a : Int32} {ids : List Int32}
  {s : Threads P G L} {t : Threads P Counter (Option Nat)}

/-- With fewer loads than words, those a program's loads see are distinct exactly if no two pairs overlap. -/
theorem Agree.nodup_iff (h : Agree counter loaded (· + 1) a ids s t) (hrun : increments.Run tr t)
    (hfew : t.shared.taken.length < 2 ^ 32) : ids.Nodup ↔ ¬Overlap tr := by
  rw [← taken_nodup_iff hrun, h.taken]
  constructor
  · exact List.Nodup.of_map _
  · intro hnodup
    refine hnodup.map_on fun n hn m hm heq => ?_
    have hlt := (run_bounded hrun).taken
    rw [iterate_add_one, iterate_add_one, Int32.add_right_inj] at heq
    exact int32_ofNat_inj ((hlt n hn).trans hfew) ((hlt m hm).trans hfew) heq

/-- When nobody is between the two halves, the word tells the loads exactly if no two pairs overlap. -/
theorem Agree.counter_eq_iff (h : Agree counter loaded (· + 1) a ids s t) (hrun : increments.Run tr t)
    (hfew : t.shared.taken.length < 2 ^ 32) (hidle : ∀ p, loaded (s.pc p) = none) :
    counter s.shared = a + Int32.ofNat t.shared.taken.length ↔ ¬Overlap tr := by
  rw [← value_eq_iff hrun (h.idle hidle), h.counter, iterate_add_one, Int32.add_right_inj]
  constructor
  · exact int32_ofNat_inj ((run_bounded hrun).value.trans_lt hfew) hfew
  · exact congrArg Int32.ofNat

end Words

end KernelModules.Lib.Increments
