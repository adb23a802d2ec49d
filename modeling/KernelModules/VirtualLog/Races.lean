import KernelModules.VirtualLog.Accesses

/-!
# Concurrent writers of the log

Without a lock, a writer can find room and be overtaken before it counts its entry.

- `addStep_effect`: what a step does to `log_count`, and to what its process has loaded of it;
- `virtual_log_two_writers`: two writers write at most one element behind `log_buffer`;
- `virtual_log_overrun`: with each further writer, an element one place further can be written, and the count then stays
  as high for ever.
-/

namespace KernelModules.VirtualLog

open Lib

universe u

/-! ## Two writers -/

/-- The process has found room and has not yet counted its entry. -/
def Pc.appends : Pc → Bool
  | .index .append _ _ | .assign .append _ _ _ | .loadId .append _ | .storeId .append _ _ => true
  | .loadCount | .storeCount _ => true
  | _ => false

/-- The count that a process has loaded for its increment. -/
def Pc.loaded : Pc → Option Int32
  | .storeCount v => some v
  | _ => none

/-- The index that a process has read lies at most one behind the array. -/
def Pc.Aimed : Pc → Prop
  | .assign _ _ _ slot => 0 ≤ slot ∧ slot ≤ 100
  | .shift _ k => k ≤ 98
  | _ => True

/-- What a step does to `log_count`. -/
inductive Effect : Int32 → Pc → Int32 → Pc → Prop
  | none {c : Int32} {l l' : Pc} : l'.appends = l.appends → l'.loaded = none → Effect c l c l'
  | enter {c : Int32} {l l' : Pc} : c < 100 → l'.appends = true → l'.loaded = none → Effect c l c l'
  | load {c : Int32} {l l' : Pc} : l.appends = true → l'.appends = true → l'.loaded = some c → Effect c l c l'
  | store {c v : Int32} {l l' : Pc} : l.appends = true → l.loaded = some v → l'.appends = false → l'.loaded = none →
      Effect c l (v + 1) l'

theorem Branch.after_effect (b : Branch) (m : Message) (f : Field) (slot : Int) :
    (b.after m f).appends = (Pc.assign b m f slot).appends ∧ (b.after m f).loaded = none := by
  cases b <;> cases f <;> exact ⟨rfl, rfl⟩

theorem addStep_effect {g g' : Vars} {l l' : Pc} {act : Act} (h : AddStep g l act g' l') :
    Effect g.logCount l g'.logCount l' := by
  cases h with
  | room hroom => exact .enter hroom rfl rfl
  | loadCount => exact .load rfl rfl rfl
  | storeCount => exact .store rfl rfl rfl rfl
  | @assign b m f slot => exact .none (b.after_effect m f slot).1 (b.after_effect m f slot).2
  | @index b | @loadId b | @storeId b => cases b <;> exact .none rfl rfl
  | _ => exact .none rfl rfl

/-- The indices, as long as the count is right. -/
theorem addStep_aimed {g g' : Vars} {l l' : Pc} {act : Act} (h : AddStep g l act g' l') (hl : l.Aimed)
    (hcount : l.appends = true → 0 ≤ g.logCount.toInt ∧ g.logCount.toInt ≤ 100) : l'.Aimed := by
  cases h with
  | full => exact Nat.zero_le 98
  | shift hk => exact hk
  | @index b =>
    cases b with
    | append => exact hcount rfl
    | overwrite => exact (show (0 : Int) ≤ 99 ∧ (99 : Int) ≤ 100 by decide)
  | @assign b _ f => cases b <;> cases f <;> trivial
  | _ => trivial

/-- The element that a step writes. -/
theorem addStep_write {g g' : Vars} {l l' : Pc} {i : Int} (h : AddStep g l (.write i) g' l') (hl : l.Aimed) :
    0 ≤ i ∧ i ≤ 100 := by
  rcases addStep_written h with hi | ⟨_, _, _, rfl⟩
  · omega
  · exact hl

theorem Pc.appends_of_loaded {l : Pc} {v : Int32} (h : l.loaded = some v) : l.appends = true := by
  cases l with
  | storeCount => rfl
  | _ => cases h

/-- What a process has loaded is below 100, or still the count. -/
def Pc.Recent (c : Int32) (l : Pc) : Prop := ∀ v, l.loaded = some v → 0 ≤ v.toInt ∧ (v.toInt ≤ 99 ∨ v = c)

theorem Pc.Recent.of_none {c : Int32} {l : Pc} (h : l.loaded = none) : l.Recent c := by
  intro v hv
  rw [h] at hv
  cases hv

section Two

variable {P : Type u}

/-- The count with two writers: it passes 100 only when both have found room before, and then neither finds room
again. -/
structure Overshoots (c : Int32) (pc : P → Pc) : Prop where
  nonneg : 0 ≤ c.toInt
  count : c.toInt ≤ 101
  one : ∀ p, (pc p).appends = true → c.toInt ≤ 100
  both : ∀ p q, p ≠ q → (pc p).appends = true → (pc q).appends = true → c.toInt ≤ 99
  recent : ∀ p, (pc p).Recent c

/-- The same processes append, and the count is the same. -/
theorem Overshoots.of_appends {c : Int32} {pc pc' : P → Pc} (h : Overshoots c pc)
    (happends : ∀ q, (pc' q).appends = (pc q).appends) (hrecent : ∀ q, (pc' q).Recent c) : Overshoots c pc' where
  nonneg := h.nonneg
  count := h.count
  one q hq := h.one q (happends q ▸ hq)
  both q r hne hq hr := h.both q r hne (happends q ▸ hq) (happends r ▸ hr)
  recent := hrecent

variable [DecidableEq P]

theorem appends_update {pc : P → Pc} {p : P} {l : Pc} (h : l.appends = (pc p).appends) (q : P) :
    (Function.update pc p l q).appends = (pc q).appends := by
  by_cases hq : q = p
  · rw [hq, Function.update_self, h]
  · rw [Function.update_of_ne hq]

/-- A process that stops appending is another one than those that append. -/
theorem ne_of_appends {pc : P → Pc} {p q : P} {l : Pc} (h : l.appends = false)
    (hq : (Function.update pc p l q).appends = true) : q ≠ p ∧ (pc q).appends = true := by
  by_cases hqp : q = p
  · rw [hqp, Function.update_self, h] at hq
    cases hq
  · rw [Function.update_of_ne hqp] at hq
    exact ⟨hqp, hq⟩

/-- **A step** of one of two writers. -/
theorem Overshoots.step {c c' : Int32} {pc : P → Pc} {p : P} {l' : Pc} (htwo : ∀ p q r : P, p = q ∨ q = r ∨ p = r)
    (h : Overshoots c pc) (heffect : Effect c (pc p) c' l') : Overshoots c' (Function.update pc p l') := by
  have hrecent : l'.Recent c → ∀ q, (Function.update pc p l' q).Recent c := fun hl =>
    (Function.forall_update_iff pc fun _ l => l.Recent c).mpr ⟨hl, fun q _ => h.recent q⟩
  generalize hl : pc p = l at heffect
  cases heffect with
  | none happ hload => exact h.of_appends (appends_update (by rw [hl, happ])) (hrecent (.of_none hload))
  | enter hroom happ hload =>
    rw [lt_hundred_iff] at hroom
    exact ⟨h.nonneg, h.count, fun q _ => by omega, fun q r _ _ _ => by omega, hrecent (.of_none hload)⟩
  | load happ happ' hload =>
    refine h.of_appends (appends_update (by rw [hl, happ, happ'])) (hrecent fun v hv => ?_)
    cases hload.symm.trans hv
    exact ⟨h.nonneg, .inr rfl⟩
  | @store v _ _ happ hload happ' hload' =>
    obtain ⟨hv, hcases⟩ := h.recent p v (hl ▸ hload)
    have hone := h.one p (hl ▸ happ)
    have hle : v.toInt ≤ 100 := by rcases hcases with hle | rfl <;> omega
    have hnext := toInt_add_one hv hle
    -- the other writer, if it has found room as well, has kept the count below 100
    have hboth : ∀ q, q ≠ p → (pc q).appends = true → c.toInt ≤ 99 := fun q hq hqa => h.both q p hq hqa (hl ▸ happ)
    refine ⟨by omega, by omega, fun q hq => ?_, fun q r hne hq hr => ?_, ?_⟩
    · obtain ⟨hqp, hqa⟩ := ne_of_appends happ' hq
      have := hboth q hqp hqa
      rcases hcases with hle | rfl <;> omega
    · rcases htwo q r p with h' | h' | h'
      · exact absurd h' hne
      · exact absurd h' (ne_of_appends happ' hr).1
      · exact absurd h' (ne_of_appends happ' hq).1
    · refine (Function.forall_update_iff pc fun _ l => l.Recent (v + 1)).mpr ⟨.of_none hload', fun q hq w hw => ?_⟩
      obtain ⟨hw0, hwcases⟩ := h.recent q w hw
      have := hboth q hq (Pc.appends_of_loaded hw)
      exact ⟨hw0, .inl (by rcases hwcases with hle | rfl <;> omega)⟩

variable {clock : Nat → UInt64} {tr : List (P × Act)} {s : Threads P Vars Pc}

/-- **Every run** of two writers. -/
theorem run_overshoots (htwo : ∀ p q r : P, p = q ∨ q = r ∨ p = r) (h : (logWriters P clock).Run tr s) :
    Overshoots s.shared.logCount s.pc ∧ ∀ p, (s.pc p).Aimed := by
  refine System.Run.invariant (I := fun s => Overshoots s.shared.logCount s.pc ∧ ∀ p, (s.pc p).Aimed) ?_ ?_ h
  · rintro s ⟨⟨hcount, -⟩, hpc⟩
    have hidle : ∀ p, s.pc p = .idle := hpc
    have hfive : s.shared.logCount.toInt = 5 := by
      rw [hcount]
      rfl
    refine ⟨⟨by omega, by omega, fun p _ => by omega, fun p q _ _ _ => by omega, fun p => ?_⟩, fun p => ?_⟩
    · rw [hidle p]
      exact .of_none rfl
    · rw [hidle p]
      trivial
  · rintro s ⟨p, act⟩ _ ⟨hs, haimed⟩ ⟨g', l', hstep, rfl⟩
    refine ⟨hs.step htwo (addStep_effect hstep), ?_⟩
    exact (Function.forall_update_iff s.pc fun _ l => l.Aimed).mpr
      ⟨addStep_aimed hstep (haimed p) fun happ => ⟨hs.nonneg, hs.one p happ⟩, fun q _ => haimed q⟩

end Two

/-! ## Further writers -/

section Overrun

variable {P : Type u} [DecidableEq P] (clock : Nat → UInt64)

/-- A process that is alone can bring the count to 99. -/
theorem run_alone (m : Message) (p : P) : ∀ k : Nat, k ≤ 94 →
    ∃ tr g, (logWriters P clock).Run tr ⟨g, fun _ => .idle⟩ ∧ g.logCount = Int32.ofNat (5 + k)
  | 0, _ => ⟨[], loadedVars clock, .nil ⟨loadedVars_loaded clock, fun _ => rfl⟩, rfl⟩
  | k + 1, hk => by
    obtain ⟨tr, g, hrun, hg⟩ := run_alone m p k (by omega)
    have hroom : g.logCount < 100 := by
      rw [hg, lt_hundred_iff, Int32.toInt_ofNat_of_lt (by omega)]
      omega
    obtain ⟨tr₁, henter⟩ := path_enter clock m hroom (fun _ => .idle) p
    obtain ⟨tr₂, g', hfinish, hg', -⟩ := path_finish clock m g (fun _ => .idle) p
    rw [Function.update_eq_self_iff.mpr rfl] at henter hfinish
    refine ⟨_, g', hrun.extend (henter.append hfinish), ?_⟩
    rw [hg', hg, ← Nat.add_assoc, Int32.ofNat_add (5 + k) 1]
    rfl

/-- Of the writers, those below `k` are at one place and the others at another one. -/
def Split {n : Nat} (k : Nat) (l l' : Pc) (pc : Fin n → Pc) : Prop :=
  (∀ q : Fin n, q.val < k → pc q = l) ∧ ∀ q : Fin n, k ≤ q.val → pc q = l'

theorem Split.next {n k : Nat} {l l' : Pc} {pc : Fin n → Pc} (h : Split k l l' pc) (hk : k < n) :
    Split (k + 1) l l' (Function.update pc ⟨k, hk⟩ l) := by
  refine ⟨fun q hq => ?_, fun q hq => ?_⟩
  · by_cases hqp : q = ⟨k, hk⟩
    · rw [hqp, Function.update_self]
    · have hne : q.val ≠ k := fun heq => hqp (Fin.ext heq)
      rw [Function.update_of_ne hqp]
      exact h.1 q (by omega)
  · have hqp : q ≠ ⟨k, hk⟩ := fun heq => by
      rw [heq] at hq
      exact absurd hq (Nat.not_succ_le_self k)
    rw [Function.update_of_ne hqp]
    exact h.2 q (by omega)

variable (m : Message) (n : Nat)

/-- The writers find room for the last element, one after another. -/
theorem run_entered : ∀ k ≤ n + 1, ∃ tr g pc, (logWriters (Fin (n + 1)) clock).Run tr ⟨g, pc⟩ ∧ g.logCount = 99 ∧
    Split k (.index .append m .timestamp) .idle pc
  | 0, _ => by
    obtain ⟨tr, g, hrun, hg⟩ := run_alone clock m (0 : Fin (n + 1)) 94 (Nat.le_refl 94)
    exact ⟨tr, g, _, hrun, hg, fun q hq => absurd hq (Nat.not_lt_zero _), fun _ _ => rfl⟩
  | k + 1, hk => by
    obtain ⟨tr, g, pc, hrun, hg, hsplit⟩ := run_entered k (by omega)
    obtain ⟨tr', henter⟩ := path_enter clock m (g := g) (by rw [hg]; decide) pc ⟨k, hk⟩
    rw [Function.update_eq_self_iff.mpr (hsplit.2 ⟨k, hk⟩ (Nat.le_refl k)).symm] at henter
    exact ⟨_, g, _, hrun.extend henter, hg, hsplit.next hk⟩

/-- They fill the elements from the last one on and count them, one after another. -/
theorem run_counted : ∀ k ≤ n + 1, ∃ tr g pc, (logWriters (Fin (n + 1)) clock).Run tr ⟨g, pc⟩ ∧
    g.logCount = Int32.ofNat (99 + k) ∧ Split k .idle (.index .append m .timestamp) pc ∧
    ∀ j < k, (Int32.ofNat (99 + j)).toInt ∈ writes tr
  | 0, _ => by
    obtain ⟨tr, g, pc, hrun, hg, hsplit⟩ := run_entered clock m n (n + 1) (Nat.le_refl _)
    exact ⟨tr, g, pc, hrun, hg, ⟨fun q hq => absurd hq (Nat.not_lt_zero _), fun q _ => hsplit.1 q q.isLt⟩,
      fun j hj => absurd hj (Nat.not_lt_zero j)⟩
  | k + 1, hk => by
    obtain ⟨tr, g, pc, hrun, hg, hsplit, hwrites⟩ := run_counted k (by omega)
    obtain ⟨tr', g', hfinish, hg', hwrite, -⟩ := path_finish clock m g pc ⟨k, hk⟩
    rw [Function.update_eq_self_iff.mpr (hsplit.2 ⟨k, hk⟩ (Nat.le_refl k)).symm] at hfinish
    refine ⟨_, g', _, hrun.extend hfinish, ?_, hsplit.next hk, fun j hj => ?_⟩
    · rw [hg', hg, ← Nat.add_assoc, Int32.ofNat_add (99 + k) 1]
      rfl
    · rw [writes_append]
      rcases Nat.lt_succ_iff_lt_or_eq.mp hj with hlt | rfl
      · exact List.mem_append_left _ (hwrites j hlt)
      · rw [hg] at hwrite
        exact List.mem_append_right _ hwrite

/-- All writers have finished. -/
theorem run_finished (hn : 100 + n < 2 ^ 31) : ∃ tr s, (logWriters (Fin (n + 1)) clock).Run tr s ∧
    (∀ p, s.pc p = .idle) ∧ s.shared.logCount.toInt = 100 + n ∧ ∀ j ≤ n, ((99 + j : Nat) : Int) ∈ writes tr := by
  obtain ⟨tr, g, pc, hrun, hg, hsplit, hwrites⟩ := run_counted clock (0, []) n (n + 1) (Nat.le_refl _)
  refine ⟨tr, _, hrun, fun p => hsplit.1 p p.isLt, ?_, fun j hj => ?_⟩
  · have hcount : (Int32.ofNat (99 + (n + 1))).toInt = ((99 + (n + 1) : Nat) : Int) :=
      Int32.toInt_ofNat_of_lt (by omega)
    rw [hg, hcount]
    omega
  · have := hwrites j (by omega)
    rwa [Int32.toInt_ofNat_of_lt (by omega)] at this

end Overrun

/-- Once the log is full and no writer has found room, the count stays. -/
theorem path_full {P : Type u} [DecidableEq P] {clock : Nat → UInt64} {c : Int32} (hc : ¬c < 100)
    {s s' : Threads P Vars Pc} {tr : List (P × Act)} (h : (logWriters P clock).Path s tr s')
    (hcount : s.shared.logCount = c)
    (happ : ∀ p, (s.pc p).appends = false) : s'.shared.logCount = c := by
  refine (System.Path.invariant (I := fun s => s.shared.logCount = c ∧ ∀ p, (s.pc p).appends = false) ?_ h
    ⟨hcount, happ⟩).1
  rintro s ⟨p, act⟩ _ ⟨rfl, happ⟩ ⟨g', l', hstep, rfl⟩
  have heffect := addStep_effect hstep
  have hp := happ p
  dsimp only at heffect ⊢
  generalize s.pc p = l at heffect hp
  generalize g'.logCount = c' at heffect
  cases heffect with
  | none hsame =>
    exact ⟨rfl, (Function.forall_update_iff s.pc fun _ l => l.appends = false).mpr ⟨hsame.trans hp, fun q _ => happ q⟩⟩
  | enter hroom => exact absurd hroom hc
  | load hin => cases hin.symm.trans hp
  | store hin => cases hin.symm.trans hp

/-! ## Results -/

/-- **Two writers.** However their accesses interleave, `log_count` does not pass 101, and at most the element right
behind `log_buffer` is written. -/
theorem virtual_log_two_writers {P : Type u} [DecidableEq P] (htwo : ∀ p q r : P, p = q ∨ q = r ∨ p = r)
    (clock : Nat → UInt64) (tr : List (P × Act)) (s : Threads P Vars Pc) (h : (logWriters P clock).Run tr s) :
    0 ≤ s.shared.logCount.toInt ∧ s.shared.logCount.toInt ≤ 101 ∧ ∀ i ∈ writes tr, 0 ≤ i ∧ i ≤ 100 := by
  obtain ⟨hs, -⟩ := run_overshoots htwo h
  refine ⟨hs.nonneg, hs.count, fun i hi => ?_⟩
  obtain ⟨pre, p, s₁, s₂, hrun, ⟨g', l', hstep, -⟩⟩ := run_write h hi
  exact addStep_write hstep ((run_overshoots htwo hrun).2 p)

/-- It can be written. -/
theorem virtual_log_two_writers_behind : ∃ tr s, (logWriters (Fin 2) fun _ => 0).Run tr s ∧ 100 ∈ writes tr ∧
    ∀ i ∈ writes tr, 0 ≤ i ∧ i ≤ 100 := by
  obtain ⟨tr, s, hrun, -, -, hwrites⟩ := run_finished (fun _ => 0) 1 (by decide)
  exact ⟨tr, s, hrun, hwrites 1 (Nat.le_refl 1), (virtual_log_two_writers (by decide) (fun _ => 0) tr s hrun).2.2⟩

/-- **Overrun.** `n + 1` writers can write all of the `n` elements behind `log_buffer`. When they have finished, the
count has passed the size of the array by `n`, and whatever is written later it stays there. -/
theorem virtual_log_overrun (clock : Nat → UInt64) (n : Nat) (hn : 100 + n < 2 ^ 31) :
    ∃ tr s, (logWriters (Fin (n + 1)) clock).Run tr s ∧ (∀ p, s.pc p = .idle) ∧
      (∀ i : Int, 100 ≤ i → i < 100 + n → i ∈ writes tr) ∧
      ∀ tr' s', (logWriters (Fin (n + 1)) clock).Path s tr' s' → s'.shared.log.logCount = 100 + n := by
  obtain ⟨tr, s, hrun, hidle, hcount, hwrites⟩ := run_finished clock n hn
  refine ⟨tr, s, hrun, hidle, fun i hi hlt => ?_, fun tr' s' hpath => ?_⟩
  · obtain ⟨j, rfl⟩ : ∃ j : Nat, i = ((99 + j : Nat) : Int) := ⟨(i - 99).toNat, by omega⟩
    exact hwrites j (by omega)
  · have hfull : ¬s.shared.logCount < 100 := by
      rw [lt_hundred_iff]
      omega
    have hstays := path_full hfull hpath rfl fun p => by rw [hidle p]; rfl
    show s'.shared.logCount.toInt.toNat = 100 + n
    rw [hstays, hcount]
    omega

theorem virtual_log_overrun_far : ∃ tr s, (logWriters (Fin 1001) fun _ => 0).Run tr s ∧ 1099 ∈ writes tr ∧
    s.shared.log.logCount = 1100 := by
  obtain ⟨tr, s, hrun, -, hwrites, hcount⟩ := virtual_log_overrun (fun _ => 0) 1000 (by decide)
  exact ⟨tr, s, hrun, hwrites 1099 (by decide) (by decide), hcount [] s (.nil s)⟩

end KernelModules.VirtualLog
