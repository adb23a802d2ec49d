import KernelModules.Lib.Threads
import KernelModules.Lib.Uaccess

/-!
# A pool of permits

Processes run `semaphore_demo_read`, any number of times each: they take a permit of `resource_pool`, count themselves
in `active_users`, take a resource id, and give everything back. The semaphore is the kernel's: `down_interruptible`
takes a permit or joins the wait list, `up` hands the permit to the first process of the list or adds it to the count,
and a signal takes a process off the list unless it was handed a permit before.

- the permits are those left in the count and those the processes hold (`Pool.permits`), the users counted are some of
  the holders (`Accounted`);
- one step keeps this (`step_accounted`), so does every run (`run_accounted`);
- `semaphore_pool_accounting` reads the bounds off it.
-/

namespace KernelModules.Locks.MutexSem

open Lib

universe u

/-! ## The code -/

def maxResources : Nat := 3

/-- `resource_pool` and the two counters. -/
structure Pool (P : Type u) where
  count : Nat
  /-- The processes that sleep in `down_interruptible`, first come first. -/
  waitList : List P
  activeUsers : Int
  resourceIdCounter : Int32

/-- Where a process is in `semaphore_demo_read`. -/
inductive Pc
  | idle
  | entry (pos : Int)
  /-- At `down_interruptible`. -/
  | down
  /-- Asleep in it. -/
  | waiting
  /-- It returned 0. -/
  | granted
  /-- After `atomic_inc_return`. -/
  | counted (userCount : Int)
  /-- `resource_id_counter` is read and not yet stored. -/
  | numbering (userCount : Int) (id : Int32)
  /-- In `msleep`. -/
  | inUse (userCount : Int) (id : Int32)
  /-- The text is made, `atomic_dec` is next. -/
  | leaving (text : List UInt8)
  /-- At `up`. -/
  | releasing (text : List UInt8)
  /-- At `copy_to_user`. -/
  | copying (text : List UInt8)
  | done (ret : Int)

inductive Act
  | call (pos : Int)
  | check
  | down
  | block
  | wake
  | interrupted
  | inc (userCount : Int)
  | loadId
  | storeId
  | format
  | dec
  | up
  | copy (text : List UInt8) (fault : Bool)

def semaphoreText (id : Int32) (pid userCount : Int) : List UInt8 :=
  ascii "=== Semaphore Demo ===\nResource ID: " ++ ascii (toString id) ++ ascii "\nUsed by PID: " ++
  ascii (toString pid) ++
  ascii "\nActive users: " ++ ascii (toString userCount) ++ ascii "/" ++ ascii (toString maxResources) ++
  ascii "\nSemaphore controls resource pool access\n"

/-- Not in the handler. -/
def Pc.outside : Pc → Bool
  | .idle => true
  | .done _ => true
  | _ => false

variable {P : Type u} [DecidableEq P]

/-- One step of process `p`. -/
inductive ReadStep (pid : P → Int) (p : P) : Pool P → Pc → Act → Pool P → Pc → Prop
  | call {g : Pool P} {l : Pc} (pos : Int) : l.outside = true → ReadStep pid p g l (.call pos) g (.entry pos)
  | seen {g : Pool P} {pos : Int} : pos > 0 → ReadStep pid p g (.entry pos) .check g (.done 0)
  | enter {g : Pool P} {pos : Int} : ¬pos > 0 → ReadStep pid p g (.entry pos) .check g .down
  | down {g : Pool P} : 0 < g.count → ReadStep pid p g .down .down { g with count := g.count - 1 } .granted
  | block {g : Pool P} : ¬0 < g.count →
      ReadStep pid p g .down .block { g with waitList := g.waitList ++ [p] } .waiting
  /-- A process that was handed a permit is not on the list any more. -/
  | wake {g : Pool P} : p ∉ g.waitList → ReadStep pid p g .waiting .wake g .granted
  | interrupted {g : Pool P} : p ∈ g.waitList →
      ReadStep pid p g .waiting .interrupted { g with waitList := g.waitList.erase p } (.done (-eRestartsys))
  | inc {g : Pool P} : ReadStep pid p g .granted (.inc (g.activeUsers + 1))
      { g with activeUsers := g.activeUsers + 1 } (.counted (g.activeUsers + 1))
  | loadId {g : Pool P} {userCount : Int} :
      ReadStep pid p g (.counted userCount) .loadId g (.numbering userCount g.resourceIdCounter)
  | storeId {g : Pool P} {userCount : Int} {id : Int32} :
      ReadStep pid p g (.numbering userCount id) .storeId { g with resourceIdCounter := id + 1 } (.inUse userCount id)
  | format {g : Pool P} {userCount : Int} {id : Int32} :
      ReadStep pid p g (.inUse userCount id) .format g (.leaving (semaphoreText id (pid p) userCount))
  | dec {g : Pool P} {text : List UInt8} :
      ReadStep pid p g (.leaving text) .dec { g with activeUsers := g.activeUsers - 1 } (.releasing text)
  | up {g : Pool P} {text : List UInt8} : g.waitList = [] →
      ReadStep pid p g (.releasing text) .up { g with count := g.count + 1 } (.copying text)
  /-- `up` hands the permit to the first process of the list. -/
  | handOver {g : Pool P} {text : List UInt8} {q : P} {rest : List P} : g.waitList = q :: rest →
      ReadStep pid p g (.releasing text) .up { g with waitList := rest } (.copying text)
  | copy {g : Pool P} {text : List UInt8} (fault : Bool) :
      ReadStep pid p g (.copying text) (.copy text fault) g (.done (if fault then -eFault else text.length))

/-- Any number of processes after `mutex_sem_init`. -/
def semaphoreDemo (pid : P → Int) : System (Threads P (Pool P) Pc) (P × Act) :=
  interleave (fun g => g = ⟨maxResources, [], 0, 1⟩) (fun l => l = .idle) (ReadStep pid)

/-! ## Who holds a permit -/

/-- The places between `down_interruptible` and `up`. -/
def Pc.holds : Pc → Bool
  | .granted => true
  | .counted _ => true
  | .numbering _ _ => true
  | .inUse _ _ => true
  | .leaving _ => true
  | .releasing _ => true
  | _ => false

/-- The places between `atomic_inc_return` and `atomic_dec`. -/
def Pc.counts : Pc → Bool
  | .counted _ => true
  | .numbering _ _ => true
  | .inUse _ _ => true
  | .leaving _ => true
  | _ => false

def Pc.waits : Pc → Bool
  | .waiting => true
  | _ => false

/-- A process holds a permit if its `down_interruptible` returned 0, or will because `up` handed it one. -/
def held (g : Pool P) (l : Pc) (p : P) : Bool := l.holds || (l.waits && !decide (p ∈ g.waitList))

def permit (s : Threads P (Pool P) Pc) (p : P) : Bool := held s.shared (s.pc p) p

/-- What a process that is past `atomic_inc_return` reports. -/
def Reports (pid : Int) : Pc → Prop
  | .counted n => 1 ≤ n ∧ n ≤ maxResources
  | .numbering n _ => 1 ≤ n ∧ n ≤ maxResources
  | .inUse n _ => 1 ≤ n ∧ n ≤ maxResources
  | .leaving text => ∃ id n, text = semaphoreText id pid n ∧ 1 ≤ n ∧ n ≤ maxResources
  | .releasing text => ∃ id n, text = semaphoreText id pid n ∧ 1 ≤ n ∧ n ≤ maxResources
  | .copying text => ∃ id n, text = semaphoreText id pid n ∧ 1 ≤ n ∧ n ≤ maxResources
  | _ => True

/-- **The account**: every permit is in the count or held, and `active_users` counts some of the holders. -/
structure Accounted (pid : P → Int) (s : Threads P (Pool P) Pc) : Prop where
  waiting : ∀ p ∈ s.shared.waitList, s.pc p = .waiting
  nodup : s.shared.waitList.Nodup
  permits : ∃ n, Counts n (permit s) ∧ s.shared.count + n = maxResources
  users : ∃ n : Nat, Counts n (fun p => (s.pc p).counts) ∧ s.shared.activeUsers = n
  reports : ∀ p, Reports (pid p) (s.pc p)

/-! ## One step -/

section OneStep

variable {pid : P → Int} {p : P} {g g' : Pool P} {l l' : Pc} {act : Act} {s : Threads P (Pool P) Pc}

theorem Pc.outside_holds (h : l.outside = true) : l.holds = false ∧ l.waits = false ∧ l.counts = false := by
  cases l with
  | idle => exact ⟨rfl, rfl, rfl⟩
  | done ret => exact ⟨rfl, rfl, rfl⟩
  | _ => cases h

/-- A counted process holds a permit. -/
theorem Pc.holds_of_counts (h : l.counts = true) : l.holds = true := by
  cases l with
  | counted | numbering | inUse | leaving => rfl
  | _ => cases h

/-- A permit goes from the count to the process, back, or stays; or it goes to a waiting process. -/
theorem readStep_permits (h : ReadStep pid p g l act g' l') :
    ((∀ q, q ≠ p → (q ∈ g'.waitList ↔ q ∈ g.waitList)) ∧
      g'.count + (held g' l' p).toNat = g.count + (held g l p).toNat) ∨
    (∃ q rest, g.waitList = q :: rest ∧ g'.waitList = rest ∧ g'.count = g.count ∧ l.holds = true ∧ l'.outside = false ∧
      l'.holds = false ∧ l'.waits = false) := by
  cases h with
  | call pos hl =>
    obtain ⟨hholds, hwaits, -⟩ := Pc.outside_holds hl
    have hfree : held g l p = false := by simp [held, hholds, hwaits]
    exact .inl ⟨fun _ _ => Iff.rfl, by rw [hfree]; rfl⟩
  | seen | enter => exact .inl ⟨fun _ _ => Iff.rfl, rfl⟩
  | down hpos =>
    refine .inl ⟨fun _ _ => Iff.rfl, ?_⟩
    simp only [held, Pc.holds, Pc.waits, Bool.true_or, Bool.false_or, Bool.false_and, Bool.toNat_true, Bool.toNat_false]
    omega
  | block hzero =>
    refine .inl ⟨fun q hq => by simp [hq], ?_⟩
    simp [held, Pc.holds, Pc.waits]
  | wake hnot => exact .inl ⟨fun _ _ => Iff.rfl, by simp [held, Pc.holds, Pc.waits, hnot]⟩
  | interrupted hin =>
    exact .inl ⟨fun q hq => List.mem_erase_of_ne hq, by simp [held, Pc.holds, Pc.waits, hin]⟩
  | inc | loadId | storeId | format | dec => exact .inl ⟨fun _ _ => Iff.rfl, rfl⟩
  | up hnil => exact .inl ⟨fun _ _ => Iff.rfl, by simp [held, Pc.holds, Pc.waits]⟩
  | handOver hcons => exact .inr ⟨_, _, hcons, rfl, rfl, rfl, rfl, rfl, rfl⟩
  | copy fault => exact .inl ⟨fun _ _ => Iff.rfl, rfl⟩

/-- `active_users` moves with the process that counts itself. -/
theorem readStep_users (h : ReadStep pid p g l act g' l') :
    g'.activeUsers + (l.counts.toNat : Int) = g.activeUsers + (l'.counts.toNat : Int) := by
  cases h with
  | call pos hl =>
    obtain ⟨-, -, hcounts⟩ := Pc.outside_holds hl
    rw [hcounts]
    rfl
  | inc => simp [Pc.counts]
  | dec => simp [Pc.counts]
  | _ => rfl

/-- The wait list has each waiting process once. -/
theorem readStep_waitList (h : ReadStep pid p s.shared (s.pc p) act g' l')
    (hwaiting : ∀ q ∈ s.shared.waitList, s.pc q = .waiting) (hnodup : s.shared.waitList.Nodup) :
    (∀ q ∈ g'.waitList, Function.update s.pc p l' q = .waiting) ∧ g'.waitList.Nodup := by
  -- a process whose place is another one is not on the list
  have key : s.pc p ≠ .waiting → ∀ q ∈ s.shared.waitList, Function.update s.pc p l' q = .waiting := by
    intro hne q hq
    have hqp : q ≠ p := fun h => hne (h ▸ hwaiting q hq)
    rw [Function.update_of_ne hqp]
    exact hwaiting q hq
  generalize hl : s.pc p = l at h key
  cases h with
  | call pos hout => exact ⟨key (by rintro rfl; cases hout), hnodup⟩
  | block hzero =>
    refine ⟨fun q hq => ?_, ?_⟩
    · rcases List.mem_append.mp hq with hq | hq
      · exact key (by simp) q hq
      · rw [List.mem_singleton.mp hq, Function.update_self]
    · refine List.nodup_append.mpr ⟨hnodup, List.nodup_singleton p, ?_⟩
      rintro q hq _ hp rfl
      rw [List.mem_singleton.mp hp] at hq
      rw [hwaiting p hq] at hl
      cases hl
  | wake hnot =>
    refine ⟨fun q hq => ?_, hnodup⟩
    have hqp : q ≠ p := fun h => hnot (h ▸ hq)
    rw [Function.update_of_ne hqp]
    exact hwaiting q hq
  | interrupted hin =>
    refine ⟨fun q hq => ?_, hnodup.erase p⟩
    obtain ⟨hqp, hq⟩ := hnodup.mem_erase_iff.mp hq
    rw [Function.update_of_ne hqp]
    exact hwaiting q hq
  | handOver hcons =>
    rw [hcons] at hnodup
    exact ⟨fun r hr => key (by simp) r (by rw [hcons]; exact List.mem_cons_of_mem _ hr), hnodup.of_cons⟩
  | _ => exact ⟨key (by simp), hnodup⟩

/-- The permits stay as many. -/
theorem step_permits (h : ReadStep pid p s.shared (s.pc p) act g' l') (hs : Accounted pid s) :
    ∃ n, Counts n (permit ⟨g', Function.update s.pc p l'⟩) ∧ g'.count + n = maxResources := by
  obtain ⟨n, hn, htotal⟩ := hs.permits
  rcases readStep_permits h with ⟨hlist, hcount⟩ | ⟨q, rest, hcons, hrest, hcount, hholds, -, hholds', hwaits'⟩
  · have hpermit : permit ⟨g', Function.update s.pc p l'⟩ = Function.update (permit s) p (held g' l' p) := by
      funext q
      by_cases hq : q = p
      · subst hq
        simp [permit]
      · simp only [permit, held, Function.update_of_ne hq, hlist q hq]
    obtain ⟨m, hm, hmn⟩ := hn.update p (held g' l' p)
    have hp : held s.shared (s.pc p) p = permit s p := rfl
    rw [hp] at hcount
    refine ⟨m, ?_, by omega⟩
    rw [hpermit]
    exact hm
  · -- the permit goes from `p` to `q`
    have hqwait : s.pc q = .waiting := hs.waiting q (by rw [hcons]; exact List.mem_cons_self)
    have hqp : q ≠ p := fun h => by
      rw [h] at hqwait
      rw [hqwait] at hholds
      cases hholds
    have hnodup := hs.nodup
    rw [hcons] at hnodup
    have hqrest : q ∉ rest := (List.nodup_cons.mp hnodup).1
    have hq : permit s q = false := by simp [permit, held, hqwait, Pc.holds, Pc.waits, hcons]
    have hp : permit s p = true := by simp [permit, held, hholds]
    have hpermit : permit ⟨g', Function.update s.pc p l'⟩ =
        Function.update (Function.update (permit s) q true) p false := by
      funext r
      by_cases hrp : r = p
      · subst hrp
        simp [permit, held, hholds', hwaits']
      · rw [Function.update_of_ne hrp]
        by_cases hrq : r = q
        · subst hrq
          simp [permit, held, Function.update_of_ne hrp, hqwait, Pc.waits, hrest, hqrest]
        · rw [Function.update_of_ne hrq]
          simp [permit, held, Function.update_of_ne hrp, hrest, hcons, hrq]
    obtain ⟨k, hk, hkn⟩ := hn.update q true
    obtain ⟨m, hm, hmk⟩ := hk.update p false
    rw [Function.update_of_ne (Ne.symm hqp), hp] at hmk
    rw [hq] at hkn
    simp only [Bool.toNat_true, Bool.toNat_false] at hkn hmk
    refine ⟨m, ?_, by omega⟩
    rw [hpermit]
    exact hm

theorem step_users (h : ReadStep pid p s.shared (s.pc p) act g' l') (hs : Accounted pid s) :
    ∃ n : Nat, Counts n (fun q => (Function.update s.pc p l' q).counts) ∧ g'.activeUsers = n := by
  obtain ⟨n, hn, hactive⟩ := hs.users
  obtain ⟨m, hm, hmn⟩ := hn.step p l'
  have := readStep_users h
  exact ⟨m, hm, by omega⟩

/-- A process reports the number that `atomic_inc_return` gave it. -/
theorem readStep_reports (h : ReadStep pid p g l act g' l') (hl : Reports (pid p) l) (hpos : 0 ≤ g.activeUsers)
    (hle : g'.activeUsers ≤ maxResources) : Reports (pid p) l' := by
  cases h with
  | inc => exact ⟨by omega, hle⟩
  | format => exact ⟨_, _, rfl, hl⟩
  | loadId | storeId | dec | up | handOver => exact hl
  | _ => trivial

/-- **One step** of one process keeps the account. -/
theorem step_accounted {s s' : Threads P (Pool P) Pc} {e : P × Act} (hs : Accounted pid s)
    (h : (semaphoreDemo pid).step s e s') : Accounted pid s' := by
  obtain ⟨p, act⟩ := e
  obtain ⟨g', l', hstep, rfl⟩ := h
  obtain ⟨hwaiting, hnodup⟩ := readStep_waitList hstep hs.waiting hs.nodup
  obtain ⟨n, hn, htotal⟩ := step_permits hstep hs
  obtain ⟨k, hk, hactive⟩ := step_users hstep hs
  refine ⟨hwaiting, hnodup, ⟨n, hn, htotal⟩, ⟨k, hk, hactive⟩, ?_⟩
  have hkn : k ≤ n := hk.mono hn fun r hr => by
    simp only [permit, held, Pc.holds_of_counts hr, Bool.true_or]
  obtain ⟨k₀, -, hactive₀⟩ := hs.users
  exact (Function.forall_update_iff s.pc _).mpr
    ⟨readStep_reports hstep (hs.reports p) (by omega) (by omega), fun q _ => hs.reports q⟩

/-- The users counted are at most the permits. -/
theorem Accounted.users_le (hs : Accounted pid s) : ∃ n k : Nat, Counts n (permit s) ∧
    s.shared.count + n = maxResources ∧
    s.shared.activeUsers = k ∧ k ≤ n := by
  obtain ⟨n, hn, htotal⟩ := hs.permits
  obtain ⟨k, hk, hactive⟩ := hs.users
  have hkn : k ≤ n := hk.mono hn fun p hp => by
    simp only [permit, held, Pc.holds_of_counts hp, Bool.true_or]
  exact ⟨n, k, hn, htotal, hactive, hkn⟩

end OneStep

/-! ## Runs -/

section Runs

variable {pid : P → Int} {tr : List (P × Act)} {s : Threads P (Pool P) Pc}

/-- **Every run** keeps the account. -/
theorem run_accounted (h : (semaphoreDemo pid).Run tr s) : Accounted pid s := by
  refine h.invariant ?_ fun _ _ _ hs hstep => step_accounted hs hstep
  rintro ⟨g, pc⟩ ⟨rfl, hidle⟩
  have hpc : ∀ p, pc p = .idle := hidle
  refine ⟨by simp, by simp, ⟨0, .zero fun p => ?_, rfl⟩, ⟨0, .zero fun p => ?_, rfl⟩, fun p => ?_⟩
  · simp [permit, held, hpc p, Pc.holds, Pc.waits]
  · simp only [hpc p, Pc.counts]
  · simp only [hpc p, Reports]

/-- What is copied to a reader was made from the number it counted itself with. -/
theorem run_reports (h : (semaphoreDemo pid).Run tr s) {p : P} {text : List UInt8} {fault : Bool}
    (hmem : (p, .copy text fault) ∈ tr) :
    ∃ id n, text = semaphoreText id (pid p) n ∧ 1 ≤ n ∧ n ≤ maxResources := by
  obtain ⟨pre, post, rfl⟩ := List.append_of_mem hmem
  obtain ⟨s₁, s₂, hrun, ⟨g', l', hstep, -⟩, -⟩ := h.cut
  have hreports := (run_accounted hrun).reports p
  generalize s₁.pc p = l at hstep hreports
  cases hstep with
  | copy fault => exact hreports

/-- **The pool.** In every state of every interleaving the permits in the count and those held are three, the users
counted are some of the holders, every number reported lies between 1 and 3, and outside the handler all is back. -/
theorem semaphore_pool_accounting (pid : P → Int) (tr : List (P × Act)) (s : Threads P (Pool P) Pc)
    (h : (semaphoreDemo pid).Run tr s) :
    ∃ holders : Finset P, (∀ p, p ∈ holders ↔ permit s p = true) ∧ s.shared.count + holders.card = maxResources ∧
      0 ≤ s.shared.activeUsers ∧ s.shared.activeUsers ≤ holders.card ∧ holders.card ≤ maxResources ∧
      (∀ p text fault, (p, .copy text fault) ∈ tr →
        ∃ id n, text = semaphoreText id (pid p) n ∧ 1 ≤ n ∧ n ≤ maxResources) ∧
      ((∀ p, (s.pc p).outside = true) → s.shared.activeUsers = 0 ∧ s.shared.count = maxResources) := by
  have hs := run_accounted h
  obtain ⟨n, k, hn, htotal, hactive, hkn⟩ := hs.users_le
  have hback : (∀ p, (s.pc p).outside = true) → n = 0 := fun hout => hn.eq_zero fun p => by
    obtain ⟨hholds, hwaits, -⟩ := Pc.outside_holds (hout p)
    simp [permit, held, hholds, hwaits]
  obtain ⟨holders, hmem, rfl⟩ := hn
  refine ⟨holders, hmem, htotal, by omega, by omega, by omega, fun p text fault hcopy => run_reports h hcopy, ?_⟩
  intro hout
  have := hback hout
  exact ⟨by omega, by omega⟩

end Runs

/-- One process takes a permit and counts itself, another one is at the semaphore. -/
def oneUser : List (Bool × Act) :=
  [(true, .call 0), (true, .check), (true, .down), (true, .inc 1), (false, .call 0), (false, .check)]

theorem semaphore_pool_accounting_oneUser : ∃ s, (semaphoreDemo fun p : Bool => if p then 1 else 2).Run oneUser s ∧
    ∃ holders : Finset Bool, (∀ p, p ∈ holders ↔ permit s p = true) ∧ s.shared.count + holders.card = 3 ∧
      s.shared.activeUsers ≤ holders.card := by
  have hrun : (semaphoreDemo fun p : Bool => if p then 1 else 2).Run oneUser _ :=
    ⟨⟨⟨maxResources, [], 0, 1⟩, fun _ => .idle⟩, ⟨rfl, fun _ => rfl⟩,
      .cons ⟨_, _, .call 0 rfl, rfl⟩ <| .cons ⟨_, _, .enter (by decide), rfl⟩ <|
      .cons ⟨_, _, .down (by decide), rfl⟩ <| .cons ⟨_, _, .inc, rfl⟩ <|
      .cons ⟨_, _, .call 0 rfl, rfl⟩ <| .cons ⟨_, _, .enter (by decide), rfl⟩ <| .nil _⟩
  obtain ⟨holders, hmem, htotal, -, hle, -⟩ := semaphore_pool_accounting _ _ _ hrun
  exact ⟨_, hrun, holders, hmem, htotal, hle⟩

end KernelModules.Locks.MutexSem
