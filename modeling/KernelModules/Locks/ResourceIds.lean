import KernelModules.Lib.Increments
import KernelModules.Locks.MutexSemDemo

/-!
# The ids of a pool

`semaphore_demo_read` takes its resource id with `resource_id_counter++`, a load and a store, while it holds one of
three permits. The ids are those the loads see (`handingOut`); the pairs of load and store are increments that are not
atomic (`readStep_follows`), and what is known of those says when the ids are distinct and the counter tells the
acquisitions.
-/

namespace KernelModules.Locks.MutexSem

open Lib Lib.Increments

universe u

/-- The halves of `resource_id_counter++`. -/
def half : Act → Option Inc
  | .loadId => some .load
  | .storeId => some .store
  | _ => none

/-- The id that is loaded and not yet stored back. -/
def Pc.loaded : Pc → Option Int32
  | .numbering _ id => some id
  | _ => none

/-- A permit is taken, or was handed over. -/
def Act.acquires : Act → Bool
  | .down => true
  | .wake => true
  | _ => false

/-- A permit is taken and no id yet. -/
def Pc.unnumbered : Pc → Bool
  | .granted => true
  | .counted _ => true
  | _ => false

variable {P : Type u} [DecidableEq P]

/-- The demo, with the id that each load of `resource_id_counter` hands out. -/
def handingOut (pid : P → Int) : System (Threads P (Pool P) Pc) ((P × Act) × Option Int32) :=
  (semaphoreDemo pid).observe (seen Pool.resourceIdCounter half)

def resourceIds (tr : List ((P × Act) × Option Int32)) : List Int32 := tr.filterMap Prod.snd

def acquisitions (tr : List ((P × Act) × Option Int32)) : Nat := tr.countP fun e => e.1.2.acquires

/-- The loads and stores of `resource_id_counter` in a run. -/
def idHalves (tr : List ((P × Act) × Option Int32)) : List (P × Inc) := tr.filterMap fun e => halfOf half e.1

section OneStep

variable {pid : P → Int} {p : P} {g g' : Pool P} {l l' : Pc} {act : Act}

/-- **One step** is half an increment of `resource_id_counter`, or leaves it. -/
theorem readStep_follows (h : ReadStep pid p g l act g' l') :
    Follows Pool.resourceIdCounter Pc.loaded half (· + 1) g l act g' l' := by
  cases h with
  | call pos hl =>
    cases l with
    | idle | done => exact ⟨rfl, rfl⟩
    | _ => cases hl
  | loadId => exact ⟨rfl, rfl, rfl⟩
  | storeId => exact ⟨rfl, _, rfl, rfl⟩
  | _ => exact ⟨rfl, rfl⟩

/-- A process is unnumbered from the permit to the load. -/
theorem readStep_unnumbered (h : ReadStep pid p g l act g' l') :
    l'.unnumbered.toNat + (half act == some .load).toNat = l.unnumbered.toNat + act.acquires.toNat := by
  cases h with
  | call pos hl =>
    cases l with
    | idle | done => rfl
    | _ => cases hl
  | _ => rfl

end OneStep

section Runs

variable {pid : P → Int} {tr : List ((P × Act) × Option Int32)} {s : Threads P (Pool P) Pc}

/-- The increments that a run makes. -/
theorem run_increments (h : (handingOut pid).Run tr s) : ∃ t : Threads P Counter (Option Nat),
    increments.Run (idHalves tr) t ∧ Agree Pool.resourceIdCounter Pc.loaded (· + 1) 1 (resourceIds tr) s t := by
  refine Follows.agree ?_ ?_ readStep_follows h
  · rintro g rfl
    rfl
  · rintro l rfl
    rfl

/-- **Every run** has one load for each acquisition, up to the processes that hold a permit and no id. -/
theorem run_acquisitions (h : (handingOut pid).Run tr s) :
    ∃ n, Counts n (fun p => (s.pc p).unnumbered) ∧
      n + (idHalves tr).countP (fun e => e.2 == .load) = acquisitions tr := by
  have hstart : ∀ l, l = Pc.idle → l.unnumbered = false := by
    rintro l rfl
    rfl
  obtain ⟨n, hn, hcount⟩ := interleave_tally Act.acquires (fun act => half act == some .load) hstart
    readStep_unnumbered h.of_observe
  refine ⟨n, hn, ?_⟩
  have hloads : (idHalves tr).countP (fun e => e.2 == .load) =
      (tr.map Prod.fst).countP fun e => half e.2 == some .load := by
    rw [← countP_load_filterMap, List.filterMap_map]
    rfl
  rw [hloads, hcount, List.countP_map]
  rfl

theorem outside_loaded {l : Pc} (h : l.outside = true) : l.loaded = none ∧ l.unnumbered = false := by
  cases l with
  | idle | done => exact ⟨rfl, rfl⟩
  | _ => cases h

/-- **Resource ids.** With fewer than 2^31 acquisitions, the ids handed out are distinct, and outside the handler
`resource_id_counter - 1` tells their number, exactly if nobody loads the counter between another's load and store. -/
theorem resource_ids_unique (pid : P → Int) (tr : List ((P × Act) × Option Int32)) (s : Threads P (Pool P) Pc)
    (h : (handingOut pid).Run tr s) (hfew : acquisitions tr < 2 ^ 31) :
    ((resourceIds tr).Nodup ∧ ((∀ p, (s.pc p).outside = true) →
      (s.shared.resourceIdCounter - 1).toInt = acquisitions tr)) ↔ ¬Overlap (idHalves tr) := by
  obtain ⟨t, hrun, hagree⟩ := run_increments h
  obtain ⟨n, hn, hcount⟩ := run_acquisitions h
  rw [← run_length hrun] at hcount
  have hloads : t.shared.taken.length < 2 ^ 32 := by omega
  constructor
  · intro hunique
    exact (hagree.nodup_iff hrun hloads).mp hunique.1
  · intro hserial
    refine ⟨(hagree.nodup_iff hrun hloads).mpr hserial, fun hout => ?_⟩
    have hn0 : n = 0 := hn.eq_zero fun p => (outside_loaded (hout p)).2
    have hcounter := (hagree.counter_eq_iff hrun hloads fun p => (outside_loaded (hout p)).1).mpr hserial
    have hlast : s.shared.resourceIdCounter - 1 = Int32.ofNat (acquisitions tr) := by
      rw [hcounter, ← hcount, hn0, Nat.zero_add, Int32.add_comm, Int32.add_sub_cancel]
    rw [hlast, Int32.toInt_ofNat_of_lt hfew]

end Runs

/-- Two readers take their permits and number themselves one after the other. -/
def oneByOne : List ((Bool × Act) × Option Int32) :=
  [((true, .call 0), none), ((true, .check), none), ((true, .down), none), ((true, .inc 1), none),
   ((true, .loadId), some 1), ((true, .storeId), none), ((false, .call 0), none), ((false, .check), none),
   ((false, .down), none), ((false, .inc 2), none), ((false, .loadId), some 2), ((false, .storeId), none)]

theorem resource_ids_unique_oneByOne : ∃ s, (handingOut fun p : Bool => if p then 1 else 2).Run oneByOne s ∧
    ¬Overlap (idHalves oneByOne) ∧ (resourceIds oneByOne).Nodup := by
  have hrun : (handingOut fun p : Bool => if p then 1 else 2).Run oneByOne _ :=
    ⟨pair ⟨maxResources, [], 0, 1⟩ .idle .idle, ⟨rfl, by rintro (_ | _) <;> rfl⟩,
      .cons ⟨interleave_step_true (.call 0 rfl) _, rfl⟩ <| .cons ⟨interleave_step_true (.enter (by decide)) _, rfl⟩ <|
      .cons ⟨interleave_step_true (.down (by decide)) _, rfl⟩ <| .cons ⟨interleave_step_true .inc _, rfl⟩ <|
      .cons ⟨interleave_step_true .loadId _, rfl⟩ <| .cons ⟨interleave_step_true .storeId _, rfl⟩ <|
      .cons ⟨interleave_step_false (.call 0 rfl) _, rfl⟩ <| .cons ⟨interleave_step_false (.enter (by decide)) _, rfl⟩ <|
      .cons ⟨interleave_step_false (.down (by decide)) _, rfl⟩ <| .cons ⟨interleave_step_false .inc _, rfl⟩ <|
      .cons ⟨interleave_step_false .loadId _, rfl⟩ <| .cons ⟨interleave_step_false .storeId _, rfl⟩ <| .nil _⟩
  have hserial : ¬Overlap (idHalves oneByOne) := not_overlap_inTurn [true, false]
  exact ⟨_, hrun, hserial, ((resource_ids_unique _ _ _ hrun (by decide)).mpr hserial).1⟩

/-- Two readers load `resource_id_counter` before either stores it, and both run to the end. -/
def atOnce : List ((Bool × Act) × Option Int32) :=
  [((true, .call 0), none), ((true, .check), none), ((true, .down), none), ((true, .inc 1), none),
   ((false, .call 0), none), ((false, .check), none), ((false, .down), none), ((false, .inc 2), none),
   ((true, .loadId), some 1), ((false, .loadId), some 1), ((true, .storeId), none), ((false, .storeId), none),
   ((true, .format), none), ((true, .dec), none), ((true, .up), none),
   ((true, .copy (semaphoreText 1 1 1) false), none), ((false, .format), none), ((false, .dec), none),
   ((false, .up), none), ((false, .copy (semaphoreText 1 2 2) false), none)]

/-- Both get the id 1, and two acquisitions leave the counter at 2. -/
theorem resource_ids_twice : ∃ s, (handingOut fun p : Bool => if p then 1 else 2).Run atOnce s ∧
    (∀ p, (s.pc p).outside = true) ∧ acquisitions atOnce = 2 ∧ resourceIds atOnce = [1, 1] ∧
    s.shared.resourceIdCounter = 2 := by
  have hrun : (handingOut fun p : Bool => if p then 1 else 2).Run atOnce _ :=
    ⟨pair ⟨maxResources, [], 0, 1⟩ .idle .idle, ⟨rfl, by rintro (_ | _) <;> rfl⟩,
      .cons ⟨interleave_step_true (.call 0 rfl) _, rfl⟩ <| .cons ⟨interleave_step_true (.enter (by decide)) _, rfl⟩ <|
      .cons ⟨interleave_step_true (.down (by decide)) _, rfl⟩ <| .cons ⟨interleave_step_true .inc _, rfl⟩ <|
      .cons ⟨interleave_step_false (.call 0 rfl) _, rfl⟩ <| .cons ⟨interleave_step_false (.enter (by decide)) _, rfl⟩ <|
      .cons ⟨interleave_step_false (.down (by decide)) _, rfl⟩ <| .cons ⟨interleave_step_false .inc _, rfl⟩ <|
      .cons ⟨interleave_step_true .loadId _, rfl⟩ <| .cons ⟨interleave_step_false .loadId _, rfl⟩ <|
      .cons ⟨interleave_step_true .storeId _, rfl⟩ <| .cons ⟨interleave_step_false .storeId _, rfl⟩ <|
      .cons ⟨interleave_step_true .format _, rfl⟩ <| .cons ⟨interleave_step_true .dec _, rfl⟩ <|
      .cons ⟨interleave_step_true (.up rfl) _, rfl⟩ <| .cons ⟨interleave_step_true (.copy false) _, rfl⟩ <|
      .cons ⟨interleave_step_false .format _, rfl⟩ <| .cons ⟨interleave_step_false .dec _, rfl⟩ <|
      .cons ⟨interleave_step_false (.up rfl) _, rfl⟩ <| .cons ⟨interleave_step_false (.copy false) _, rfl⟩ <| .nil _⟩
  exact ⟨_, hrun, by rintro (_ | _) <;> rfl, by decide, by decide, rfl⟩

end KernelModules.Locks.MutexSem
