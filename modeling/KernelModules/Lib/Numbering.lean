import Mathlib.Data.List.Nodup
import KernelModules.Lib.Runs

/-!
# Numbers taken from a counter

Some labels of a system take a number: they move a 64-bit counter by one and carry its new value. The numbers of a run,
in their order, are then 1, 2, 3, … as far as the counter goes (`Run.numbered`). Below 2^64 of them this is so without
wrapping (`Run.numbered_toNat`) and no number is taken twice (`Run.numbered_nodup`).
-/

namespace KernelModules.Lib.System

universe u v

variable {S : Type u} {E : Type v} {M : System S E} {number : E → Option UInt64} {count : S → UInt64}

/-- The counter starts at 0, and a step of a run leaves it alone or takes the next number. -/
structure Numbered (M : System S E) (number : E → Option UInt64) (count : S → UInt64) : Prop where
  init : ∀ s, M.init s → count s = 0
  step : ∀ tr s e s', M.Run tr s → M.step s e s' →
    (number e = none ∧ count s' = count s) ∨ (number e = some (count s') ∧ count s' = count s + 1)

/-- **The numbers of a run**, with the counter behind them. -/
theorem Run.numbered (hM : Numbered M number count) {tr : List E} {s : S} (h : M.Run tr s) :
    count s = UInt64.ofNat (tr.filterMap number).length ∧
      tr.filterMap number = (List.range' 1 (tr.filterMap number).length).map UInt64.ofNat := by
  refine Run.history (P := fun tr s => count s = UInt64.ofNat (tr.filterMap number).length ∧
    tr.filterMap number = (List.range' 1 (tr.filterMap number).length).map UInt64.ofNat) ?_ ?_ h
  · exact fun s hs => ⟨hM.init s hs, rfl⟩
  · rintro tr s e s' hrun ⟨hcount, hnum⟩ hstep
    rcases hM.step tr s e s' hrun hstep with ⟨hnone, hsame⟩ | ⟨hsome, hnext⟩
    · have hlast : (tr ++ [e]).filterMap number = tr.filterMap number := by simp [hnone]
      rw [hlast]
      exact ⟨hsame.trans hcount, hnum⟩
    · have hlast : (tr ++ [e]).filterMap number = tr.filterMap number ++ [count s'] := by simp [hsome]
      have hcount' : count s' = UInt64.ofNat ((tr.filterMap number).length + 1) := by
        rw [hnext, hcount, UInt64.ofNat_add]
        rfl
      rw [hlast, List.length_append, List.length_singleton]
      refine ⟨hcount', ?_⟩
      rw [List.range'_concat, List.map_append, ← hnum, Nat.one_mul, Nat.add_comm 1, hcount']
      rfl

/-- Fewer than 2^64 numbers are exactly 1, …, N. -/
theorem Run.numbered_toNat (hM : Numbered M number count) {tr : List E} {s : S} (h : M.Run tr s)
    (hlt : (tr.filterMap number).length < 2 ^ 64) :
    (tr.filterMap number).map UInt64.toNat = List.range' 1 (tr.filterMap number).length := by
  rw [(Run.numbered hM h).2, List.map_map, List.length_map, List.length_range']
  refine (List.map_congr_left fun i hi => ?_).trans (List.map_id _)
  rw [List.mem_range'_1] at hi
  have hi' : i < 2 ^ 64 := by omega
  exact UInt64.toNat_ofNat_of_lt' hi'

/-- Fewer than 2^64 numbers are all different. -/
theorem Run.numbered_nodup (hM : Numbered M number count) {tr : List E} {s : S} (h : M.Run tr s)
    (hlt : (tr.filterMap number).length < 2 ^ 64) : (tr.filterMap number).Nodup := by
  refine List.Nodup.of_map UInt64.toNat ?_
  rw [Run.numbered_toNat hM h hlt]
  exact List.nodup_range' ..

end KernelModules.Lib.System
