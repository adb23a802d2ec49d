import KernelModules.Lib.Runs

/-!
# Reading a text in pieces

A reader calls again and again from position 0 on. A call fails and leaves the position, or it returns the bytes of
the text behind the position and moves it behind them; it returns nothing only at the end (`reader`). So what a reader
has is the text up to its position (`run_pieces`), all of it when a call has returned nothing (`run_eof`), and enough
calls that do not fail get there (`run_reaches_eof`).
-/

namespace KernelModules.Lib.Reads

universe u

variable {α : Type u}

/-- Positions, and calls with what they return; a failed call returns `none`. -/
def reader (text : List α) : System Nat (Option (List α)) where
  init p := p = 0
  step p r q := match r with
    | none => q = p
    | some bs => bs = (text.drop p).take bs.length ∧ q = p + bs.length ∧ (bs = [] → text.length ≤ p)

/-- What the calls have returned. -/
def pieces (rs : List (Option (List α))) : List α := rs.flatMap (Option.getD · [])

theorem pieces_snoc (rs : List (Option (List α))) (r : Option (List α)) :
    pieces (rs ++ [r]) = pieces rs ++ r.getD [] := by
  simp [pieces]

variable {text : List α} {rs : List (Option (List α))} {q : Nat}

/-- **Every reader** has the text up to its position. -/
theorem run_pieces (h : (reader text).Run rs q) : pieces rs = text.take q ∧ q ≤ text.length := by
  refine h.history (P := fun rs q => pieces rs = text.take q ∧ q ≤ text.length) ?_ ?_
  · rintro q rfl
    exact ⟨rfl, Nat.zero_le _⟩
  · rintro rs p r q - ⟨hpieces, hp⟩ hstep
    cases r with
    | none =>
      obtain rfl : q = p := hstep
      exact ⟨by rw [pieces_snoc, hpieces, Option.getD_none, List.append_nil], hp⟩
    | some bs =>
      obtain ⟨hbs, rfl, -⟩ := hstep
      have hlen : bs.length ≤ text.length - p := by
        rw [hbs, List.length_take, List.length_drop]
        exact Nat.min_le_right _ _
      refine ⟨?_, by omega⟩
      rw [pieces_snoc, hpieces, Option.getD_some, List.take_add, ← hbs]

/-- **The end of the text**: a reader that gets nothing has all of it. -/
theorem run_eof {pre post : List (Option (List α))} (h : (reader text).Run (pre ++ some [] :: post) q) :
    pieces pre = text := by
  obtain ⟨p, _, hrun, ⟨-, -, hend⟩, -⟩ := h.cut
  rw [(run_pieces hrun).1, List.take_of_length_le (hend rfl)]

/-- Calls that neither fail nor return nothing move on. -/
theorem run_progress (h : (reader text).Run rs q) (hok : none ∉ rs) (hsome : some [] ∉ rs) : rs.length ≤ q := by
  refine h.history (P := fun rs q => none ∉ rs → some [] ∉ rs → rs.length ≤ q) ?_ ?_ hok hsome
  · intro q _ _ _
    exact Nat.zero_le q
  · intro rs p r q _ ih hstep hok hsome
    simp only [List.mem_append, List.mem_singleton, not_or] at hok hsome
    have hp := ih hok.1 hsome.1
    rw [List.length_append, List.length_singleton]
    cases r with
    | none => exact absurd rfl hok.2
    | some bs =>
      obtain ⟨-, rfl, -⟩ := hstep
      have hbs : 0 < bs.length := List.length_pos_iff.mpr fun hnil => hsome.2 (by rw [hnil])
      omega

/-- **Enough calls** that do not fail reach the end. -/
theorem run_reaches_eof (h : (reader text).Run rs q) (hok : none ∉ rs) (hlen : text.length < rs.length) :
    some [] ∈ rs := by
  by_contra hsome
  have hprogress := run_progress h hok hsome
  have hbound := (run_pieces h).2
  omega

end KernelModules.Lib.Reads
