import KernelModules.Atomic.AtomicDemo

/-!
# The reference count

`ref_get` increments `ref_count`. `ref_put` decrements it and, if it has reached zero, stores 1 in a second step ("Reset
for demo purposes"). By the books, the count is 1, plus the increments, minus the decrements, plus the resets
(`balance`); when no command is in progress there have been as many resets as decrements to zero.

A reset stores 1 whatever it finds. So the count follows the books in every state of a run exactly if every reset of the
run finds 0 (`ref_count_accounting`); a reference that another writer acquired between the decrement and the reset is
forgotten (`ref_count_forgotten`).
-/

namespace KernelModules.Atomic

open Lib Lib.Calls

universe u

/-! ## Operations on the count -/

def Op.isRefInc : Op → Bool
  | .refInc => true
  | _ => false

def Op.isRefDec : Op → Bool
  | .refDecAndTest => true
  | _ => false

def Op.isReset : Op → Bool
  | .refReset => true
  | _ => false

/-- A decrement to zero. -/
def reachedZero : (o : Op) → o.Result → Bool
  | .refDecAndTest, (zero : Bool) => zero
  | _, _ => false

/-- The word of a command to `advanced`. -/
def advancedWord : File × UserText → Option (List UInt8)
  | (.advanced, w) => match scanInput w with
    | .ok (operation, _) => some operation
    | .error _ => none
  | _ => none

def isRefGet (c : File × UserText) : Bool := decide (advancedWord c = some (ascii "ref_get"))

def isRefPut (c : File × UserText) : Bool := decide (advancedWord c = some (ascii "ref_put"))

/-- Not on `ref_count`. -/
def Op.offRef : Op → Bool
  | .refInc | .refRead | .refDecAndTest | .refReset => false
  | _ => true

theorem Op.plain_offRef (o : Op) (ho : o.plain = true) : o.offRef = true := by
  cases o with
  | refInc | refRead | refDecAndTest | refReset => cases ho
  | _ => rfl

/-- Only the commands to `advanced` get to `ref_count`. -/
theorem write_advanced (c : File × UserText) :
    ((write c).All Op.offRef ∧ advancedWord c = none) ∨ ∃ operation value count,
      write c = .bind .incOperationsCount (fun _ => advancedOperation operation value count) ∧
        advancedWord c = some operation := by
  obtain ⟨file, w⟩ := c
  cases file with
  | basic =>
    refine .inl ⟨?_, rfl⟩
    rw [write, atomicBasicWrite]
    split
    · trivial
    · exact ⟨rfl, fun _ => (basicOperation_plain _ _ _).mono Op.plain_offRef⟩
  | advanced =>
    cases hscan : scanInput w with
    | error e => exact .inl (by simp [write, atomicAdvancedWrite, advancedWord, hscan, Prog.All])
    | ok command =>
      refine .inr ⟨command.1, command.2.getD 0, w.count, ?_, ?_⟩
      · simp only [write, atomicAdvancedWrite, hscan]
      · simp only [advancedWord, hscan]
  | bits =>
    refine .inl ⟨?_, rfl⟩
    rw [write, atomicBitsWrite]
    split
    · trivial
    · trivial
    · split_ifs
      · trivial
      · exact ⟨rfl, fun _ => (bitsOperation_plain _ _ _).mono Op.plain_offRef⟩

/-- A command to `advanced` with one word performs an operation once, if `ref_get` and `ref_put` do as the word says. -/
theorem write_makes_ref {kind : Op → Bool} {word : List UInt8} (hoff : ∀ o : Op, o.offRef = true → kind o = false)
    (hread : kind .refRead = false) (hreset : kind .refReset = false)
    (hget : kind .refInc = decide (ascii "ref_get" = word))
    (hput : kind .refDecAndTest = decide (ascii "ref_put" = word))
    (hword : word = ascii "ref_get" ∨ word = ascii "ref_put") (c : File × UserText) :
    (write c).Makes kind (decide (advancedWord c = some word)).toNat := by
  rcases write_advanced c with ⟨hall, hc⟩ | ⟨operation, value, count, hwrite, hc⟩
  · simpa [hc] using hall.makes hoff
  · rw [hwrite, hc]
    refine ⟨(decide (some operation = some word)).toNat, by simp [hoff .incOperationsCount rfl], fun _ => ?_⟩
    rcases advancedOperation_refs operation value count with ⟨rfl, hbody⟩ | ⟨rfl, hbody⟩ | ⟨hne, hne', hplain⟩
    · rw [hbody]
      exact ⟨0, by simp [hget], fun _ => ⟨0, by simp [hread], fun _ => rfl⟩⟩
    · rw [hbody]
      refine ⟨0, by simp [hput], fun zero => ?_⟩
      cases zero with
      | true => exact ⟨0, by simp [hreset], fun _ => rfl⟩
      | false => exact ⟨0, by simp [hread], fun _ => rfl⟩
    · have hother : operation ≠ word := by
        rcases hword with rfl | rfl
        · exact hne
        · exact hne'
      simpa [hother] using (hplain.mono Op.plain_offRef).makes hoff

/-- **One command**: `ref_get` increments the count once, and no other command does. -/
theorem write_gets (c : File × UserText) : (write c).Makes Op.isRefInc (isRefGet c).toNat := by
  refine write_makes_ref (fun o ho => ?_) rfl rfl (by decide) (by decide) (.inl rfl) c
  cases o with
  | refInc => cases ho
  | _ => rfl

/-- **One command**: `ref_put` decrements the count once, and no other command does. -/
theorem write_puts (c : File × UserText) : (write c).Makes Op.isRefDec (isRefPut c).toNat := by
  refine write_makes_ref (fun o ho => ?_) rfl rfl (by decide) (by decide) (.inr rfl) c
  cases o with
  | refDecAndTest => cases ho
  | _ => rfl

/-- **One command**: the count is reset right behind a decrement to zero, and only there. -/
theorem write_resets (c : File × UserText) :
    (write c).headIs Op.isReset = false ∧ (write c).Paired Op.isReset reachedZero := by
  have hkind : ∀ o : Op, o.offRef = true → o.isReset = false := by
    intro o ho
    cases o with
    | refReset => cases ho
    | _ => rfl
  have hoccasion : ∀ (o : Op) (r : o.Result), o.offRef = true → reachedZero o r = false := by
    intro o r ho
    cases o with
    | refDecAndTest => cases ho
    | _ => rfl
  rcases write_advanced c with ⟨hoff, -⟩ | ⟨operation, value, count, hwrite, -⟩
  · exact ⟨hoff.headIs hkind, hoff.paired hkind hoccasion⟩
  · rw [hwrite]
    refine ⟨rfl, fun _ => ?_⟩
    rcases advancedOperation_refs operation value count with ⟨-, hbody⟩ | ⟨-, hbody⟩ | ⟨-, -, hplain⟩
    · rw [hbody]
      exact ⟨rfl, fun _ => ⟨rfl, fun _ => ⟨rfl, trivial⟩⟩⟩
    · rw [hbody]
      refine ⟨rfl, fun zero => ?_⟩
      cases zero with
      | true | false => exact ⟨rfl, fun _ => ⟨rfl, trivial⟩⟩
    · have hoff := hplain.mono Op.plain_offRef
      exact ⟨hoff.headIs hkind, hoff.paired hkind hoccasion⟩

/-! ## The books -/

section Runs

variable {P : Type u}

/-- The increments of `ref_count`. -/
def gets (tr : List (P × Act Op Op.Result Int (File × UserText))) : Nat := tr.countP fun e => e.2.isKind Op.isRefInc

/-- The decrements. -/
def puts (tr : List (P × Act Op Op.Result Int (File × UserText))) : Nat := tr.countP fun e => e.2.isKind Op.isRefDec

/-- The resets. -/
def resets (tr : List (P × Act Op Op.Result Int (File × UserText))) : Nat := tr.countP fun e => e.2.isKind Op.isReset

def reachesZero : Act Op Op.Result Int (File × UserText) → Bool
  | .atomic _ e => reachedZero e.1 e.2
  | _ => false

/-- The decrements to zero. -/
def zeros (tr : List (P × Act Op Op.Result Int (File × UserText))) : Nat := tr.countP fun e => reachesZero e.2

/-- What a step makes of the count; a reset stores 1. -/
def refMove (r : Int32) (a : Act Op Op.Result Int (File × UserText)) : Int32 :=
  if a.isKind Op.isReset then 1
  else r + Int32.ofNat (a.isKind Op.isRefInc).toNat - Int32.ofNat (a.isKind Op.isRefDec).toNat

/-- Every reset finds 0, if the count is `r` at first. -/
def resetsFindZero : Int32 → List (Act Op Op.Result Int (File × UserText)) → Bool
  | _, [] => true
  | r, a :: as => (!a.isKind Op.isReset || r == 0) && resetsFindZero (refMove r a) as

/-- The count by the books. -/
def balance (tr : List (P × Act Op Op.Result Int (File × UserText))) : Int32 :=
  1 + Int32.ofNat (gets tr) - Int32.ofNat (puts tr) + Int32.ofNat (resets tr)

theorem balance_nil : balance ([] : List (P × Act Op Op.Result Int (File × UserText))) = 1 := by
  simp [balance, gets, puts, resets]

theorem balance_snoc (tr : List (P × Act Op Op.Result Int (File × UserText)))
    (e : P × Act Op Op.Result Int (File × UserText)) : balance (tr ++ [e]) =
      balance tr + Int32.ofNat (e.2.isKind Op.isRefInc).toNat - Int32.ofNat (e.2.isKind Op.isRefDec).toNat +
        Int32.ofNat (e.2.isKind Op.isReset).toNat := by
  simp only [balance, gets, puts, resets, System.countP_snoc, Int32.ofNat_add]
  grind

variable [DecidableEq P] {tr : List (P × Act Op Op.Result Int (File × UserText))}
  {s : Threads P Shared (Pc Op Op.Result Int (File × UserText))}

/-- **One step** changes the count as the books do, but for a reset. -/
theorem step_refCount {g g' : Shared} {l l' : Pc Op Op.Result Int (File × UserText)}
    {a : Act Op Op.Result Int (File × UserText)} (h : Step sem write g l a g' l') :
    g'.refCount = refMove g.refCount a := by
  cases h with
  | call | ret => simp [refMove, Act.isKind]
  | @atomic c o next => cases o <;> simp [refMove, sem, Act.isKind, Op.isReset, Op.isRefInc, Op.isRefDec]

/-- **Every run**: the count is a function of the labels. -/
theorem run_refCount (h : (atomicDemo P).Run tr s) : s.shared.refCount = (tr.map Prod.snd).foldl refMove 1 := by
  refine System.Run.history (P := fun tr s => s.shared.refCount = (tr.map Prod.snd).foldl refMove 1) ?_ ?_ h
  · rintro s ⟨hs, -⟩
    rw [hs]
    rfl
  · rintro tr s e _ - hs ⟨g', l', hstep, rfl⟩
    rw [List.map_append, List.foldl_append, ← hs]
    exact step_refCount hstep

theorem reset_only {a : Act Op Op.Result Int (File × UserText)} (ha : a.isKind Op.isReset = true) :
    a.isKind Op.isRefInc = false ∧ a.isKind Op.isRefDec = false := by
  cases a with
  | call | ret => cases ha
  | atomic c e =>
    obtain ⟨o, r⟩ := e
    cases o with
    | refReset => exact ⟨rfl, rfl⟩
    | _ => cases ha

/-- The count moves with the books, except in a reset that does not find 0. -/
theorem refCount_follows {m m' : Threads P Shared (Pc Op Op.Result Int (File × UserText))}
    {e : P × Act Op Op.Result Int (File × UserText)} (hstep : (atomicDemo P).step m e m')
    (hm : m.shared.refCount = balance tr) :
    m'.shared.refCount = balance (tr ++ [e]) ↔ (e.2.isKind Op.isReset = true → m.shared.refCount = 0) := by
  obtain ⟨g', l', hstep, rfl⟩ := hstep
  dsimp only
  rw [step_refCount hstep, balance_snoc, ← hm, refMove]
  cases hreset : e.2.isKind Op.isReset with
  | false => simp
  | true =>
    obtain ⟨hinc, hdec⟩ := reset_only hreset
    rw [hinc, hdec]
    simp

/-- When nobody is in a command there have been as many resets as decrements to zero. -/
theorem run_zeros (h : (atomicDemo P).Run tr s) (hidle : ∀ p, s.pc p = .idle) : resets tr = zeros tr := by
  obtain ⟨n, hn, hcount⟩ := run_paired (fun c => (write_resets c).2) h
  have hzero : n = 0 := hn.eq_zero fun p => by rw [hidle p]; rfl
  have hraises : ∀ a : Act Op Op.Result Int (File × UserText),
      a.raises write Op.isReset reachedZero = reachesZero a := by
    intro a
    cases a with
    | call c => exact (write_resets c).1
    | atomic | ret => rfl
  simp only [hraises] at hcount
  simp only [resets, zeros]
  omega

/-- **Accounting.** In a run of any writers `ref_count` is what the books say in every state exactly if every reset
finds 0; a reset that finds anything else forgets it. When no command is in progress, the books have one increment for
each `ref_get`, one decrement for each `ref_put` and one reset for each `ref_put` that reached zero. -/
theorem ref_count_accounting (tr : List (P × Act Op Op.Result Int (File × UserText)))
    (s : Threads P Shared (Pc Op Op.Result Int (File × UserText))) (h : (atomicDemo P).Run tr s) :
    ((∀ pre post m, tr = pre ++ post → (atomicDemo P).Run pre m → m.shared.refCount = balance pre) ↔
      ∀ pre e post m, tr = pre ++ e :: post → (atomicDemo P).Run pre m → e.2.isKind Op.isReset = true →
        m.shared.refCount = 0) ∧
    ((∀ p, s.pc p = .idle) →
      balance tr = 1 + Int32.ofNat (gets tr) - Int32.ofNat (puts tr) + Int32.ofNat (zeros tr) ∧
      ∀ p, (issued p tr).filter isRefGet = performed Op.isRefInc p tr ∧
        (issued p tr).filter isRefPut = performed Op.isRefDec p tr) := by
  refine ⟨⟨fun hbooks => ?_, fun hresets => ?_⟩, fun hidle => ⟨?_, fun p => ⟨?_, ?_⟩⟩⟩
  · intro pre e post m htr hm hreset
    subst htr
    -- the state the reset was made in has the same books as `m`
    obtain ⟨m₁, m₂, hm₁, hstep, -⟩ := h.cut
    have hbefore := hbooks pre (e :: post) m₁ rfl hm₁
    have hafter := hbooks (pre ++ [e]) post m₂ (by simp) (hm₁.snoc hstep)
    rw [hbooks pre (e :: post) m rfl hm, ← hbefore]
    exact (refCount_follows hstep hbefore).mp hafter hreset
  · intro pre post m htr hm
    refine System.Run.history (P := fun pre m => pre <+: tr → m.shared.refCount = balance pre) ?_ ?_ hm ⟨post, htr.symm⟩
    · rintro m ⟨hm, -⟩ -
      rw [hm, balance_nil]
      rfl
    · rintro pre m e m' hm hbefore hstep ⟨post, hpost⟩
      have htr : tr = pre ++ e :: post := by rw [← hpost, List.append_assoc, List.singleton_append]
      exact (refCount_follows hstep (hbefore ⟨_, htr.symm⟩)).mpr (hresets pre e post m htr hm)
  · rw [balance, run_zeros h hidle]
  · exact run_performed_idle write_gets h (hidle p)
  · exact run_performed_idle write_puts h (hidle p)

theorem foldl_refMove_eq_zero {r : Int32} {as : List (Act Op Op.Result Int (File × UserText))}
    (h : resetsFindZero r as = true) {pre post : List (Act Op Op.Result Int (File × UserText))}
    {a : Act Op Op.Result Int (File × UserText)} (has : as = pre ++ a :: post) (ha : a.isKind Op.isReset = true) :
    pre.foldl refMove r = 0 := by
  induction pre generalizing r as with
  | nil =>
    subst has
    simp only [List.nil_append, resetsFindZero, ha, Bool.not_true, Bool.false_or, Bool.and_eq_true, beq_iff_eq] at h
    exact h.1
  | cons b pre ih =>
    subst has
    rw [List.cons_append, resetsFindZero, Bool.and_eq_true] at h
    exact ih h.2 rfl

end Runs

/-- One writer puts the last reference and resets the count, then another one gets a reference. -/
def putThenGet : List (Bool × Act Op Op.Result Int (File × UserText)) :=
  [(true, .call (.advanced, .ofString "ref_put")),
   (true, .atomic (.advanced, .ofString "ref_put") ⟨.incOperationsCount, ()⟩),
   (true, .atomic (.advanced, .ofString "ref_put") ⟨.refDecAndTest, true⟩),
   (true, .atomic (.advanced, .ofString "ref_put") ⟨.refReset, ()⟩), (true, .ret (.advanced, .ofString "ref_put") 7),
   (false, .call (.advanced, .ofString "ref_get")),
   (false, .atomic (.advanced, .ofString "ref_get") ⟨.incOperationsCount, ()⟩),
   (false, .atomic (.advanced, .ofString "ref_get") ⟨.refInc, ()⟩),
   (false, .atomic (.advanced, .ofString "ref_get") ⟨.refRead, (2 : Int32)⟩),
   (false, .ret (.advanced, .ofString "ref_get") 7)]

theorem ref_count_accounting_putThenGet : ∃ s, (atomicDemo Bool).Run putThenGet s ∧
    s.shared.refCount = balance putThenGet ∧ balance putThenGet = 2 ∧ zeros putThenGet = 1 := by
  have hrun : (atomicDemo Bool).Run putThenGet _ :=
    ⟨pair initial .idle .idle, ⟨rfl, by rintro (_ | _) <;> rfl⟩,
      .cons (callers_step_true (.call _) _) <| .cons (callers_step_true .atomic _) <|
      .cons (callers_step_true .atomic _) <| .cons (callers_step_true .atomic _) <|
      .cons (callers_step_true .ret _) <| .cons (callers_step_false (.call _) _) <|
      .cons (callers_step_false .atomic _) <| .cons (callers_step_false .atomic _) <|
      .cons (callers_step_false .atomic _) <| .cons (callers_step_false .ret _) <| .nil _⟩
  have hresets : ∀ pre e post m, putThenGet = pre ++ e :: post → (atomicDemo Bool).Run pre m →
      e.2.isKind Op.isReset = true → m.shared.refCount = 0 := by
    intro pre e post m htr hm hreset
    have hzero : resetsFindZero 1 (putThenGet.map Prod.snd) = true := rfl
    rw [run_refCount hm]
    exact foldl_refMove_eq_zero (r := 1) hzero (by rw [htr, List.map_append, List.map_cons]) hreset
  have hbooks := (ref_count_accounting _ _ hrun).1.mpr hresets
  exact ⟨_, hrun, hbooks putThenGet [] _ (by simp) hrun, rfl, rfl⟩

/-- A reference is acquired between the decrement to zero of another writer and its reset. -/
def getInBetween : List (Bool × Act Op Op.Result Int (File × UserText)) :=
  [(true, .call (.advanced, .ofString "ref_put")),
   (true, .atomic (.advanced, .ofString "ref_put") ⟨.incOperationsCount, ()⟩),
   (true, .atomic (.advanced, .ofString "ref_put") ⟨.refDecAndTest, true⟩),
   (false, .call (.advanced, .ofString "ref_get")),
   (false, .atomic (.advanced, .ofString "ref_get") ⟨.incOperationsCount, ()⟩),
   (false, .atomic (.advanced, .ofString "ref_get") ⟨.refInc, ()⟩),
   (false, .atomic (.advanced, .ofString "ref_get") ⟨.refRead, (1 : Int32)⟩),
   (false, .ret (.advanced, .ofString "ref_get") 7),
   (true, .atomic (.advanced, .ofString "ref_put") ⟨.refReset, ()⟩), (true, .ret (.advanced, .ofString "ref_put") 7)]

/-- Nobody is in a command, and the count is 1 where it should be 2. -/
theorem ref_count_forgotten : ∃ s, (atomicDemo Bool).Run getInBetween s ∧ (∀ p, s.pc p = .idle) ∧
    s.shared.refCount = 1 ∧ gets getInBetween = 1 ∧ puts getInBetween = 1 ∧ zeros getInBetween = 1 := by
  have hrun : (atomicDemo Bool).Run getInBetween _ :=
    ⟨pair initial .idle .idle, ⟨rfl, by rintro (_ | _) <;> rfl⟩,
      .cons (callers_step_true (.call _) _) <| .cons (callers_step_true .atomic _) <|
      .cons (callers_step_true .atomic _) <| .cons (callers_step_false (.call _) _) <|
      .cons (callers_step_false .atomic _) <| .cons (callers_step_false .atomic _) <|
      .cons (callers_step_false .atomic _) <| .cons (callers_step_false .ret _) <|
      .cons (callers_step_true .atomic _) <| .cons (callers_step_true .ret _) <| .nil _⟩
  exact ⟨_, hrun, by rintro (_ | _) <;> rfl, rfl, rfl, rfl, rfl⟩

end KernelModules.Atomic
