import KernelModules.Lib.CString
import KernelModules.Lib.Threads

/-!
# User programs over a server

A user program prints lines, makes calls and goes on with their answers, until it exits. Any number of them run over one
server, one line or one call of one of them at a time.

- every program makes its own labels in its own order, whatever the others do (`run_trace`);
- `Client.Safe` says of a program alone that it makes only calls that may be made, never crashes if the answers are as
  they should be, and exits as expected. If the server gives such answers to such calls, then all programs stay safe and
  the server follows the history of all calls (`run_safe`);
- the answer to each call is given in the state that the calls before it have led to (`run_call`);
- if every program makes its calls in the order of a protocol (`Client.Keeps`), a run of the programs is a run of the
  protocol (`run_keeps`).
-/

namespace KernelModules.Lib

universe u v

variable {Q A : Type} {G : Type v} {P : Type u}

/-- What is left of a program. -/
inductive Client (Q A : Type) : Type
  | exit (ret : Int)
  | crash
  | print (line : List UInt8) (next : Client Q A)
  | call (q : Q) (next : A → Client Q A)

/-- `perror` after a call that returned `ret`. -/
def perror (strerror : Int → List UInt8) (text : String) (ret : Int) : List UInt8 :=
  ascii text ++ ascii ": " ++ strerror (-ret) ++ ascii "\n"

inductive ClientAct (Q A : Type)
  | print (line : List UInt8)
  | call (q : Q) (a : A)

namespace Client

/-- One line or one call. -/
inductive Step (reply : G → Q → A → G → Prop) : G → Client Q A → ClientAct Q A → G → Client Q A → Prop
  | print {g : G} {line : List UInt8} {next : Client Q A} : Step reply g (.print line next) (.print line) g next
  | call {g g' : G} {q : Q} {a : A} {next : A → Client Q A} : reply g q a g' →
      Step reply g (.call q next) (.call q a) g' (next a)

/-- The program does this and has then this left. -/
inductive Trace : Client Q A → List (ClientAct Q A) → Client Q A → Prop
  | nil (c : Client Q A) : Trace c [] c
  | print {line : List UInt8} {next c : Client Q A} {es : List (ClientAct Q A)} : Trace next es c →
      Trace (.print line next) (.print line :: es) c
  | call {q : Q} {a : A} {next : A → Client Q A} {c : Client Q A} {es : List (ClientAct Q A)} : Trace (next a) es c →
      Trace (.call q next) (.call q a :: es) c

theorem Trace.snoc {reply : G → Q → A → G → Prop} {g g' : G} {c c₁ c₂ : Client Q A} {es : List (ClientAct Q A)}
    {e : ClientAct Q A} (h : Trace c es c₁) (hstep : Step reply g c₁ e g' c₂) : Trace c (es ++ [e]) c₂ := by
  induction h with
  | nil c =>
    cases hstep with
    | print => exact .print (.nil _)
    | call => exact .call (.nil _)
  | print _ ih => exact .print (ih hstep)
  | call _ ih => exact .call (ih hstep)

/-- Calls that may be made, answers as they should be, and results as expected. -/
def Safe (pre : Q → Prop) (post : Q → A → Prop) (ok : Int → Prop) : Client Q A → Prop
  | exit ret => ok ret
  | crash => False
  | print _ next => next.Safe pre post ok
  | call q next => pre q ∧ ∀ a, post q a → (next a).Safe pre post ok

end Client

/-- What a server promises: its state follows the calls made so far as `R` says, and calls that may be made get
answers as they should be. -/
structure Promises (init : G → Prop) (reply : G → Q → A → G → Prop) (pre : Q → Prop) (post : Q → A → Prop)
    (R : List (Q × A) → G → Prop) : Prop where
  init : ∀ g, init g → R [] g
  reply : ∀ {h g q a g'}, R h g → pre q → reply g q a g' → R (h ++ [(q, a)]) g' ∧ post q a

/-- The lines that a program printed. -/
def printed (es : List (ClientAct Q A)) : List (List UInt8) :=
  es.filterMap fun e => match e with
    | .print line => some line
    | .call _ _ => none

/-- A call and its answer. -/
def ClientAct.exchange : ClientAct Q A → Option (Q × A)
  | .print _ => none
  | .call q a => some (q, a)

/-- The calls of all programs, in order. -/
def exchanges (tr : List (P × ClientAct Q A)) : List (Q × A) := tr.filterMap fun e => e.2.exchange

theorem exchanges_append (tr tr' : List (P × ClientAct Q A)) : exchanges (tr ++ tr') = exchanges tr ++ exchanges tr' :=
  List.filterMap_append

/-- The calls of all programs, with who made them. -/
def callsOf (tr : List (P × ClientAct Q A)) : List (P × (Q × A)) :=
  tr.filterMap fun e => e.2.exchange.map fun x => (e.1, x)

/-- What is said of the calls can be read off them or off all steps. -/
theorem filterMap_callsOf {B : Type} {f : ClientAct Q A → Option B} (hf : ∀ line, f (.print line) = none)
    (tr : List (P × ClientAct Q A)) :
    (callsOf tr).filterMap (fun x => f (.call x.2.1 x.2.2)) = tr.filterMap fun e => f e.2 := by
  rw [callsOf, List.filterMap_filterMap]
  refine congrFun (congrArg List.filterMap (funext fun ⟨p, e⟩ => ?_)) tr
  cases e with
  | print line => exact (hf line).symm
  | call q a => rfl

variable [DecidableEq P]

/-- Any interleaving of the programs. -/
def clients (init : G → Prop) (reply : G → Q → A → G → Prop) (prog : P → Client Q A) :
    System (Threads P G (Client Q A)) (P × ClientAct Q A) where
  init t := init t.shared ∧ ∀ p, t.pc p = prog p
  step t e t' := ∃ g c, Client.Step reply t.shared (t.pc e.1) e.2 g c ∧ t' = ⟨g, Function.update t.pc e.1 c⟩

section Runs

variable {init : G → Prop} {reply : G → Q → A → G → Prop} {prog : P → Client Q A} {tr : List (P × ClientAct Q A)}
  {t : Threads P G (Client Q A)}

/-- **Each program runs on its own**, up to the answers it gets. -/
theorem run_trace (h : (clients init reply prog).Run tr t) (p : P) :
    (prog p).Trace (System.labelsOf p tr) (t.pc p) := by
  refine System.Run.history (P := fun tr t => (prog p).Trace (System.labelsOf p tr) (t.pc p)) ?_ ?_ h
  · rintro t ⟨-, hpc⟩
    rw [hpc p]
    exact .nil _
  · rintro tr t ⟨q, e⟩ t' - ih ⟨g, c, hstep, rfl⟩
    by_cases hq : q = p
    · subst hq
      simp only [System.labelsOf_self, Function.update_self]
      exact ih.snoc hstep
    · simp only [System.labelsOf_ne hq, Function.update_of_ne (Ne.symm hq)]
      exact ih

/-- **Safe programs over a server that keeps its side.** The server's state follows the calls, and every program stays
safe. -/
theorem run_safe {pre : Q → Prop} {post : Q → A → Prop} {ok : P → Int → Prop} {R : List (Q × A) → G → Prop}
    (hpromise : Promises init reply pre post R) (hprog : ∀ p, (prog p).Safe pre post (ok p))
    (h : (clients init reply prog).Run tr t) :
    R (exchanges tr) t.shared ∧ ∀ p, (t.pc p).Safe pre post (ok p) := by
  refine System.Run.history (P := fun tr t => R (exchanges tr) t.shared ∧ ∀ p, (t.pc p).Safe pre post (ok p)) ?_ ?_ h
  · rintro t ⟨hg, hpc⟩
    exact ⟨hpromise.init _ hg, fun p => by rw [hpc p]; exact hprog p⟩
  · rintro tr t ⟨p, e⟩ t' - ⟨hR, hsafe⟩ ⟨g, c, hstep, rfl⟩
    have hp := hsafe p
    have hothers : ∀ q, c.Safe pre post (ok p) → (Function.update t.pc p c q).Safe pre post (ok q) := fun q hc => by
      by_cases hq : q = p
      · rw [hq, Function.update_self]
        exact hc
      · rw [Function.update_of_ne hq]
        exact hsafe q
    rw [exchanges_append]
    generalize t.pc p = c₀ at hstep hp
    cases hstep with
    | print => exact ⟨by simpa [exchanges, ClientAct.exchange] using hR, fun q => hothers q hp⟩
    | call hcall =>
      obtain ⟨hR', hpost⟩ := hpromise.reply hR hp.1 hcall
      exact ⟨hR', fun q => hothers q (hp.2 _ hpost)⟩

/-- **Each answer** is given in a state that the calls before it have led to. -/
theorem run_call {pre : Q → Prop} {post : Q → A → Prop} {ok : P → Int → Prop} {R : List (Q × A) → G → Prop}
    (hpromise : Promises init reply pre post R) (hprog : ∀ p, (prog p).Safe pre post (ok p))
    {tr' : List (P × ClientAct Q A)} {p : P} {q : Q} {a : A}
    (h : (clients init reply prog).Run (tr ++ (p, .call q a) :: tr') t) :
    ∃ g g', R (exchanges tr) g ∧ pre q ∧ reply g q a g' := by
  obtain ⟨t₁, t₂, hrun, ⟨g, c, hstep, rfl⟩, -⟩ := h.cut
  obtain ⟨hR, hsafe⟩ := run_safe hpromise hprog hrun
  have hp := hsafe p
  generalize t₁.pc p = c₀ at hstep hp
  cases hstep with
  | call hcall => exact ⟨t₁.shared, g, hR, hp.1, hcall⟩

/-- **No program waits for another.** If every call is answered at once, a program can come to its end on its own, from
wherever the others are. -/
theorem path_end (hlive : ∀ g q, ∃ a g', reply g q a g') (p : P) (t : Threads P G (Client Q A)) :
    ∃ tr t', (clients init reply prog).Path t tr t' ∧ (∀ e ∈ tr, e.1 = p) ∧
      (t'.pc p = .crash ∨ ∃ ret, t'.pc p = .exit ret) := by
  generalize hc : t.pc p = c
  induction c generalizing t with
  | exit ret => exact ⟨[], t, .nil t, fun _ he => (by cases he), .inr ⟨ret, hc⟩⟩
  | crash => exact ⟨[], t, .nil t, fun _ he => (by cases he), .inl hc⟩
  | print line next ih =>
    obtain ⟨tr, t', hpath, hown, hend⟩ := ih ⟨t.shared, Function.update t.pc p next⟩ (Function.update_self ..)
    have hstep : (clients init reply prog).step t (p, .print line) ⟨t.shared, Function.update t.pc p next⟩ :=
      ⟨_, _, hc ▸ .print, rfl⟩
    exact ⟨_, t', .cons hstep hpath, by simpa using hown, hend⟩
  | call q next ih =>
    obtain ⟨a, g', hreply⟩ := hlive t.shared q
    obtain ⟨tr, t', hpath, hown, hend⟩ := ih a ⟨g', Function.update t.pc p (next a)⟩ (Function.update_self ..)
    have hstep : (clients init reply prog).step t (p, .call q a) ⟨g', Function.update t.pc p (next a)⟩ :=
      ⟨_, _, hc ▸ .call hreply, rfl⟩
    exact ⟨_, t', .cons hstep hpath, by simpa using hown, hend⟩

end Runs

/-! ## Programs that keep to a protocol -/

section Protocol

variable {L : Type} {E : Type} {σ : L → Q → A → Option (E × L)} {post : Q → A → Prop} {final : L → Prop}

/-- A program that is at a place of a protocol makes only calls that the protocol has there, and exits only where it
may. -/
def Client.Keeps (σ : L → Q → A → Option (E × L)) (post : Q → A → Prop) (final : L → Prop) : L → Client Q A → Prop
  | l, .exit _ => final l
  | _, .crash => False
  | l, .print _ next => next.Keeps σ post final l
  | l, .call q next => ∀ a, post q a → ∃ e l', σ l q a = some (e, l') ∧ (next a).Keeps σ post final l'

variable {init : G → Prop} {reply : G → Q → A → G → Prop} {step : P → G → L → E → G → L → Prop}
  {erase : E → Q × A}

/-- **Refinement.** If all programs keep to a protocol, and the server keeps its invariant and answers as the steps of
the protocol do, then every run of the programs is a run of the protocol. -/
theorem run_keeps {prog : P → Client Q A} {l₀ : L} (hprog : ∀ p, (prog p).Keeps σ post final l₀)
    {tr : List (P × ClientAct Q A)} {t : Threads P G (Client Q A)} (h : (clients init reply prog).Run tr t)
    {I : G → Prop} (hinit : ∀ {g}, init g → I g) (hpost : ∀ {g q a g'}, I g → reply g q a g' → post q a ∧ I g')
    (hstep : ∀ p {g q a g' l e l'}, reply g q a g' → σ l q a = some (e, l') → step p g l e g' l' ∧ erase e = (q, a)) :
    I t.shared ∧ ∃ tr' t', (interleave init (· = l₀) step).Run tr' t' ∧ t'.shared = t.shared ∧
      tr'.map (fun e => (e.1, erase e.2)) = callsOf tr ∧ ∀ p, (t.pc p).Keeps σ post final (t'.pc p) := by
  refine System.Run.history (P := fun tr t => I t.shared ∧
    ∃ tr' t', (interleave init (· = l₀) step).Run tr' t' ∧ t'.shared = t.shared ∧
      tr'.map (fun e => (e.1, erase e.2)) = callsOf tr ∧ ∀ p, (t.pc p).Keeps σ post final (t'.pc p)) ?_ ?_ h
  · rintro t ⟨hg, hpc⟩
    refine ⟨hinit hg, [], ⟨t.shared, fun _ => l₀⟩, .nil ⟨hg, fun _ => rfl⟩, rfl, rfl, fun p => ?_⟩
    rw [hpc p]
    exact hprog p
  · rintro tr t ⟨p, e⟩ _ - ⟨hI, tr', t', hrun, hshared, hlabels, hkeeps⟩ ⟨g, c, hmove, rfl⟩
    have hp := hkeeps p
    have hothers : ∀ {l c}, Client.Keeps σ post final l c →
        ∀ q, (Function.update t.pc p c q).Keeps σ post final (Function.update t'.pc p l q) := fun hc q => by
      by_cases hq : q = p
      · simp only [hq, Function.update_self]
        exact hc
      · simp only [Function.update_of_ne hq]
        exact hkeeps q
    generalize t.pc p = c₀ at hmove hp
    cases hmove with
    | print =>
      refine ⟨hI, tr', t', hrun, hshared, ?_, fun q => ?_⟩
      · simpa [callsOf, ClientAct.exchange] using hlabels
      · have hq := hothers (l := t'.pc p) (c := c) hp q
        rwa [Function.update_eq_self] at hq
    | @call _ q a next hcall =>
      obtain ⟨hanswer, hI'⟩ := hpost hI hcall
      obtain ⟨e, l', hl', hnext⟩ := hp a hanswer
      rw [← hshared] at hcall
      obtain ⟨hmove, herase⟩ := hstep p hcall hl'
      refine ⟨hI', tr' ++ [(p, e)], ⟨g, Function.update t'.pc p l'⟩, hrun.snoc ⟨g, l', hmove, rfl⟩, rfl, ?_,
        hothers hnext⟩
      rw [List.map_append, hlabels]
      simp [callsOf, ClientAct.exchange, herase]

end Protocol

end KernelModules.Lib
