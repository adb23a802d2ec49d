import KernelModules.Locks.MutexDemo

/-!
# The texts of `sync_demo`

The mutex demo and the semaphore demo side by side, with `status_read` that looks at both without a lock: each value it
prints, and each byte of the message, may be from another moment.

Byte 26 of `shared_message` is NUL in every state (`run_ended`), since the longest message has 26 characters; so the
message is at most that long however it is read (`length_torn`), and all three texts fit their arrays
(`sync_demo_texts`).
-/

namespace KernelModules.Locks.SyncDemo

open Lib MutexDemo

universe u

variable {P : Type u}

abbrev State (P : Type u) : Type u := Threads P (Shared P) MutexDemo.Pc × Threads P (MutexSem.Pool P) MutexSem.Pc

/-- A process is in one handler at a time. -/
def OneHandler (s : State P) : (P × MutexDemo.Act) ⊕ (P × MutexSem.Act) → Prop
  | .inl e => (s.2.pc e.1).outside = true
  | .inr e => (s.1.pc e.1).outside = true

variable [DecidableEq P]

/-- Any number of processes in `mutex_demo_read` and in `semaphore_demo_read`. -/
def syncDemo (pid : P → Int32) : System (State P) ((P × MutexDemo.Act) ⊕ (P × MutexSem.Act)) :=
  ((mutexDemo pid).prod (MutexSem.semaphoreDemo fun p => (pid p).toInt)).restrict OneHandler

def Reachable (pid : P → Int32) (s : State P) : Prop := ∃ tr, (syncDemo pid).Run tr s

/-- The message read byte by byte, from the array as it is at each of these moments. -/
def torn (message : Nat → List UInt8) : List UInt8 := cstr ((List.range messageSize).map fun i => (message i).getD i 0)

/-! ## The array of the message -/

/-- The array has its length and ends by its byte 26. -/
def Ended (message : List UInt8) : Prop := message.length = messageSize ∧ message[26]? = some 0

/-- A message of at most 26 characters is printed over the array. -/
theorem Ended.snprintf {message text : List UInt8} (h : Ended message) (htext : text.length ≤ 26) :
    Ended (snprintf message messageSize text) := by
  obtain ⟨hlen, hend⟩ := h
  refine ⟨(length_snprintf (by decide) (Nat.le_of_eq hlen.symm)).trans hlen, ?_⟩
  have hshort : text.take (messageSize - 1) = text := List.take_of_length_le (by rw [messageSize]; omega)
  rw [Lib.snprintf, hshort, overlay, List.append_assoc, List.getElem?_append_right htext]
  -- the terminator, or what was there before
  rcases Nat.eq_or_lt_of_le htext with heq | hlt
  · rw [heq]
    rfl
  · rw [List.getElem?_append_right (by rw [List.length_singleton]; omega), List.getElem?_drop, List.length_append,
      List.length_singleton, show text.length + 1 + (26 - text.length - 1) = 26 by omega]
    exact hend

omit [DecidableEq P] in
/-- **One step** keeps the end of the array. -/
theorem readStep_ended {pid : P → Int32} {p : P} {g g' : Shared P} {l l' : MutexDemo.Pc} {act : MutexDemo.Act}
    (h : MutexDemo.ReadStep pid p g l act g' l') (hg : Ended g.sharedMessage) : Ended g'.sharedMessage := by
  cases h with
  | print => exact hg.snprintf (length_updatedText (pid p))
  | _ => exact hg

/-- **Every run** does. -/
theorem run_ended {pid : P → Int32} {tr : List (P × MutexDemo.Act)} {s : Threads P (Shared P) MutexDemo.Pc}
    (h : (mutexDemo pid).Run tr s) : Ended s.shared.sharedMessage := by
  refine h.invariant (I := fun s => Ended s.shared.sharedMessage) ?_ ?_
  · rintro ⟨g, pc⟩ ⟨rfl, -⟩
    have hinitial : Ended (strcpy (List.replicate messageSize 0) initialState) := ⟨by decide, by decide⟩
    exact hinitial
  · rintro s ⟨p, act⟩ _ hs ⟨g', l', hstep, rfl⟩
    exact readStep_ended hstep hs

theorem length_torn {message : Nat → List UInt8} (h : Ended (message 26)) : (torn message).length ≤ 26 := by
  have hzero : ((List.range messageSize).map fun i => (message i).getD i 0)[26]? = some 0 := by
    rw [List.getElem?_map, List.getElem?_range (by decide), Option.map_some, List.getD_eq_getElem?_getD, h.2,
      Option.getD_some]
  exact length_cstr_le_of_zero hzero

/-- Read at one moment, the message is the string in the array. -/
theorem torn_const {message : List UInt8} (h : message.length = messageSize) :
    torn (fun _ => message) = cstr message := by
  unfold torn
  congr 1
  refine List.ext_getElem (by simp [h]) fun i _ hi => ?_
  simp [List.getD_eq_getElem?_getD, hi]

/-! ## The texts -/

section Reachable

variable {pid : P → Int32} {s : State P}

theorem Reachable.mutex (h : Reachable pid s) : ∃ tr, (mutexDemo pid).Run tr s.1 := by
  obtain ⟨tr, hrun⟩ := h
  exact ⟨_, hrun.of_restrict.fst⟩

theorem Reachable.semaphore (h : Reachable pid s) :
    ∃ tr, (MutexSem.semaphoreDemo fun p => (pid p).toInt).Run tr s.2 := by
  obtain ⟨tr, hrun⟩ := h
  exact ⟨_, hrun.of_restrict.snd⟩

theorem Reachable.ended (h : Reachable pid s) : Ended s.1.shared.sharedMessage := by
  obtain ⟨tr, hrun⟩ := h.mutex
  exact run_ended hrun

theorem Reachable.users (h : Reachable pid s) :
    0 ≤ s.2.shared.activeUsers ∧ s.2.shared.activeUsers ≤ MutexSem.maxResources := by
  obtain ⟨tr, hrun⟩ := h.semaphore
  obtain ⟨n, k, -, htotal, hactive, hkn⟩ := (MutexSem.run_accounted hrun).users_le
  omega

theorem Reachable.mutexText {p : P} {text : List UInt8} (h : Reachable pid s) (hpc : s.1.pc p = .copying text) :
    Fits 256 text := by
  obtain ⟨tr, hrun⟩ := h.mutex
  have hshaped := (run_shaped hrun).2 p
  rw [hpc] at hshaped
  obtain ⟨localData, message, hmessage, rfl⟩ := hshaped
  exact fits_mutexText hmessage

theorem Reachable.semaphoreText {p : P} {text : List UInt8} (h : Reachable pid s) (hpc : s.2.pc p = .copying text) :
    Fits 256 text := by
  obtain ⟨tr, hrun⟩ := h.semaphore
  have hreports := (MutexSem.run_accounted hrun).reports p
  rw [hpc] at hreports
  obtain ⟨id, n, rfl, hpos, hle⟩ := hreports
  exact fits_semaphoreText (by omega) hle

end Reachable

/-- **The texts fit.** In every reachable state the text of `status_read` has at most 255 characters, also with a
message whose bytes, and with counters that, are those of other reachable states; so have the texts of the two other
handlers. -/
theorem sync_demo_texts (pid : P → Int32) (s : State P) (h : Reachable pid s) :
    (statusText s.1.shared.sharedData (cstr s.1.shared.sharedMessage) s.2.shared.activeUsers
      s.2.shared.resourceIdCounter).length < 256 ∧
    (∀ (message : Nat → State P) (users counter : State P), (∀ i, Reachable pid (message i)) → Reachable pid users →
      Reachable pid counter →
      (statusText s.1.shared.sharedData (torn fun i => (message i).1.shared.sharedMessage) users.2.shared.activeUsers
        counter.2.shared.resourceIdCounter).length < 256) ∧
    (∀ p text, s.1.pc p = .copying text → text.length < 256) ∧
    (∀ p text, s.2.pc p = .copying text → text.length < 256) := by
  have hviews : ∀ (message : Nat → State P) (users counter : State P), (∀ i, Reachable pid (message i)) →
      Reachable pid users → (statusText s.1.shared.sharedData (torn fun i => (message i).1.shared.sharedMessage)
        users.2.shared.activeUsers counter.2.shared.resourceIdCounter).length < 256 := by
    intro message users counter hmessage husers
    have hlen : (torn fun i => (message i).1.shared.sharedMessage).length ≤ 26 := length_torn (hmessage 26).ended
    exact (fits_statusText hlen husers.users.1 husers.users.2).2
  refine ⟨?_, fun message users counter hmessage husers _ => hviews message users counter hmessage husers,
    fun p text hpc => (h.mutexText hpc).2, fun p text hpc => (h.semaphoreText hpc).2⟩
  have hsame := hviews (fun _ => s) s s (fun _ => h) h
  rwa [torn_const h.ended.1] at hsame

section Steps

variable {pid : P → Int32} {tr : List ((P × MutexDemo.Act) ⊕ (P × MutexSem.Act))} {s : State P} {p : P}

theorem run_mutexStep {act : MutexDemo.Act} {g : Shared P} {l : MutexDemo.Pc} (h : (syncDemo pid).Run tr s)
    (hstep : MutexDemo.ReadStep pid p s.1.shared (s.1.pc p) act g l) (hout : (s.2.pc p).outside = true) :
    (syncDemo pid).Run (tr ++ [.inl (p, act)]) (⟨g, Function.update s.1.pc p l⟩, s.2) :=
  h.snoc ⟨⟨⟨g, l, hstep, rfl⟩, rfl⟩, hout⟩

theorem run_semaphoreStep {act : MutexSem.Act} {g : MutexSem.Pool P} {l : MutexSem.Pc} (h : (syncDemo pid).Run tr s)
    (hstep : MutexSem.ReadStep (fun p => (pid p).toInt) p s.2.shared (s.2.pc p) act g l)
    (hout : (s.1.pc p).outside = true) :
    (syncDemo pid).Run (tr ++ [.inr (p, act)]) (s.1, ⟨g, Function.update s.2.pc p l⟩) :=
  h.snoc ⟨⟨⟨g, l, hstep, rfl⟩, rfl⟩, hout⟩

end Steps

/-- One process has left the mutex while another one took a permit. -/
theorem sync_demo_texts_oneText : ∃ tr s, (syncDemo fun _ : Bool => -2147483648).Run tr s ∧
    ∃ text, s.1.pc true = .copying text ∧ text.length < 256 := by
  have hinit : (syncDemo fun _ : Bool => -2147483648).Run []
      (⟨initial, fun _ => .idle⟩, ⟨⟨MutexSem.maxResources, [], 0, 1⟩, fun _ => .idle⟩) :=
    .nil ⟨⟨rfl, fun _ => rfl⟩, rfl, fun _ => rfl⟩
  have hlocked := run_mutexStep (run_mutexStep (run_mutexStep hinit (p := true) (.call 0 rfl) rfl)
    (p := true) (.enter (by decide)) rfl) (p := true) (.lock rfl) rfl
  have hgranted := run_semaphoreStep (run_semaphoreStep (run_semaphoreStep hlocked (p := false) (.call 0 rfl) rfl)
    (p := false) (.enter (by decide)) rfl) (p := false) (.down (by decide)) rfl
  have hprinted := run_mutexStep (run_mutexStep (run_mutexStep hgranted (p := true) .load rfl)
    (p := true) .store rfl) (p := true) .print rfl
  have hleft := run_mutexStep (run_mutexStep (run_mutexStep hprinted (p := true) .copyData rfl)
    (p := true) .copyMessage rfl) (p := true) .unlock rfl
  exact ⟨_, _, hleft, _, rfl, (sync_demo_texts _ _ ⟨_, hleft⟩).2.2.1 true _ rfl⟩

end KernelModules.Locks.SyncDemo
