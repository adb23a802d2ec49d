import KernelModules.Lib.Increments
import KernelModules.Netlink.Packets
import KernelModules.Netlink.Replies

/-!
# The counter when messages are handled at once

The calls of several processes interleave, so two of them can load `message_counter` before either stores it. The
loads and stores are increments that are not atomic; how far the counter can be off follows from those.

- `counter_bounds`: the counter never exceeds the number of HELLOs that were taken up, and is positive once one of them
  was counted;
- `run_agrees`: what every call in progress is about to answer;
- `netlink_numbers`: the numbers in the replies, and when the counter is right.
-/

namespace KernelModules.Netlink

open Lib Lib.Increments

universe u v

variable {Client : Type u} {P : Type v}

/-! ## The increments -/

/-- The half of `message_counter++` that a step is. -/
def half : Act Client → Option Inc
  | .load => some .load
  | .store => some .store
  | _ => none

/-- The value loaded and not yet stored. -/
def Pc.loaded : Pc Client → Option Int32
  | .incrementing _ m => some m
  | _ => none

/-- The number of HELLOs that were taken up. -/
def helloLoads (tr : List (P × Act Client)) : Nat := tr.countP fun e => half e.2 == some .load

/-- One of them was counted. -/
def Counted (tr : List (P × Act Client)) : Prop := ∃ p, (p, .store) ∈ tr

theorem recvStep_follows {p : P} {n n' : Int32} {l l' : Pc Client} {act : Act Client} (h : RecvStep p n l act n' l') :
    Follows id Pc.loaded half (· + 1) n l act n' l' := by
  cases h with
  | load => exact ⟨rfl, rfl, rfl⟩
  | store => exact ⟨rfl, _, rfl, rfl⟩
  | _ => exact ⟨rfl, rfl⟩

section Counter

variable [DecidableEq P] {tr : List (P × Act Client)} {s : Threads P Int32 (Pc Client)}

theorem run_increments (h : (netlinkExample P Client).Run tr s) :
    ∃ (t : Threads P Counter (Option Nat)) (ids : List Int32),
    increments.Run (tr.filterMap (halfOf half)) t ∧ Agree id Pc.loaded (· + 1) 0 ids s t ∧
      t.shared.taken.length = helloLoads tr := by
  obtain ⟨t, ids, hrun, hagree⟩ := Follows.agree_run (fun _ h => h) (by rintro l rfl; rfl) recvStep_follows h
  exact ⟨t, ids, hrun, hagree, (run_length hrun).trans (countP_load_filterMap half tr)⟩

omit [DecidableEq P] in
theorem counter_eq {t : Threads P Counter (Option Nat)} {ids : List Int32}
    (h : Agree id Pc.loaded (· + 1) 0 ids s t) : s.shared = Int32.ofNat t.shared.value := by
  have := h.counter
  rw [iterate_add_one, Int32.zero_add] at this
  exact this

/-- **The counter** in every interleaving. -/
theorem counter_bounds (h : (netlinkExample P Client).Run tr s) (hfew : helloLoads tr < 2 ^ 31) :
    0 ≤ s.shared.toInt ∧ s.shared.toInt ≤ helloLoads tr ∧ (Counted tr → 1 ≤ s.shared.toInt) := by
  obtain ⟨t, ids, hrun, hagree, hlen⟩ := run_increments h
  have hle : t.shared.value ≤ t.shared.taken.length := (run_bounded hrun).value
  rw [counter_eq hagree, Int32.toInt_ofNat_of_lt (by omega)]
  refine ⟨by omega, by omega, ?_⟩
  rintro ⟨p, hp⟩
  have hstore : (p, Inc.store) ∈ tr.filterMap (halfOf half) := List.mem_filterMap.mpr ⟨_, hp, rfl⟩
  have := run_positive hrun hstore
  omega

end Counter

/-! ## The replies -/

/-- What the reply to a type can carry when `k` HELLOs were taken up. -/
structure Number (k : Nat) (t data : Int32) : Prop where
  hello : t = msgTypeHello → 1 ≤ data.toInt ∧ data.toInt ≤ k
  counter : t = msgTypeCounter → 0 ≤ data.toInt ∧ data.toInt ≤ k
  status : t = msgTypeStatus → data = 0
  unknown : ¬Known t → data = -1

theorem Number.mono {k k' : Nat} {t data : Int32} (h : Number k t data) (hk : k ≤ k') : Number k' t data where
  hello ht := ⟨(h.hello ht).1, by have := (h.hello ht).2; omega⟩
  counter ht := ⟨(h.counter ht).1, by have := (h.counter ht).2; omega⟩
  status := h.status
  unknown := h.unknown

/-- A call of `p` in progress keeps to the type of its message. Once `p` has counted a HELLO, its COUNTER requests find
the counter positive. -/
def Pc.Agrees (p : P) (tr : List (P × Act Client)) : Pc Client → Prop
  | .idle => True
  | .received _ => True
  | .incrementing call _ => msgType call.skb = msgTypeHello
  | .counted call => msgType call.skb = msgTypeHello ∧ (p, .store) ∈ tr
  | .sending call t data text => t = replyType (msgType call.skb) ∧ text = replyText (msgType call.skb) ∧
      Number (helloLoads tr) (msgType call.skb) data ∧ (msgType call.skb = msgTypeHello → (p, .store) ∈ tr) ∧
      (msgType call.skb = msgTypeCounter → (p, .store) ∈ tr → 1 ≤ data.toInt)

theorem helloLoads_append (tr tr' : List (P × Act Client)) : helloLoads (tr ++ tr') = helloLoads tr + helloLoads tr' :=
  List.countP_append

/-- Only a store of `p` itself matters. -/
theorem Pc.Agrees.snoc {p : P} {tr : List (P × Act Client)} {l : Pc Client} {e : P × Act Client} (h : l.Agrees p tr)
    (he : e ≠ (p, .store)) : l.Agrees p (tr ++ [e]) := by
  have hstore : (p, .store) ∈ tr ++ [e] ↔ (p, .store) ∈ tr := by simp [Ne.symm he]
  cases l with
  | idle => trivial
  | received => trivial
  | incrementing => exact h
  | counted => exact ⟨h.1, hstore.mpr h.2⟩
  | sending =>
    obtain ⟨htype, htext, hnumber, hhello, hcounter⟩ := h
    exact ⟨htype, htext, hnumber.mono (by rw [helloLoads_append]; omega), fun ht => hstore.mpr (hhello ht),
      fun ht hs => hcounter ht (hstore.mp hs)⟩

theorem types_ne : msgTypeCounter ≠ msgTypeHello ∧ msgTypeStatus ≠ msgTypeHello ∧ msgTypeStatus ≠ msgTypeCounter :=
  by decide

section Runs

variable {tr : List (P × Act Client)} {s s' : Threads P Int32 (Pc Client)}

/-- One step of one call. -/
theorem recvStep_agrees {p : P} {n n' : Int32} {l l' : Pc Client} {act : Act Client} (h : RecvStep p n l act n' l')
    (hl : l.Agrees p tr) (hn : 0 ≤ n.toInt ∧ n.toInt ≤ helloLoads tr ∧ (Counted tr → 1 ≤ n.toInt)) :
    l'.Agrees p (tr ++ [(p, act)]) := by
  obtain ⟨hcounter, hstatus, hstatus'⟩ := types_ne
  cases h with
  | message => trivial
  | load ht => exact ht
  | store => exact ⟨hl, List.mem_append_right _ (List.mem_singleton_self _)⟩
  | hello =>
    obtain ⟨ht, hstore⟩ := hl
    refine Pc.Agrees.snoc (l := .sending _ _ _ _) ⟨?_, ?_, ?_, fun _ => hstore, fun h =>
      absurd (h.symm.trans ht) hcounter⟩
      (by simp)
    · rw [ht]; rfl
    · rw [ht]; rfl
    · rw [ht]
      exact ⟨fun _ => ⟨hn.2.2 ⟨p, hstore⟩, hn.2.1⟩, fun h => absurd h.symm hcounter, fun h => absurd h.symm hstatus,
        fun h => absurd (.inl rfl) h⟩
  | counter ht =>
    refine Pc.Agrees.snoc (l := .sending _ _ _ _) ⟨?_, ?_, ?_, fun h => absurd (ht.symm.trans h) hcounter,
      fun _ hstore => hn.2.2 ⟨p, hstore⟩⟩ (by simp)
    · rw [ht]; rfl
    · rw [ht]; rfl
    · rw [ht]
      exact ⟨fun h => absurd h hcounter, fun _ => ⟨hn.1, hn.2.1⟩, fun h => absurd h.symm hstatus',
        fun h => absurd (.inr (.inl rfl)) h⟩
  | status ht =>
    refine Pc.Agrees.snoc (l := .sending _ _ _ _) ⟨?_, ?_, ?_, fun h => absurd (ht.symm.trans h) hstatus,
      fun h => absurd (ht.symm.trans h) hstatus'⟩ (by simp)
    · rw [ht]; rfl
    · rw [ht]; rfl
    · rw [ht]
      exact ⟨fun h => absurd h hstatus, fun h => absurd h hstatus', fun _ => rfl, fun h => absurd (.inr (.inr rfl)) h⟩
  | unknown h₁ h₂ h₃ =>
    have hunknown : ¬Known _ := fun hk => hk.elim h₁ fun hk => hk.elim h₂ h₃
    refine Pc.Agrees.snoc (l := .sending _ _ _ _) ⟨(replyType_of_unknown hunknown).symm, ?_, ?_, fun h => absurd h h₁,
      fun h => absurd h h₂⟩ (by simp)
    · rw [replyText, if_neg h₁, if_neg h₂, if_neg h₃]
    · exact ⟨fun h => absurd h h₁, fun h => absurd h h₂, fun h => absurd h h₃, fun _ => rfl⟩
  | send => trivial

/-- What a reply is, when the calls have come this far. -/
structure Reply.Answers (p : P) (tr : List (P × Act Client)) (t : Int32) (x : Reply) : Prop where
  msgType : x.msgType = replyType t
  text : x.text = paddedField 63 (replyText t)
  number : Number (helloLoads tr) t x.data
  hello : t = msgTypeHello → (p, .store) ∈ tr
  counter : t = msgTypeCounter → (p, .store) ∈ tr → 1 ≤ x.data.toInt

/-- The reply that a step sends. -/
theorem recvStep_answer {p : P} {n n' : Int32} {l l' : Pc Client} {c : Client} {skb : Nat → UInt8} {x : Reply}
    (h : RecvStep p n l (.answer c skb (some x)) n' l') (hl : l.Agrees p tr) : x.Answers p tr (msgType skb) := by
  generalize hact : Act.answer c skb (some x) = act at h
  cases h with
  | send fate =>
    obtain ⟨rfl, rfl, hreply⟩ := Act.answer.inj hact
    obtain ⟨rfl, rfl, hnumber, hhello, hcounter⟩ := hl
    cases fate with
    | sent =>
      obtain rfl := Option.some.inj hreply
      exact ⟨rfl, strncpy_set rfl _, hnumber, hhello, hcounter⟩
    | _ => cases hreply
  | _ => cases hact

theorem cstr_replyText (t : Int32) : cstr (paddedField 63 (replyText t)) = replyText t := by
  rw [cstr_paddedField, replyText]
  split_ifs <;> decide

variable [DecidableEq P]

/-- **Every run**: all calls in progress agree with their messages. -/
theorem run_agrees (h : (netlinkExample P Client).Run tr s) (hfew : helloLoads tr < 2 ^ 31) (p : P) :
    (s.pc p).Agrees p tr := by
  refine System.Run.history (P := fun tr s => helloLoads tr < 2 ^ 31 → ∀ p, (s.pc p).Agrees p tr) ?_ ?_ h hfew p
  · rintro s ⟨-, hidle⟩ - p
    rw [hidle p]
    trivial
  · rintro tr s ⟨q, act⟩ _ hrun ih ⟨n, l, hstep, rfl⟩ hfew p
    have hbefore : helloLoads tr < 2 ^ 31 := by
      rw [helloLoads_append] at hfew
      omega
    by_cases hp : p = q
    · subst hp
      simp only [Function.update_self]
      exact recvStep_agrees hstep (ih hbefore p) (counter_bounds hrun hbefore)
    · simp only [Function.update_of_ne hp]
      exact (ih hbefore p).snoc fun h => hp (congrArg Prod.fst h).symm

end Runs

/-- **Numbers under interleaving.** With fewer than 2^31 HELLOs, however the calls interleave: a reply has the type
and the text for its message; the number in the reply to a HELLO is at least 1 and at most the number of HELLOs taken
up by then, and that in the reply to a COUNTER request is at most this; and once no call is in progress the counter is
the number of HELLOs exactly if no HELLO was taken up while another was being counted. -/
theorem netlink_numbers [DecidableEq P] (tr : List (P × Act Client)) (s : Threads P Int32 (Pc Client))
    (h : (netlinkExample P Client).Run tr s) (hfew : helloLoads tr < 2 ^ 31) :
    (∀ pre p c skb x post, tr = pre ++ (p, .answer c skb (some x)) :: post →
      x.msgType = replyType (msgType skb) ∧ cstr x.text = replyText (msgType skb) ∧
        Number (helloLoads pre) (msgType skb) x.data) ∧
    ((∀ p, s.pc p = .idle) →
      (s.shared.toInt = helloLoads tr ↔ ¬Overlap (tr.filterMap (halfOf half)))) := by
  refine ⟨?_, fun hidle => ?_⟩
  · rintro pre p c skb x post rfl
    obtain ⟨s₁, s₂, hrun, ⟨n, l, hstep, -⟩, -⟩ := h.cut
    have hbefore : helloLoads pre < 2 ^ 31 := by
      rw [helloLoads_append] at hfew
      omega
    have hanswer := recvStep_answer hstep (run_agrees hrun hbefore p)
    refine ⟨hanswer.msgType, ?_, hanswer.number⟩
    rw [hanswer.text, cstr_replyText]
  · obtain ⟨t, ids, hrun, hagree, hlen⟩ := run_increments h
    have hvalue : t.shared.value ≤ t.shared.taken.length := (run_bounded hrun).value
    have hnone : ∀ p, t.pc p = none := hagree.idle fun p => by rw [hidle p]; rfl
    rw [← value_eq_iff hrun hnone, counter_eq hagree, Int32.toInt_ofNat_of_lt (by omega), hlen]
    omega

/-- Two HELLOs are loaded before either is stored. -/
def bothHello : List (Bool × Act Bool) :=
  [(false, .message false (messageOf 100 1)), (true, .message true (messageOf 200 1)), (false, .load), (true, .load),
    (false, .store), (true, .store), (false, .argument), (true, .argument),
    (false, .answer false (messageOf 100 1) (sendMessageToUser .sent 100 1 1 (ascii "Hello from kernel!"))),
    (true, .answer true (messageOf 200 1) (sendMessageToUser .sent 200 1 1 (ascii "Hello from kernel!")))]

theorem run_bothHello : (netlinkExample Bool Bool).Run bothHello (pair 1 .idle .idle) := by
  refine ⟨pair 0 .idle .idle, ⟨rfl, fun p => by cases p <;> rfl⟩, ?_⟩
  refine .cons (interleave_step_false (.message false (messageOf 100 1)) _) ?_
  refine .cons (interleave_step_true (.message true (messageOf 200 1)) _) ?_
  refine .cons (interleave_step_false (.load (by decide)) _) ?_
  refine .cons (interleave_step_true (.load (by decide)) _) ?_
  refine .cons (interleave_step_false .store _) ?_
  refine .cons (interleave_step_true .store _) ?_
  refine .cons (interleave_step_false .hello _) ?_
  refine .cons (interleave_step_true .hello _) ?_
  refine .cons (interleave_step_false (.send .sent) _) ?_
  exact .single (interleave_step_true (.send .sent) _)

/-- Both are answered with 1, and the counter stays behind. -/
theorem netlink_numbers_bothHello : (netlinkExample Bool Bool).Run bothHello (pair 1 .idle .idle) ∧
    helloLoads bothHello = 2 ∧ Overlap (bothHello.filterMap (halfOf half)) := by
  refine ⟨run_bothHello, rfl, ?_⟩
  have hidle : ∀ p, (pair (1 : Int32) (Pc.idle : Pc Bool) .idle).pc p = .idle := fun p => by cases p <;> rfl
  by_contra hserial
  have hvalue := ((netlink_numbers _ _ run_bothHello (by decide)).2 hidle).mpr hserial
  exact absurd hvalue (by decide)

end KernelModules.Netlink
