import KernelModules.Netlink.NetlinkTest

/-!
# Sessions of the netlink test program

Any number of processes run `netlink_test.c`, each with its own process id.

- `run_module`: their contexts in the module make a run of the module;
- `run_session`: what waits at a port are the replies to the messages of its own process, in their order;
- `netlink_test_sessions`: no program crashes or receives a reply to another one, and a program none of whose calls
  fails prints the replies to its three messages.
-/

namespace KernelModules.Netlink

open Lib

universe u

variable {P : Type u}

/-! ## The module -/

/-- Where a process is in the module. -/
def Local.inModule : Local P → Pc P
  | .user _ => .idle
  | .module l _ => l

/-- The step of the module that a step of a process is. -/
def moduleAct (e : P × TestAct P) : Option (P × Act P) :=
  match e.2 with
  | .send packet behind => some (e.1, .message e.1 (received packet behind))
  | .module act => some (e.1, act)
  | _ => none

def moduleLabels (tr : List (P × TestAct P)) : List (P × Act P) := tr.filterMap moduleAct

/-- A step of a process is one of the module, or leaves the module alone. -/
theorem testStep_module {port : P → UInt32} {p : P} {g g' : Net} {l l' : Local P} {e : TestAct P}
    (h : TestStep port p g l e g' l') :
    (∃ act, moduleAct (p, e) = some (p, act) ∧ RecvStep p g.counter l.inModule act g'.counter l'.inModule) ∨
    (moduleAct (p, e) = none ∧ g'.counter = g.counter ∧ l'.inModule = l.inModule) := by
  cases h with
  | send behind hstep => exact .inl ⟨_, rfl, hstep⟩
  | inside hstep => exact .inl ⟨_, rfl, hstep⟩
  | leave hstep => exact .inl ⟨_, rfl, hstep⟩
  | _ => exact .inr ⟨rfl, rfl, rfl⟩

/-- **The module's part** of a run of the programs is a run of the module. -/
theorem run_module [DecidableEq P] {port : P → UInt32} {start : P → TestStart} {tr : List (P × TestAct P)}
    {s : Threads P Net (Local P)} (h : (netlinkTests port start).Run tr s) :
    ∃ t, (netlinkExample P P).Run (moduleLabels tr) t ∧ t.shared = s.shared.counter ∧
      ∀ p, t.pc p = (s.pc p).inModule := by
  refine System.Run.simulate
    (R := fun _ s (t : Threads P Int32 (Pc P)) => t.shared = s.shared.counter ∧ ∀ p, t.pc p = (s.pc p).inModule) ?_ ?_ h
  · rintro s ⟨hg, hpc⟩
    refine ⟨⟨0, fun _ => .idle⟩, ⟨rfl, fun _ => rfl⟩, by rw [hg], fun p => ?_⟩
    rw [hpc p]
    rfl
  · rintro tr s ⟨p, e⟩ _ t ⟨hcounter, hpc⟩ ⟨g', l', hstep, rfl⟩
    rcases testStep_module hstep with ⟨act, hsome, hrecv⟩ | ⟨hnone, hcounter', hl⟩
    · rw [← hpc p, ← hcounter] at hrecv
      rw [hsome]
      refine ⟨⟨g'.counter, Function.update t.pc p l'.inModule⟩, .single ⟨_, _, hrecv, rfl⟩, rfl, fun q => ?_⟩
      by_cases hq : q = p
      · subst hq
        simp
      · simp [hq, hpc q]
    · rw [hnone]
      refine ⟨t, .nil t, hcounter.trans hcounter'.symm, fun q => ?_⟩
      by_cases hq : q = p
      · subst hq
        simp [hpc q, hl]
      · simp [hq, hpc q]

/-! ## What a process sees -/

/-- The call that a step makes, as the program sees it. -/
def userAct : TestAct P → Option (ClientAct SocketCall (Option (List UInt8)))
  | .print line => some (.print line)
  | .send packet _ => some (.call (.sendmsg packet) none)
  | .sendFailed packet => some (.call (.sendmsg packet) none)
  | .module _ => none
  | .receive packet => some (.call .recvmsg (some packet))
  | .receiveFailed => some (.call .recvmsg none)

/-- The type of a message that reached the module, and what it was answered with. -/
def messageType : TestAct P → Option Int32
  | .send packet _ => some (packetType packet)
  | _ => none

def answerOf : TestAct P → Option (Int32 × Option Reply)
  | .module (.answer _ skb reply) => some (msgType skb, reply)
  | _ => none

def packetOf : TestAct P → Option (List UInt8)
  | .receive packet => some packet
  | _ => none

/-- The call of the program fails, or the reply to its message is not sent. -/
def fails : TestAct P → Bool
  | .sendFailed _ => true
  | .receiveFailed => true
  | .module (.answer _ _ none) => true
  | _ => false

/-- What is left of the program. -/
def Local.rest : Local P → TestProgram
  | .user c => c
  | .module _ next => next

/-- A program in the module goes on as a safe program, and its call has its port. -/
structure Local.Safe (port : UInt32) (ok : Int → Prop) (l : Local P) : Prop where
  rest : l.rest.Safe (Honest port) Readable ok
  pid : ∀ call, l.inModule.call = some call → call.pid.toUInt32 = port

/-- The type of the message in progress. -/
def Local.current (l : Local P) : Option Int32 := l.inModule.call.map fun call => msgType call.skb

/-- The answers to the messages of a process. -/
structure Answered (p : P) (port : UInt32) (tr : List (P × Act P)) (answers : List (Int32 × Option Reply)) : Prop where
  port : ∀ t x, (t, some x) ∈ answers → x.port = port ∧ x.Good
  reply : ∀ t x, (t, some x) ∈ answers → x.msgType = replyType t ∧ cstr x.text = replyText t ∧
    Number (helloLoads tr) t x.data
  hello : ∀ x, (msgTypeHello, some x) ∈ answers → (p, .store) ∈ tr
  counter : ∀ pre x y post, answers = pre ++ (msgTypeCounter, some y) :: post → (msgTypeHello, some x) ∈ pre →
    1 ≤ y.data.toInt

/-- What was sent, answered and received by a process, and what waits at its port. -/
structure Session (p : P) (port : UInt32) (tr : List (P × Act P)) (es : List (TestAct P)) (l : Local P)
    (queue : List (List UInt8)) : Prop where
  sent : es.filterMap messageType = (es.filterMap answerOf).map Prod.fst ++ l.current.toList
  queue : es.filterMap packetOf ++ queue = ((es.filterMap answerOf).filterMap Prod.snd).map Reply.bytes
  answered : Answered p port tr (es.filterMap answerOf)

/-! ## One step -/

section Steps

variable {port : P → UInt32} {ok : Int → Prop} {p : P} {g g' : Net} {l l' : Local P} {e : TestAct P}
  {tr tr' : List (P × Act P)} {es : List (TestAct P)} {r : UInt32} {queue : List (List UInt8)}

theorem Session.mono (h : Session p r tr es l queue) (hloads : helloLoads tr ≤ helloLoads tr')
    (hstore : (p, .store) ∈ tr → (p, .store) ∈ tr') : Session p r tr' es l queue where
  sent := h.sent
  queue := h.queue
  answered :=
    { port := h.answered.port
      reply := fun t x hx =>
        have ⟨htype, htext, hnumber⟩ := h.answered.reply t x hx
        ⟨htype, htext, hnumber.mono hloads⟩
      hello := fun x hx => hstore (h.answered.hello x hx)
      counter := h.answered.counter }

/-- A step that neither sends, answers nor receives. -/
theorem Session.quiet (h : Session p r tr es l queue) (hmessage : messageType e = none) (hanswer : answerOf e = none)
    (hpacket : packetOf e = none) (hl : l'.current = l.current) : Session p r tr (es ++ [e]) l' queue := by
  have ha : (es ++ [e]).filterMap answerOf = es.filterMap answerOf := by simp [hanswer]
  refine ⟨?_, ?_, ha ▸ h.answered⟩
  · rw [System.filterMap_snoc, hmessage, Option.toList_none, List.append_nil, ha, hl]
    exact h.sent
  · rw [System.filterMap_snoc, hpacket, Option.toList_none, List.append_nil, ha]
    exact h.queue

/-- Between a message and its answer the call stays. -/
theorem recvStep_inside {n n' : Int32} {l l' : Pc P} {act : Act P} (h : RecvStep p n l act n' l')
    (hact : act = .load ∨ act = .store ∨ act = .argument) : l'.call = l.call := by
  rcases recvStep_call h with ⟨c, skb, rfl, -⟩ | ⟨_, _, -, rfl, -⟩ | ⟨-, hl'⟩
  · simp at hact
  · simp at hact
  · exact hl'

/-- An answer is one to the call. -/
theorem recvStep_answered {n n' : Int32} {l l' : Pc P} {c : P} {skb : Nat → UInt8} {reply : Option Reply}
    (h : RecvStep p n l (.answer c skb reply) n' l') :
    l.call.map (fun call => msgType call.skb) = some (msgType skb) := by
  rcases recvStep_call h with ⟨_, _, hact, -⟩ | ⟨call, _, hcall, hact, -⟩ | ⟨hact, -⟩
  · cases hact
  · cases hact
    rw [hcall, Option.map_some]
  · exact absurd rfl (hact c skb reply)

/-- A reply that is sent goes to the port of the call, with a terminated text. -/
theorem recvStep_reply {n n' : Int32} {l l' : Pc P} {c : P} {skb : Nat → UInt8} {x : Reply}
    (h : RecvStep p n l (.answer c skb (some x)) n' l') :
    ∃ call, l.call = some call ∧ x.port = call.pid.toUInt32 ∧ x.Good := by
  generalize hact : Act.answer c skb (some x) = act at h
  cases h with
  | send fate =>
    obtain ⟨-, -, hreply⟩ := Act.answer.inj hact
    cases fate with
    | sent =>
      obtain rfl := Option.some.inj hreply
      refine ⟨_, rfl, rfl, ?_, ?_⟩
      · rw [strncpy_set rfl, length_paddedField]
      · rw [strncpy_set rfl]
        exact zero_mem_paddedField _ _
    | _ => cases hreply
  | _ => cases hact

/-- A message is taken up. -/
theorem Session.send (h : Session p r tr es l queue) {packet : List UInt8} (behind : Nat → UInt8)
    (hlen : 20 ≤ packet.length) (hl : l.current = none) (hl' : l'.current = some (msgType (received packet behind))) :
    Session p r tr (es ++ [.send packet behind]) l' queue := by
  refine ⟨?_, ?_, ?_⟩
  all_goals simp only [System.filterMap_snoc, answerOf, packetOf, messageType, Option.toList_none, Option.toList_some,
    List.append_nil]
  · rw [h.sent, hl, hl', msgType_received hlen]
    simp
  · exact h.queue
  · exact h.answered

theorem Answered.snoc {answers : List (Int32 × Option Reply)} (h : Answered p r tr answers) {t : Int32}
    {reply : Option Reply}
    (hreply : ∀ x, reply = some x → x.port = r ∧ x.Good ∧ x.Answers p tr t) :
      Answered p r tr (answers ++ [(t, reply)]) := by
  have hmem : ∀ t' x, (t', some x) ∈ answers ++ [(t, reply)] → (t', some x) ∈ answers ∨ t' = t ∧ reply = some x := by
    intro t' x hx
    rcases List.mem_append.mp hx with hx | hx
    · exact .inl hx
    · cases List.mem_singleton.mp hx
      exact .inr ⟨rfl, rfl⟩
  refine ⟨fun t' x hx => ?_, fun t' x hx => ?_, fun x hx => ?_, ?_⟩
  · rcases hmem t' x hx with hx | ⟨rfl, hsome⟩
    · exact h.port t' x hx
    · exact ⟨(hreply x hsome).1, (hreply x hsome).2.1⟩
  · rcases hmem t' x hx with hx | ⟨rfl, hsome⟩
    · exact h.reply t' x hx
    · obtain ⟨-, -, hanswers⟩ := hreply x hsome
      exact ⟨hanswers.msgType, by rw [hanswers.text, cstr_replyText], hanswers.number⟩
  · rcases hmem _ x hx with hx | ⟨ht, hx⟩
    · exact h.hello x hx
    · exact (hreply x hx).2.2.hello ht.symm
  · intro pre x y post heq hx
    -- the answer to the COUNTER request is an earlier one, or this one
    rcases List.eq_nil_or_concat post with rfl | ⟨post, last, rfl⟩
    · obtain ⟨rfl, hlast⟩ := List.append_inj' heq rfl
      cases hlast
      exact (hreply y rfl).2.2.counter rfl (h.hello x hx)
    · rw [List.concat_eq_append, ← List.cons_append, ← List.append_assoc] at heq
      exact h.counter pre x y post (List.append_inj' heq rfl).1 hx

/-- The message is answered. -/
theorem Session.answer (h : Session p r tr es l queue) {c : P} {skb : Nat → UInt8} {reply : Option Reply}
    (hl : l.current = some (msgType skb)) (hl' : l'.current = none)
    (hreply : ∀ x, reply = some x → x.port = r ∧ x.Good ∧ x.Answers p tr (msgType skb)) :
    Session p r tr (es ++ [.module (.answer c skb reply)]) l' (queue ++ reply.toList.map Reply.bytes) := by
  refine ⟨?_, ?_, ?_⟩
  all_goals simp only [System.filterMap_snoc, answerOf, packetOf, messageType, Option.toList_none, Option.toList_some,
    List.append_nil]
  · rw [h.sent, hl, hl']
    simp
  · rw [← List.append_assoc, h.queue, List.map_append]
  · exact h.answered.snoc hreply

/-- A packet that waits is a reply. -/
theorem Session.receives {packet : List UInt8} (h : Session p r tr es l (packet :: queue)) :
    ∃ x : Reply, x.Good ∧ packet = x.bytes := by
  have hmem : packet ∈ ((es.filterMap answerOf).filterMap Prod.snd).map Reply.bytes := by
    rw [← h.queue]
    simp
  obtain ⟨x, hx, rfl⟩ := List.mem_map.mp hmem
  obtain ⟨⟨t, o⟩, ho, rfl⟩ := List.mem_filterMap.mp hx
  exact ⟨x, (h.answered.port t x ho).2, rfl⟩

/-- It is received. -/
theorem Session.receive {packet : List UInt8} (h : Session p r tr es l (packet :: queue))
    (hl : l'.current = l.current) :
    Session p r tr (es ++ [.receive packet]) l' queue := by
  refine ⟨?_, ?_, ?_⟩
  all_goals simp only [System.filterMap_snoc, answerOf, packetOf, messageType, Option.toList_none, Option.toList_some,
    List.append_nil]
  · rw [hl]
    exact h.sent
  · rw [← h.queue, List.append_assoc, List.singleton_append]
  · exact h.answered

/-- **One step of a process**: it stays safe, its session goes on, and no other queue is touched. -/
theorem testStep_session (h : TestStep port p g l e g' l') (hsafe : l.Safe (port p) ok)
    (hagrees : l.inModule.Agrees p tr)
    (hs : Session p (port p) tr es l (g.queue (port p))) :
    l'.Safe (port p) ok ∧ Session p (port p) tr (es ++ [e]) l' (g'.queue (port p)) ∧
      ∀ r, r ≠ port p → g'.queue r = g.queue r := by
  obtain ⟨hrest, hpid⟩ := hsafe
  cases h with
  | print => exact ⟨⟨hrest, hpid⟩, hs.quiet rfl rfl rfl rfl, fun _ _ => rfl⟩
  | sendFailed => exact ⟨⟨hrest.2 none trivial, hpid⟩, hs.quiet rfl rfl rfl rfl, fun _ _ => rfl⟩
  | receiveFailed => exact ⟨⟨hrest.2 none trivial, hpid⟩, hs.quiet rfl rfl rfl rfl, fun _ _ => rfl⟩
  | @send packet next n l behind hstep =>
    obtain ⟨⟨hlen, hport⟩, hnext⟩ := hrest
    cases hstep with
    | message =>
      refine ⟨⟨hnext none trivial, ?_⟩, hs.send behind (by rw [hlen]; decide) rfl rfl, fun _ _ => rfl⟩
      rintro call ⟨⟩
      exact hport behind
  | @inside next act n l l' hstep hact =>
    have hcall := recvStep_inside hstep hact
    have hcurrent : (Local.module l' next).current = (Local.module l next).current := by
      simp only [Local.current, Local.inModule, hcall]
    refine ⟨⟨hrest, fun call h => hpid call (hcall ▸ h)⟩, ?_, fun _ _ => rfl⟩
    rcases hact with rfl | rfl | rfl
    · exact hs.quiet rfl rfl rfl hcurrent
    · exact hs.quiet rfl rfl rfl hcurrent
    · exact hs.quiet rfl rfl rfl hcurrent
  | @leave next c skb reply n l hstep =>
    have hcurrent : (Local.module l next).current = some (msgType skb) := recvStep_answered hstep
    have hreply : ∀ x, reply = some x → x.port = port p ∧ x.Good ∧ x.Answers p tr (msgType skb) := by
      rintro x rfl
      obtain ⟨call, hcall, hport, hgood⟩ := recvStep_reply hstep
      exact ⟨hport.trans (hpid call hcall), hgood, recvStep_answer hstep hagrees⟩
    have hsession : Session p (port p) tr (es ++ [.module (.answer c skb reply)]) (.user next)
        (g.queue (port p) ++ reply.toList.map Reply.bytes) := hs.answer hcurrent rfl hreply
    cases reply with
    | none =>
      simp only [Option.toList_none, List.map_nil, List.append_nil] at hsession
      exact ⟨⟨hrest, by rintro call ⟨⟩⟩, hsession, fun _ _ => rfl⟩
    | some x =>
      have hx := (hreply x rfl).1
      refine ⟨⟨hrest, by rintro call ⟨⟩⟩, ?_, fun r hr => ?_⟩
      · simp only [deliver, hx, Function.update_self]
        exact hsession
      · simp only [deliver, hx, Function.update_of_ne hr]
  | @receive next packet rest hqueue =>
    rw [hqueue] at hs
    refine ⟨⟨hrest.2 _ hs.receives, hpid⟩, ?_, fun r hr => Function.update_of_ne hr _ _⟩
    simp only [Function.update_self]
    exact hs.receive rfl

end Steps

/-! ## Runs -/

section Runs

variable [DecidableEq P] {port : P → UInt32} {start : P → TestStart} {tr : List (P × TestAct P)}
  {s : Threads P Net (Local P)}

/-- The calls that a process made, as its program sees them. -/
def userActs (p : P) (tr : List (P × TestAct P)) : List (ClientAct SocketCall (Option (List UInt8))) :=
  (System.labelsOf p tr).filterMap userAct

omit [DecidableEq P] in
theorem moduleLabels_snoc (tr : List (P × TestAct P)) (e : P × TestAct P) :
    moduleLabels (tr ++ [e]) = moduleLabels tr ++ (moduleAct e).toList := System.filterMap_snoc ..

/-- **Every process** keeps to its program. -/
theorem run_userActs (h : (netlinkTests port start).Run tr s) (p : P) :
    (main (start p).strerror (port p) (start p).socketError (start p).bindError (start p).block).Trace
      (userActs p tr) (s.pc p).rest := by
  refine System.Run.history (P := fun tr s =>
    (main (start p).strerror (port p) (start p).socketError (start p).bindError
    (start p).block).Trace (userActs p tr) (s.pc p).rest) ?_ ?_ h
  · rintro s ⟨-, hpc⟩
    rw [hpc p]
    exact .nil _
  · rintro tr s ⟨q, e⟩ _ - ih ⟨g', l', hstep, rfl⟩
    by_cases hq : q = p
    · subst hq
      simp only [userActs, System.labelsOf_self, System.filterMap_snoc, Function.update_self]
      generalize s.pc q = l at ih hstep
      have hcall : ∀ {c c' : TestProgram} {act : ClientAct SocketCall (Option (List UInt8))},
          Client.Step (fun (_ : Unit) _ _ _ => True) () c act () c' → l.rest = c → userAct e = some act → l'.rest = c' →
          (main (start q).strerror (port q) (start q).socketError (start q).bindError (start q).block).Trace
            (userActs q tr ++ (userAct e).toList) l'.rest := by
        rintro c c' act hact rfl he rfl
        rw [he]
        exact ih.snoc hact
      cases hstep with
      | print => exact hcall .print rfl rfl rfl
      | sendFailed => exact hcall (.call trivial) rfl rfl rfl
      | send => exact hcall (.call trivial) rfl rfl rfl
      | inside => simpa [userAct, userActs, Local.rest] using ih
      | leave => simpa [userAct, userActs, Local.rest] using ih
      | receive => exact hcall (.call trivial) rfl rfl rfl
      | receiveFailed => exact hcall (.call trivial) rfl rfl rfl
    · simp only [userActs, System.labelsOf_ne hq, Function.update_of_ne (Ne.symm hq)]
      exact ih

/-- **Every session.** Processes with different ids do not disturb each other's queues. -/
theorem run_session (hport : Function.Injective port) (hblock : ∀ p, (start p).block ≠ none)
    (h : (netlinkTests port start).Run tr s) (hfew : helloLoads (moduleLabels tr) < 2 ^ 31) (p : P) :
    (s.pc p).Safe (port p) (ExitsWith (start p).socketError (start p).bindError) ∧
      Session p (port p) (moduleLabels tr) (System.labelsOf p tr) (s.pc p) (s.shared.queue (port p)) := by
  refine System.Run.history (P := fun tr s => helloLoads (moduleLabels tr) < 2 ^ 31 → ∀ p,
    (s.pc p).Safe (port p) (ExitsWith (start p).socketError (start p).bindError) ∧
      Session p (port p) (moduleLabels tr) (System.labelsOf p tr) (s.pc p) (s.shared.queue (port p))) ?_ ?_ h hfew p
  · rintro s ⟨hg, hpc⟩ - p
    rw [hpc p, hg]
    refine ⟨⟨safe_main _ _ _ (hblock p), by rintro call ⟨⟩⟩, rfl, rfl, ?_, ?_, ?_, ?_⟩
    · rintro t x ⟨⟩
    · rintro t x ⟨⟩
    · rintro x ⟨⟩
    · rintro pre x y post hnil
      simp [System.labelsOf] at hnil
  · rintro tr s ⟨q, e⟩ _ hrun ih ⟨g', l', hstep, rfl⟩ hfew p
    rw [moduleLabels_snoc] at hfew ⊢
    have hloads : helloLoads (moduleLabels tr) ≤ helloLoads (moduleLabels tr ++ (moduleAct (q, e)).toList) := by
      rw [helloLoads_append]
      omega
    have hbefore : helloLoads (moduleLabels tr) < 2 ^ 31 := Nat.lt_of_le_of_lt hloads hfew
    obtain ⟨t, hmodule, -, hpc⟩ := run_module hrun
    have hagrees := run_agrees hmodule hbefore q
    rw [hpc q] at hagrees
    obtain ⟨hsafe, hsession⟩ := ih hbefore q
    obtain ⟨hsafe', hsession', hothers⟩ := testStep_session hstep hsafe hagrees hsession
    by_cases hp : p = q
    · subst hp
      simp only [Function.update_self, System.labelsOf_self]
      exact ⟨hsafe', hsession'.mono hloads (List.mem_append_left _)⟩
    · simp only [Function.update_of_ne hp, System.labelsOf_ne (Ne.symm hp), hothers _ (fun h => hp (hport h))]
      exact ⟨(ih hbefore p).1, (ih hbefore p).2.mono hloads (List.mem_append_left _)⟩

end Runs

/-! ## A session without failures -/

/-- The program reads the same from the same bytes. -/
theorem Reply.Good.eq_of_bytes {x y : Reply} (hx : x.Good) (hy : y.Good) (h : x.bytes = y.bytes) (m : TestMessage) :
    exchangeLines m x = exchangeLines m y := by
  obtain ⟨htype, hdata, htext⟩ := filled_fields (fun _ => 0) hx
  obtain ⟨htype', hdata', htext'⟩ := filled_fields (fun _ => 0) hy
  have hfilled : filled (fun _ => 0) x = filled (fun _ => 0) y := by rw [filled, filled, h]
  rw [exchangeLines, exchangeLines, ← htype, ← hdata, ← htext, hfilled, htype', hdata', htext']

section Complete

variable {es : List (TestAct P)}

theorem filterMap_receivedPacket (es : List (TestAct P)) :
    (es.filterMap userAct).filterMap receivedPacket = es.filterMap packetOf := by
  rw [List.filterMap_filterMap]
  refine List.filterMap_congr fun e _ => ?_
  cases e <;> rfl

theorem filterMap_sentType (h : ∀ e ∈ es, fails e = false) :
    (es.filterMap userAct).filterMap sentType = es.filterMap messageType := by
  rw [List.filterMap_filterMap]
  refine List.filterMap_congr fun e he => ?_
  cases e with
  | sendFailed => cases h _ he
  | _ => rfl

/-- Every message was answered with a reply. -/
theorem answers_some (h : ∀ e ∈ es, fails e = false) : ∃ answers : List (Int32 × Reply),
    es.filterMap answerOf = answers.map fun a => (a.1, some a.2) := by
  induction es with
  | nil => exact ⟨[], rfl⟩
  | cons e es ih =>
    obtain ⟨answers, hanswers⟩ := ih fun e he => h e (List.mem_cons_of_mem _ he)
    cases ha : answerOf e with
    | none => exact ⟨answers, by rw [List.filterMap_cons_none ha, hanswers]⟩
    | some a =>
      obtain ⟨t, reply⟩ := a
      have he := h e List.mem_cons_self
      cases reply with
      | some x => exact ⟨(t, x) :: answers, by rw [List.filterMap_cons_some ha, hanswers, List.map_cons]⟩
      | none =>
        unfold answerOf at ha
        split at ha
        · cases ha
          cases he
        · cases ha

end Complete

/-- The lines of a session: what is printed around the replies with these numbers. -/
def sessionLines (n m : Int32) : List (List UInt8) :=
  [openingLine, helloMessage.line, receivedLine msgTypeHello n (ascii "Hello from kernel!"), counterMessage.line,
    receivedLine msgTypeCounter m (ascii "Current counter value"), statusMessage.line,
    receivedLine msgTypeStatus 0 (ascii "Kernel module is running"), completedLine]

/-- The program that had a socket and has exited. -/
theorem trace_main {strerror : Int → List UInt8} {pid : UInt32} {block : Option (Nat → UInt8)} (hblock : block ≠ none)
    {es : List (ClientAct SocketCall (Option (List UInt8)))} {ret : Int}
    (h : (main strerror pid none none block).Trace es (.exit ret)) :
    ∃ nlh es', es = .print openingLine :: es' ∧ (exchangeAll pid testMessages nlh).Trace es' (.exit ret) := by
  cases block with
  | none => exact absurd rfl hblock
  | some nlh =>
    cases h with
    | print h => exact ⟨_, _, rfl, h⟩

section Complete

variable {p : P} {port : UInt32} {tr : List (P × Act P)} {es : List (TestAct P)} {l : Local P}
  {queue : List (List UInt8)}
  {answers : List (Int32 × Reply)}

/-- The packets that were received or wait are those of the replies. -/
theorem Session.replies (hs : Session p port tr es l queue)
    (hanswers : es.filterMap answerOf = answers.map fun a => (a.1, some a.2)) :
    (∀ x ∈ answers.map Prod.snd, x.Good) ∧ es.filterMap packetOf ++ queue = (answers.map Prod.snd).map Reply.bytes := by
  have hreplies : (es.filterMap answerOf).filterMap Prod.snd = answers.map Prod.snd := by
    rw [hanswers, List.filterMap_map]
    exact congrFun (List.filterMap_eq_map (f := Prod.snd)) answers
  refine ⟨fun x hx => ?_, hreplies ▸ hs.queue⟩
  obtain ⟨⟨t, y⟩, hy, rfl⟩ := List.mem_map.mp hx
  exact (hs.answered.port t y (hanswers ▸ List.mem_map.mpr ⟨_, hy, rfl⟩)).2

/-- Every packet that was received is one of the replies. -/
theorem received_reply {xs : List Reply} (hfails : ∀ e ∈ es, fails e = false) (hgood : ∀ x ∈ xs, x.Good)
    (hqueue : es.filterMap packetOf ++ queue = xs.map Reply.bytes) {a : Option (List UInt8)}
    (ha : .call .recvmsg a ∈ es.filterMap userAct) : ∃ x : Reply, x.Good ∧ a = some x.bytes := by
  obtain ⟨e, he, hact⟩ := List.mem_filterMap.mp ha
  cases e with
  | receive packet =>
    cases hact
    have hpacket : packet ∈ xs.map Reply.bytes := by
      rw [← hqueue]
      exact List.mem_append_left _ (List.mem_filterMap.mpr ⟨_, he, rfl⟩)
    obtain ⟨x, hx, rfl⟩ := List.mem_map.mp hpacket
    exact ⟨x, hgood x hx, rfl⟩
  | receiveFailed => cases hfails _ he
  | _ => cases hact

/-- When no message is under way, each of them was answered. -/
theorem Session.answer_types (hs : Session p port tr es l queue) (hl : l.current = none)
    (hfails : ∀ e ∈ es, fails e = false)
    (hanswers : es.filterMap answerOf = answers.map fun a => (a.1, some a.2)) :
    answers.map Prod.fst = (es.filterMap userAct).filterMap sentType := by
  have hsent := hs.sent
  rw [hanswers, hl, Option.toList_none, List.append_nil, List.map_map] at hsent
  rw [filterMap_sentType hfails]
  exact hsent.symm

/-- The lines depend only on the packets. -/
theorem exchangeLines_of_bytes : ∀ {ms : List TestMessage} {xs ys : List Reply} {rest : List (List UInt8)},
    (∀ x ∈ xs, x.Good) → (∀ y ∈ ys, y.Good) → ys.map Reply.bytes ++ rest = xs.map Reply.bytes → ys.length = ms.length →
    List.zipWith exchangeLines ms ys = List.zipWith exchangeLines ms xs
  | [], _, _, _, _, _, _, _ => rfl
  | m :: ms, xs, y :: ys, rest, hxs, hys, hbytes, hlen => by
    obtain ⟨x, xs, rfl, hx, hrest⟩ := List.map_eq_cons_iff.mp hbytes.symm
    have htail : List.zipWith exchangeLines ms ys = List.zipWith exchangeLines ms xs :=
      exchangeLines_of_bytes (fun x h => hxs x (List.mem_cons_of_mem _ h)) (fun y h => hys y (List.mem_cons_of_mem _ h))
        hrest.symm (Nat.succ.inj hlen)
    rw [List.zipWith_cons_cons, List.zipWith_cons_cons, htail,
      (hys y List.mem_cons_self).eq_of_bytes (hxs x List.mem_cons_self) hx.symm]

/-- The lines of three answers to the three messages. -/
theorem Answered.lines (h : Answered p port tr (answers.map fun a => (a.1, some a.2)))
    (htypes : answers.map Prod.fst = [msgTypeHello, msgTypeCounter, msgTypeStatus]) :
    ∃ n m : Int32, 1 ≤ n.toInt ∧ n.toInt ≤ helloLoads tr ∧ 1 ≤ m.toInt ∧ m.toInt ≤ helloLoads tr ∧
      openingLine :: ((List.zipWith exchangeLines testMessages (answers.map Prod.snd)).flatten ++ [completedLine]) =
        sessionLines n m := by
  obtain ⟨⟨_, x₁⟩, _, rfl, rfl, hrest₁⟩ := List.map_eq_cons_iff.mp htypes
  obtain ⟨⟨_, x₂⟩, _, rfl, rfl, hrest₂⟩ := List.map_eq_cons_iff.mp hrest₁
  obtain ⟨⟨_, x₃⟩, _, rfl, rfl, hrest₃⟩ := List.map_eq_cons_iff.mp hrest₂
  cases List.map_eq_nil_iff.mp hrest₃
  obtain ⟨htype₁, htext₁, hnumber₁⟩ := h.reply msgTypeHello x₁ (by simp)
  obtain ⟨htype₂, htext₂, hnumber₂⟩ := h.reply msgTypeCounter x₂ (by simp)
  obtain ⟨htype₃, htext₃, hnumber₃⟩ := h.reply msgTypeStatus x₃ (by simp)
  have hcounter : 1 ≤ x₂.data.toInt :=
    h.counter [(msgTypeHello, some x₁)] x₁ x₂ [(msgTypeStatus, some x₃)] rfl (by simp)
  refine ⟨x₁.data, x₂.data, (hnumber₁.hello rfl).1, (hnumber₁.hello rfl).2, hcounter, (hnumber₂.counter rfl).2, ?_⟩
  simp only [testMessages, List.map_cons, List.map_nil, List.zipWith_cons_cons, List.zipWith_nil_left, exchangeLines,
    htype₁, htype₂, htype₃, htext₁, htext₂, htext₃, hnumber₃.status rfl]
  rfl

/-- **A session is complete** when the program has exited and no call has failed. -/
theorem session_complete {nlh : Nat → UInt8} {acts : List (ClientAct SocketCall (Option (List UInt8)))} {ret : Int}
    (hs : Session p port tr es l queue) (hl : l.current = none) (hfails : ∀ e ∈ es, fails e = false)
    (hacts : es.filterMap userAct = .print openingLine :: acts)
    (htrace : (exchangeAll port testMessages nlh).Trace acts (.exit ret)) :
    ∃ n m : Int32, 1 ≤ n.toInt ∧ n.toInt ≤ helloLoads tr ∧ 1 ≤ m.toInt ∧ m.toInt ≤ helloLoads tr ∧
      printed (es.filterMap userAct) = sessionLines n m := by
  obtain ⟨answers, hanswers⟩ := answers_some hfails
  obtain ⟨hgood, hqueue⟩ := hs.replies hanswers
  have hreceived : ∀ a, .call .recvmsg a ∈ acts → ∃ x : Reply, x.Good ∧ a = some x.bytes := fun a ha =>
    received_reply hfails hgood hqueue (hacts ▸ List.mem_cons_of_mem _ ha)
  obtain ⟨ys, hlen, hys, hpackets, htypes, hlines⟩ := trace_exchangeAll htrace hreceived
  have hanswered := hs.answered
  rw [hanswers] at hanswered
  have hsent := hs.answer_types hl hfails hanswers
  rw [hacts, List.filterMap_cons_none rfl, htypes] at hsent
  obtain ⟨n, m, hn, hn', hm, hm', hsession⟩ := hanswered.lines hsent
  rw [← filterMap_receivedPacket, hacts, List.filterMap_cons_none rfl, hpackets] at hqueue
  refine ⟨n, m, hn, hn', hm, hm', ?_⟩
  rw [← hsession, ← exchangeLines_of_bytes hgood hys hqueue hlen, ← hlines, hacts]
  rfl

end Complete

/-- **Sessions of the test program.** Any number of processes with different ids run the program, with any calls
failing, and fewer than 2^31 HELLOs are taken up. No program crashes, and its exit code tells whether it had a socket.
What a program receives are the replies to its own messages, in their order. If none of its calls has failed and it
has exited with 0, it has printed the three replies: the number in the first two is at least 1 and at most the number
of HELLOs. -/
theorem netlink_test_sessions [DecidableEq P] (port : P → UInt32) (hport : Function.Injective port)
    (start : P → TestStart)
    (hblock : ∀ p, (start p).block ≠ none) (tr : List (P × TestAct P)) (s : Threads P Net (Local P))
    (h : (netlinkTests port start).Run tr s) (hfew : helloLoads (moduleLabels tr) < 2 ^ 31) (p : P) :
    s.pc p ≠ .user .crash ∧
    (∀ ret, s.pc p = .user (.exit ret) → (ret = 0 ∨ ret = -1) ∧
      (ret = 0 ↔ (start p).socketError = none ∧ (start p).bindError = none)) ∧
    (System.labelsOf p tr).filterMap packetOf <+:
      (((System.labelsOf p tr).filterMap answerOf).filterMap Prod.snd).map Reply.bytes ∧
    (s.pc p = .user (.exit 0) → (∀ e ∈ System.labelsOf p tr, fails e = false) →
      ∃ n m : Int32, 1 ≤ n.toInt ∧ n.toInt ≤ helloLoads (moduleLabels tr) ∧ 1 ≤ m.toInt ∧
        m.toInt ≤ helloLoads (moduleLabels tr) ∧ printed (userActs p tr) = sessionLines n m) := by
  obtain ⟨hsafe, hsession⟩ := run_session hport hblock h hfew p
  have hexit : ∀ ret, s.pc p = .user (.exit ret) → ExitsWith (start p).socketError (start p).bindError ret := by
    intro ret hret
    have hrest := hsafe.rest
    rw [hret] at hrest
    exact hrest
  refine ⟨fun hcrash => ?_, fun ret hret => ?_, ⟨_, hsession.queue⟩, fun hret hfails => ?_⟩
  · have hrest := hsafe.rest
    rw [hcrash] at hrest
    exact hrest
  · have hcode := hexit ret hret
    unfold ExitsWith at hcode
    split at hcode
    · next hboth => exact ⟨.inl hcode, iff_of_true hcode hboth⟩
    · next hboth => exact ⟨.inr hcode, iff_of_false (by omega) hboth⟩
  · have htrace := run_userActs h p
    have hsockets : (start p).socketError = none ∧ (start p).bindError = none := by
      by_contra hnot
      have hcode := hexit 0 hret
      rw [ExitsWith, if_neg hnot] at hcode
      cases hcode
    rw [hret, hsockets.1, hsockets.2] at htrace
    obtain ⟨nlh, acts, hacts, htrace⟩ := trace_main (hblock p) htrace
    exact session_complete hsession (by rw [hret]; rfl) hfails hacts htrace

/-! ## One process alone -/

section Alone

variable {r : UInt32} {start : Unit → TestStart}

/-- One process at port `r`. -/
def alone (r : UInt32) (start : Unit → TestStart) : System (Threads Unit Net (Local Unit)) (Unit × TestAct Unit) :=
  netlinkTests (fun _ => r) start

theorem step_one {g g' : Net} {l l' : Local Unit} {e : TestAct Unit} (h : TestStep (fun _ => r) () g l e g' l') :
    (alone r start).step ⟨g, fun _ => l⟩ ((), e) ⟨g', fun _ => l'⟩ := ⟨g', l', h, rfl⟩

/-- The process goes from one place to another without a failure, and `k` HELLOs are taken up. -/
def Goes (r : UInt32) (start : Unit → TestStart) (k : Nat) (n : Int32) (l : Local Unit) (n' : Int32) (l' : Local Unit) :
    Prop :=
  ∃ tr, (alone r start).Path ⟨⟨n, fun _ => []⟩, fun _ => l⟩ tr ⟨⟨n', fun _ => []⟩, fun _ => l'⟩ ∧
    (∀ e ∈ tr, fails e.2 = false) ∧ helloLoads (moduleLabels tr) = k

theorem Goes.trans {k k' : Nat} {n n' n'' : Int32} {l l' l'' : Local Unit} (h : Goes r start k n l n' l')
    (h' : Goes r start k' n' l' n'' l'') : Goes r start (k + k') n l n'' l'' := by
  obtain ⟨tr, hpath, hfails, hloads⟩ := h
  obtain ⟨tr', hpath', hfails', hloads'⟩ := h'
  refine ⟨tr ++ tr', hpath.append hpath', ?_, ?_⟩
  · rintro e he
    rcases List.mem_append.mp he with he | he
    · exact hfails e he
    · exact hfails' e he
  · rw [moduleLabels, List.filterMap_append, helloLoads_append]
    exact congrArg₂ _ hloads hloads'

variable (r start)

/-- The module takes up a message and comes to its reply. -/
theorem goes_switch (n : Int32) (call : Call Unit) (next : TestProgram) : ∃ n' t data text,
    Goes r start (if msgType call.skb = msgTypeHello then 1 else 0) n (.module (.received call) next) n'
      (.module (.sending call t data text) next) := by
  by_cases h1 : msgType call.skb = msgTypeHello
  · refine ⟨n + 1, msgTypeHello, n + 1, ascii "Hello from kernel!",
      [((), .module .load), ((), .module .store), ((), .module .argument)], ?_, by simp [fails], ?_⟩
    · refine .cons (step_one (.inside (.load h1) (.inl rfl))) ?_
      refine .cons (step_one (.inside .store (.inr (.inl rfl)))) ?_
      exact .single (step_one (.inside .hello (.inr (.inr rfl))))
    · rw [if_pos h1]
      rfl
  have hone : ∀ {t data : Int32} {text : List UInt8},
      RecvStep () n (.received call) .argument n (.sending call t data text) →
      Goes r start 0 n (.module (.received call) next) n (.module (.sending call t data text) next) := fun hstep =>
    ⟨[((), .module .argument)], .single (step_one (.inside hstep (.inr (.inr rfl)))), by simp [fails], rfl⟩
  rw [if_neg h1]
  by_cases h2 : msgType call.skb = msgTypeCounter
  · exact ⟨_, _, _, _, hone (.counter h2)⟩
  by_cases h3 : msgType call.skb = msgTypeStatus
  · exact ⟨_, _, _, _, hone (.status h3)⟩
  · exact ⟨_, _, _, _, hone (.unknown h1 h2 h3)⟩

/-- The reply is sent, received and printed. -/
theorem goes_reply (n : Int32) (call : Call Unit) (hpid : call.pid.toUInt32 = r) (t data : Int32) (text : List UInt8)
    (next : (Nat → UInt8) → TestProgram) (nlh : Nat → UInt8) : ∃ nlh',
    Goes r start 0 n (.module (.sending call t data text) (.call .recvmsg (printReply next nlh))) n
      (.user (next nlh')) := by
  let x : Reply := ⟨r, t, data, paddedField 63 text⟩
  have hx : x.Good := ⟨length_paddedField 63 text, zero_mem_paddedField 63 text⟩
  have hsend : sendMessageToUser .sent call.pid t data text = some x := by
    rw [sendMessageToUser, hpid, strncpy_set rfl]
  have hleave : TestStep (fun _ => r) () ⟨n, fun _ => []⟩
      (.module (.sending call t data text) (.call .recvmsg (printReply next nlh)))
      (.module (.answer call.sender call.skb (some x))) ⟨n, deliver (some x) fun _ => []⟩
      (.user (.call .recvmsg (printReply next nlh))) := .leave (hsend ▸ .send .sent)
  have hqueue : deliver (some x) (fun _ => []) r = [x.bytes] := by simp [deliver, x]
  have hempty : Function.update (deliver (some x) fun _ => []) r [] = fun _ => [] := by
    funext q
    by_cases hq : q = r
    · simp [hq]
    · simp [deliver, x, hq]
  have hreceive : TestStep (fun _ => r) () ⟨n, deliver (some x) fun _ => []⟩
      (.user (.call .recvmsg (printReply next nlh)))
      (.receive x.bytes) ⟨n, Function.update (deliver (some x) fun _ => []) r []⟩
      (.user (printReply next nlh (some x.bytes))) := .receive hqueue
  rw [hempty, printReply_some hx] at hreceive
  refine ⟨filled nlh x, [((), .module (.answer call.sender call.skb (some x))), ((), .receive x.bytes),
    ((), .print (receivedLine x.msgType x.data (cstr x.text)))], ?_, by simp [fails], rfl⟩
  exact .cons (step_one hleave) (.cons (step_one hreceive) (.single (step_one .print)))

/-- **One message and its reply.** -/
theorem goes_exchange (n : Int32) (m : TestMessage) (ms : List TestMessage) (nlh : Nat → UInt8) : ∃ n' nlh',
    Goes r start (if m.msgType = msgTypeHello then 1 else 0) n (.user (exchangeAll r (m :: ms) nlh)) n'
      (.user (exchangeAll r ms nlh')) := by
  let packet := slice (fillRequest r m nlh) 0 nlmsgSpace
  let skb := received packet fun _ => 0
  have htype : msgType skb = m.msgType :=
    (msgType_received (by rw [length_slice]; decide)).trans (packetType_fillRequest r m nlh)
  have hpid : (nlmsgPid skb).toInt32.toUInt32 = r := nlmsgPid_fillRequest r m nlh _
  let call : Call Unit := ⟨(), skb, (nlmsgPid skb).toInt32⟩
  let nlh₁ := clearBuffer (fillRequest r m nlh)
  obtain ⟨n', t, data, text, hswitch⟩ :=
    goes_switch r start n call (.call .recvmsg (printReply (exchangeAll r ms) nlh₁))
  obtain ⟨nlh', hreply⟩ := goes_reply r start n' call hpid t data text (exchangeAll r ms) nlh₁
  have hsend : Goes r start 0 n (.user (exchangeAll r (m :: ms) nlh)) n
      (.module (.received call) (.call .recvmsg (printReply (exchangeAll r ms) nlh₁))) := by
    refine ⟨[((), .print m.line), ((), .send packet fun _ => 0)], ?_, by simp [fails], rfl⟩
    exact .cons (step_one .print) (.single (step_one (.send _ (.message () skb))))
  refine ⟨n', nlh', ?_⟩
  rw [← htype]
  simpa using (hsend.trans hswitch).trans hreply

/-- A process without errors. -/
def goodStart (_ : Unit) : TestStart := ⟨fun _ => [], none, none, some fun _ => 0⟩

/-- A process that is alone completes its session. -/
theorem goes_main : ∃ n, Goes r goodStart 1 0 (.user (main (fun _ => []) r none none (some fun _ => 0))) n
    (.user (.exit 0)) := by
  obtain ⟨n₁, nlh₁, h₁⟩ := goes_exchange r goodStart 0 helloMessage [counterMessage, statusMessage]
    (deposit (clearBuffer fun _ => 0) 6 [0, 0])
  obtain ⟨n₂, nlh₂, h₂⟩ := goes_exchange r goodStart n₁ counterMessage [statusMessage] nlh₁
  obtain ⟨n₃, nlh₃, h₃⟩ := goes_exchange r goodStart n₂ statusMessage [] nlh₂
  have hopen : Goes r goodStart 0 0 (.user (main (fun _ => []) r none none (some fun _ => 0))) 0
      (.user (exchangeAll r testMessages (deposit (clearBuffer fun _ => 0) 6 [0, 0]))) :=
    ⟨[((), .print openingLine)], .single (step_one .print), by simp [fails], rfl⟩
  have hclose : Goes r goodStart 0 n₃ (.user (exchangeAll r [] nlh₃)) n₃ (.user (.exit 0)) :=
    ⟨[((), .print completedLine)], .single (step_one .print), by simp [fails], rfl⟩
  exact ⟨n₃, (((hopen.trans h₁).trans h₂).trans h₃).trans hclose⟩

end Alone

/-- A process that is alone is number 1. -/
theorem netlink_test_sessions_alone : ∃ tr s, (netlinkTests (fun _ => 100) goodStart).Run tr s ∧
    s.pc () = .user (.exit 0) ∧ printed (userActs () tr) = sessionLines 1 1 := by
  obtain ⟨n, tr, hpath, hfails, hloads⟩ := goes_main 100
  have hrun : (netlinkTests (fun _ => 100) goodStart).Run tr ⟨⟨n, fun _ => []⟩, fun _ => .user (.exit 0)⟩ :=
    ⟨_, ⟨rfl, fun _ => rfl⟩, hpath⟩
  have hsessions := netlink_test_sessions (fun _ => 100) (fun _ _ _ => rfl) goodStart (fun _ => by simp [goodStart])
    tr _ hrun
    (by rw [hloads]; decide) ()
  obtain ⟨k, m, hk, hk', hm, hm', hlines⟩ := hsessions.2.2.2 rfl fun e he => hfails ((), e) (System.mem_labelsOf.mp he)
  rw [hloads] at hk' hm'
  have hone : ∀ v : Int32, 1 ≤ v.toInt → v.toInt ≤ ((1 : Nat) : Int) → v = 1 := fun v h h' =>
    Int32.toInt_inj.mp (le_antisymm h' h)
  rw [hone k hk hk', hone m hm hm'] at hlines
  exact ⟨tr, _, hrun, rfl, hlines⟩

end KernelModules.Netlink
