import KernelModules.Lib.Threads
import KernelModules.Netlink.NetlinkExample

/-!
# Where the replies go

The kernel calls `netlink_recv_msg` in the context of the process that sends, so calls of several processes interleave,
down to the accesses to `message_counter`. The bytes of a message are the sender's own choice; its socket is bound to a
port that is not.

- a call that is left alone does what `netlinkRecvMsg` says (`path_alone`);
- in every interleaving a reply answers a message that its context took before, and goes to the port in the header of
  this message (`run_answers`);
- so the replies reach the senders exactly if the answered messages name their senders (`netlink_replies_reach_sender`).
-/

namespace KernelModules.Netlink

open Lib

universe u v

/-! ## The code, access by access -/

/-- The locals of a call: the message, with the socket it came from, and `pid`. -/
structure Call (Client : Type u) where
  sender : Client
  skb : Nat → UInt8
  pid : Int32

/-- Where a context is in `netlink_recv_msg`. -/
inductive Pc (Client : Type u)
  | idle
  /-- At the `switch`. -/
  | received (call : Call Client)
  /-- In `message_counter++`, with the value loaded. -/
  | incrementing (call : Call Client) (loaded : Int32)
  /-- The new value is stored. -/
  | counted (call : Call Client)
  /-- In `send_message_to_user`, with its other arguments. -/
  | sending (call : Call Client) (msgType data : Int32) (text : List UInt8)

inductive Act (Client : Type u)
  | message (sender : Client) (skb : Nat → UInt8)
  | load
  | store
  | argument
  | answer (sender : Client) (skb : Nat → UInt8) (reply : Option Reply)

variable {Client : Type u} {P : Type v}

/-- One step of a context over `message_counter`. -/
inductive RecvStep (p : P) : Int32 → Pc Client → Act Client → Int32 → Pc Client → Prop
  | message {n : Int32} (c : Client) (skb : Nat → UInt8) :
      RecvStep p n .idle (.message c skb) n (.received ⟨c, skb, (nlmsgPid skb).toInt32⟩)
  | load {n : Int32} {call : Call Client} : msgType call.skb = msgTypeHello →
      RecvStep p n (.received call) .load n (.incrementing call n)
  | store {n m : Int32} {call : Call Client} : RecvStep p n (.incrementing call m) .store (m + 1) (.counted call)
  | hello {n : Int32} {call : Call Client} :
      RecvStep p n (.counted call) .argument n (.sending call msgTypeHello n (ascii "Hello from kernel!"))
  | counter {n : Int32} {call : Call Client} : msgType call.skb = msgTypeCounter →
      RecvStep p n (.received call) .argument n (.sending call msgTypeCounter n (ascii "Current counter value"))
  | status {n : Int32} {call : Call Client} : msgType call.skb = msgTypeStatus →
      RecvStep p n (.received call) .argument n (.sending call msgTypeStatus 0 (ascii "Kernel module is running"))
  | unknown {n : Int32} {call : Call Client} : msgType call.skb ≠ msgTypeHello → msgType call.skb ≠ msgTypeCounter →
      msgType call.skb ≠ msgTypeStatus →
      RecvStep p n (.received call) .argument n (.sending call 0 (-1) (ascii "Unknown command"))
  | send {n : Int32} {call : Call Client} {t data : Int32} {text : List UInt8} (fate : Fate) :
      RecvStep p n (.sending call t data text)
        (.answer call.sender call.skb (sendMessageToUser fate call.pid t data text)) n .idle

/-- Any number of contexts after `netlink_example_init`. -/
def netlinkExample (P : Type v) (Client : Type u) [DecidableEq P] :
    System (Threads P Int32 (Pc Client)) (P × Act Client) :=
  interleave (fun n => n = 0) (fun l => l = .idle) RecvStep

/-! ## The call in progress -/

/-- The message a context works on. -/
def Pc.call : Pc Client → Option (Call Client)
  | .idle => none
  | .received call => some call
  | .incrementing call _ => some call
  | .counted call => some call
  | .sending call _ _ _ => some call

/-- What one step does to the call in progress: it begins with a message, ends with the answer to it, or goes on. -/
theorem recvStep_call {p : P} {n n' : Int32} {l l' : Pc Client} {act : Act Client} (h : RecvStep p n l act n' l') :
    (∃ c skb, act = .message c skb ∧ l'.call = some ⟨c, skb, (nlmsgPid skb).toInt32⟩) ∨
    (∃ call reply, l.call = some call ∧ act = .answer call.sender call.skb reply ∧ l'.call = none ∧
      ∀ x, reply = some x → x.port = call.pid.toUInt32) ∨
    ((∀ c skb reply, act ≠ .answer c skb reply) ∧ l'.call = l.call) := by
  cases h with
  | message c skb => exact .inl ⟨c, skb, rfl, rfl⟩
  | send fate => exact .inr (.inl ⟨_, _, rfl, rfl, rfl, fun _ hx => (sendMessageToUser_some hx).1⟩)
  | _ => exact .inr (.inr ⟨fun _ _ _ h => (by cases h), rfl⟩)

/-- The labels of a call from its message to its answer. -/
def handling (p : P) (c : Client) (skb : Nat → UInt8) (reply : Option Reply) : List (P × Act Client) :=
  (p, .message c skb) :: (if msgType skb = msgTypeHello then [(p, .load), (p, .store)] else []) ++
    [(p, .argument), (p, .answer c skb reply)]

theorem answer_mem_handling {p q : P} {c d : Client} {skb skb' : Nat → UInt8} {reply reply' : Option Reply} :
    (q, .answer d skb' reply') ∈ handling p c skb reply ↔ q = p ∧ d = c ∧ skb' = skb ∧ reply' = reply := by
  by_cases h : msgType skb = msgTypeHello
  · simp [handling, h]
  · simp [handling, h]

variable [DecidableEq P]

/-- A call in progress works on a message its context took, with `pid` from the header. -/
def Taken (tr : List (P × Act Client)) (s : Threads P Int32 (Pc Client)) : Prop :=
  ∀ p call, (s.pc p).call = some call → (p, .message call.sender call.skb) ∈ tr ∧ call.pid = (nlmsgPid call.skb).toInt32

theorem step_taken {tr : List (P × Act Client)} {s s' : Threads P Int32 (Pc Client)} {e : P × Act Client}
    (hs : Taken tr s) (h : (netlinkExample P Client).step s e s') : Taken (tr ++ [e]) s' := by
  obtain ⟨p, act⟩ := e
  obtain ⟨n, l, hstep, rfl⟩ := h
  intro q call hq
  by_cases hqp : q = p
  · subst hqp
    simp only [Function.update_self] at hq
    rcases recvStep_call hstep with ⟨c, skb, rfl, hl⟩ | ⟨_, _, -, -, hl, -⟩ | ⟨-, hl⟩
    · obtain rfl := Option.some.inj (hl.symm.trans hq)
      exact ⟨List.mem_append_right _ (List.mem_singleton_self _), rfl⟩
    · rw [hl] at hq
      cases hq
    · obtain ⟨hmem, hpid⟩ := hs q call (hl ▸ hq)
      exact ⟨List.mem_append_left _ hmem, hpid⟩
  · simp only [Function.update_of_ne hqp] at hq
    obtain ⟨hmem, hpid⟩ := hs q call hq
    exact ⟨List.mem_append_left _ hmem, hpid⟩

theorem run_taken {tr : List (P × Act Client)} {s : Threads P Int32 (Pc Client)}
    (h : (netlinkExample P Client).Run tr s) : Taken tr s := by
  refine System.Run.history (fun s hs p call hcall => ?_) (fun tr s e s' _ ih hstep => step_taken ih hstep) h
  rw [hs.2 p] at hcall
  cases hcall

/-! ## Runs -/

section Runs

variable {pre post tr : List (P × Act Client)} {s : Threads P Int32 (Pc Client)} {p : P} {c : Client}
  {skb : Nat → UInt8}

/-- **What is answered**: a message its context took before; a reply goes to the port in the header of this message. -/
theorem run_answers {reply : Option Reply}
    (h : (netlinkExample P Client).Run (pre ++ (p, .answer c skb reply) :: post) s) :
    (p, .message c skb) ∈ pre ∧ ∀ x, reply = some x → x.port = nlmsgPid skb := by
  obtain ⟨s₁, s₂, hrun, ⟨n, l, hstep, -⟩, -⟩ := h.cut
  rcases recvStep_call hstep with ⟨_, _, hact, -⟩ | ⟨call, reply', hcall, hact, -, hport⟩ | ⟨hact, -⟩
  · cases hact
  · cases hact
    obtain ⟨hmem, hpid⟩ := run_taken hrun p call hcall
    refine ⟨hmem, fun x hx => ?_⟩
    rw [hport x hx, hpid]
    rfl
  · exact absurd rfl (hact c skb reply)

theorem run_ports {x : Reply} (h : (netlinkExample P Client).Run tr s) (hmem : (p, .answer c skb (some x)) ∈ tr) :
    x.port = nlmsgPid skb := by
  obtain ⟨pre, post, rfl⟩ := List.append_of_mem hmem
  exact (run_answers h).2 x rfl

end Runs

/-- A step of one context, the others staying where they are. -/
theorem step_alone {p : P} {n n' : Int32} {l l' : Pc Client} {act : Act Client} (h : RecvStep p n l act n' l')
    (pc : P → Pc Client) :
    (netlinkExample P Client).step ⟨n, Function.update pc p l⟩ (p, act) ⟨n', Function.update pc p l'⟩ :=
  interleave_step_update h pc

/-- **A call that is left alone** does what `netlinkRecvMsg` says. -/
theorem path_alone (pc : P → Pc Client) (p : P) (n : Int32) (c : Client) (skb : Nat → UInt8) (fate : Fate) :
    (netlinkExample P Client).Path ⟨n, Function.update pc p .idle⟩ (handling p c skb (netlinkRecvMsg n skb fate).2)
      ⟨(netlinkRecvMsg n skb fate).1, Function.update pc p .idle⟩ := by
  have hmessage := step_alone (RecvStep.message (p := p) (n := n) c skb) pc
  let call : Call Client := ⟨c, skb, (nlmsgPid skb).toInt32⟩
  -- how every call ends: the arguments are read, then the reply is made
  have hreply : ∀ {m : Int32} {l : Pc Client} {t data : Int32} {text : List UInt8},
      RecvStep p m l .argument m (.sending call t data text) →
      (netlinkExample P Client).Path ⟨m, Function.update pc p l⟩ [(p, .argument),
        (p, .answer c skb (sendMessageToUser fate (nlmsgPid skb).toInt32 t data text))]
          ⟨m, Function.update pc p .idle⟩ :=
    fun hstep => .cons (step_alone hstep pc) (.single (step_alone (.send fate) pc))
  by_cases h1 : msgType skb = msgTypeHello
  · simp only [handling, netlinkRecvMsg, if_pos h1]
    have hload : RecvStep p n (.received call) .load n (.incrementing call n) := .load h1
    exact .cons hmessage <| .cons (step_alone hload pc) <| .cons (step_alone .store pc) <| hreply .hello
  by_cases h2 : msgType skb = msgTypeCounter
  · simp only [handling, netlinkRecvMsg, if_neg h1, if_pos h2]
    have hswitch : RecvStep p n (.received call) .argument n _ := .counter h2
    exact .cons hmessage <| hreply hswitch
  by_cases h3 : msgType skb = msgTypeStatus
  · simp only [handling, netlinkRecvMsg, if_neg h1, if_neg h2, if_pos h3]
    have hswitch : RecvStep p n (.received call) .argument n _ := .status h3
    exact .cons hmessage <| hreply hswitch
  · simp only [handling, netlinkRecvMsg, if_neg h1, if_neg h2, if_neg h3]
    have hswitch : RecvStep p n (.received call) .argument n _ := .unknown h1 h2 h3
    exact .cons hmessage <| hreply hswitch

/-- **Replies and senders.** The sockets have different ports. In every interleaving each answer follows its message,
and the replies go to the senders' ports, where nobody else receives them, exactly if the messages answered carry the
ports of their senders. -/
theorem netlink_replies_reach_sender (port : Client → UInt32) (hport : Function.Injective port)
    (tr : List (P × Act Client)) (s : Threads P Int32 (Pc Client)) (h : (netlinkExample P Client).Run tr s) :
    (∀ pre post p c skb reply, tr = pre ++ (p, .answer c skb reply) :: post → (p, .message c skb) ∈ pre) ∧
    ((∀ p c skb x, (p, .answer c skb (some x)) ∈ tr → x.port = port c ∧ ∀ d, port d = x.port → d = c) ↔
      ∀ p c skb x, (p, .answer c skb (some x)) ∈ tr → nlmsgPid skb = port c) := by
  refine ⟨?_, fun hreach p c skb x hmem => ?_, fun hhonest p c skb x hmem => ?_⟩
  · rintro pre post p c skb reply rfl
    exact (run_answers h).1
  · rw [← run_ports h hmem]
    exact (hreach p c skb x hmem).1
  · have hx : x.port = port c := (run_ports h hmem).trans (hhonest p c skb x hmem)
    exact ⟨hx, fun d hd => hport (hd.trans hx)⟩

/-- The sockets of two clients. -/
def twoPorts (c : Bool) : UInt32 := if c then 200 else 100

/-- The first client sends a HELLO with `pid` in the header, and nobody interferes. -/
def helloWith (pid : UInt8) : List (Unit × Act Bool) :=
  handling () false (messageOf pid 1) (netlinkRecvMsg 0 (messageOf pid 1) .sent).2

theorem run_helloWith (pid : UInt8) : ∃ s, (netlinkExample Unit Bool).Run (helloWith pid) s :=
  ⟨_, _, ⟨rfl, fun _ => rfl⟩, path_alone (fun _ => .idle) () 0 false (messageOf pid 1) .sent⟩

/-- The first client names the second one's port: this one receives the reply. -/
theorem netlink_reply_misdirected : ∃ s, (netlinkExample Unit Bool).Run (helloWith 200) s ∧
    ∃ x, ((), .answer false (messageOf 200 1) (some x)) ∈ helloWith 200 ∧ x.port ≠ twoPorts false ∧
      x.port = twoPorts true := by
  obtain ⟨s, hrun⟩ := run_helloWith 200
  rw [helloWith, netlinkRecvMsg_eq] at *
  refine ⟨s, hrun, _, answer_mem_handling.mpr ⟨rfl, rfl, rfl, rfl⟩, ?_, ?_⟩
  · decide
  · decide

/-- The first client names its own port. -/
theorem netlink_replies_reach_sender_helloWith : ∃ s, (netlinkExample Unit Bool).Run (helloWith 100) s ∧
    ∀ p c skb x, (p, .answer c skb (some x)) ∈ helloWith 100 → x.port = twoPorts c := by
  obtain ⟨s, hrun⟩ := run_helloWith 100
  have hhonest : ∀ p c skb x, (p, .answer c skb (some x)) ∈ helloWith 100 → nlmsgPid skb = twoPorts c := by
    intro p c skb x hmem
    obtain ⟨-, rfl, rfl, -⟩ := answer_mem_handling.mp hmem
    decide
  have hreach := (netlink_replies_reach_sender twoPorts (by decide) _ s hrun).2.mpr hhonest
  exact ⟨s, hrun, fun p c skb x hmem => (hreach p c skb x hmem).1⟩

end KernelModules.Netlink
