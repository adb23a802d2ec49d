import KernelModules.Lib.CString
import KernelModules.Lib.Runs

/-!
# The netlink example

`netlink_recv_msg` reads the reply address from the header of the message and the request from its payload, counts the
HELLO messages and sends one reply, which can fail in three places.

- `netlinkRecvMsg_eq`: the counter and the reply of one message, for all types at once;
- `getElem?_netlinkRun`, `netlinkRun_counter`: messages one after another;
- `netlink_counter_protocol`: the k-th HELLO is answered with k and a COUNTER request with the number of HELLOs so far,
  whatever replies got lost.

A reply that is addressed to port 0 comes back to `netlink_recv_msg` from the kernel; it is one more message then.
-/

namespace KernelModules.Netlink

open Lib

universe u

/-! ## The code -/

def msgTypeHello : Int32 := 1
def msgTypeCounter : Int32 := 2
def msgTypeStatus : Int32 := 3

/-- The four bytes at an offset, lowest first. -/
def uint32At (m : Nat → UInt8) (o : Nat) : UInt32 :=
  UInt32.ofNat ((m o).toNat + (m (o + 1)).toNat * 2 ^ 8 + (m (o + 2)).toNat * 2 ^ 16 + (m (o + 3)).toNat * 2 ^ 24)

/-- `nlh->nlmsg_pid`, which the sender chooses. The bytes are those at `skb->data`. -/
def nlmsgPid (skb : Nat → UInt8) : UInt32 := uint32At skb 12

/-- `msg->msg_type`: the payload comes after the header of 16 bytes. -/
def msgType (skb : Nat → UInt8) : Int32 := (uint32At skb 16).toInt32

/-- A `course_message` on its way to a port. -/
structure Reply where
  port : UInt32
  msgType : Int32
  data : Int32
  text : List UInt8
deriving DecidableEq, Repr

/-- What becomes of a reply: `nlmsg_new`, `nlmsg_put` or `netlink_unicast` fails, or it is sent. -/
inductive Fate
  | noBuffer
  | noRoom
  | refused
  | sent
deriving DecidableEq, Repr

/-- `send_message_to_user`: the reply, if it is sent. -/
def sendMessageToUser (fate : Fate) (pid msgType data : Int32) (text : List UInt8) : Option Reply :=
  match fate with
  | .noBuffer => none
  | .noRoom => none
  | .refused => none
  | .sent => some ⟨pid.toUInt32, msgType, data, (strncpy (List.replicate 64 0) text 63).set 63 0⟩

/-- `netlink_recv_msg`: the new `message_counter` and the reply. -/
def netlinkRecvMsg (messageCounter : Int32) (skb : Nat → UInt8) (fate : Fate) : Int32 × Option Reply :=
  let pid := (nlmsgPid skb).toInt32
  if msgType skb = msgTypeHello then
    let messageCounter := messageCounter + 1
    (messageCounter, sendMessageToUser fate pid msgTypeHello messageCounter (ascii "Hello from kernel!"))
  else if msgType skb = msgTypeCounter then
    (messageCounter, sendMessageToUser fate pid msgTypeCounter messageCounter (ascii "Current counter value"))
  else if msgType skb = msgTypeStatus then
    (messageCounter, sendMessageToUser fate pid msgTypeStatus 0 (ascii "Kernel module is running"))
  else (messageCounter, sendMessageToUser fate pid 0 (-1) (ascii "Unknown command"))

/-- A message of a client and what becomes of the reply to it. -/
structure Request (Client : Type u) where
  sender : Client
  skb : Nat → UInt8
  fate : Fate

variable {Client : Type u}

/-- Messages handled one after another: the final counter and, for each, the reply. -/
def netlinkRun : Int32 → List (Request Client) → Int32 × List (Option Reply)
  | messageCounter, [] => (messageCounter, [])
  | messageCounter, r :: rs =>
    let handled := netlinkRecvMsg messageCounter r.skb r.fate
    let rest := netlinkRun handled.1 rs
    (rest.1, handled.2 :: rest.2)

/-- `message_counter` after messages since the module was loaded. -/
def counterAfter (rs : List (Request Client)) : Int32 := (netlinkRun 0 rs).1

/-- The replies to messages since the module was loaded. -/
def answers (rs : List (Request Client)) : List (Option Reply) := (netlinkRun 0 rs).2

/-- The number of HELLO messages. -/
def hellos (rs : List (Request Client)) : Nat := rs.countP fun r => msgType r.skb = msgTypeHello

/-! ## One message -/

/-- The type of the reply to a type. -/
def replyType (t : Int32) : Int32 := if t = msgTypeHello ∨ t = msgTypeCounter ∨ t = msgTypeStatus then t else 0

/-- The data of the reply to a type, if the counter is then `messageCounter`. -/
def replyData (t messageCounter : Int32) : Int32 :=
  if t = msgTypeHello ∨ t = msgTypeCounter then messageCounter else if t = msgTypeStatus then 0 else -1

def replyText (t : Int32) : List UInt8 :=
  if t = msgTypeHello then ascii "Hello from kernel!"
  else if t = msgTypeCounter then ascii "Current counter value"
  else if t = msgTypeStatus then ascii "Kernel module is running"
  else ascii "Unknown command"

/-- Only a HELLO moves the counter. -/
def counted (t messageCounter : Int32) : Int32 := if t = msgTypeHello then messageCounter + 1 else messageCounter

/-- **One message**: the reply goes to the port in the header, with the type of the message and the counter after it. -/
theorem netlinkRecvMsg_eq (messageCounter : Int32) (skb : Nat → UInt8) (fate : Fate) :
    netlinkRecvMsg messageCounter skb fate = (counted (msgType skb) messageCounter,
      sendMessageToUser fate (nlmsgPid skb).toInt32 (replyType (msgType skb))
        (replyData (msgType skb) (counted (msgType skb) messageCounter)) (replyText (msgType skb))) := by
  by_cases h1 : msgType skb = msgTypeHello
  · simp only [netlinkRecvMsg, counted, replyType, replyData, replyText, h1, ↓reduceIte, true_or]
  by_cases h2 : msgType skb = msgTypeCounter
  · have hne : msgTypeCounter ≠ msgTypeHello := by decide
    simp only [netlinkRecvMsg, counted, replyType, replyData, replyText, h2, hne, ↓reduceIte, true_or, or_true]
  by_cases h3 : msgType skb = msgTypeStatus
  · have hne : msgTypeStatus ≠ msgTypeHello ∧ msgTypeStatus ≠ msgTypeCounter := by decide
    simp only [netlinkRecvMsg, counted, replyType, replyData, replyText, h3, hne, ↓reduceIte, or_true, or_false]
  · simp only [netlinkRecvMsg, counted, replyType, replyData, replyText, h1, h2, h3, ↓reduceIte, or_false]

theorem sendMessageToUser_some {fate : Fate} {pid t data : Int32} {text : List UInt8} {x : Reply}
    (h : sendMessageToUser fate pid t data text = some x) : x.port = pid.toUInt32 ∧ x.msgType = t ∧ x.data = data := by
  cases fate with
  | sent =>
    obtain rfl := Option.some.inj h
    exact ⟨rfl, rfl, rfl⟩
  | noBuffer => cases h
  | noRoom => cases h
  | refused => cases h

/-! ## Messages one after another -/

theorem netlinkRun_cons (c : Int32) (r : Request Client) (rs : List (Request Client)) :
    netlinkRun c (r :: rs) = ((netlinkRun (netlinkRecvMsg c r.skb r.fate).1 rs).1,
      (netlinkRecvMsg c r.skb r.fate).2 :: (netlinkRun (netlinkRecvMsg c r.skb r.fate).1 rs).2) := rfl

theorem length_netlinkRun : ∀ (c : Int32) (rs : List (Request Client)), (netlinkRun c rs).2.length = rs.length
  | _, [] => rfl
  | c, r :: rs => by rw [netlinkRun_cons, List.length_cons, List.length_cons, length_netlinkRun]

theorem hellos_cons (r : Request Client) (rs : List (Request Client)) :
    hellos (r :: rs) = hellos rs + if msgType r.skb = msgTypeHello then 1 else 0 := by
  simp only [hellos, List.countP_cons, decide_eq_true_eq]

/-- The counter has moved by the number of HELLOs. -/
theorem netlinkRun_counter : ∀ (c : Int32) (rs : List (Request Client)),
    (netlinkRun c rs).1 = c + Int32.ofNat (hellos rs)
  | c, [] => (Int32.add_zero c).symm
  | c, r :: rs => by
    rw [netlinkRun_cons, netlinkRun_counter _ rs, netlinkRecvMsg_eq, hellos_cons, counted]
    by_cases h : msgType r.skb = msgTypeHello
    · rw [if_pos h, if_pos h, Int32.ofNat_add, Int32.add_assoc, Int32.add_comm 1]
      rfl
    · rw [if_neg h, if_neg h, Nat.add_zero]

/-- The reply to a message is made with the counter that the messages before it left. -/
theorem getElem?_netlinkRun : ∀ (c : Int32) (rs : List (Request Client)) (i : Nat), (netlinkRun c rs).2[i]? =
    rs[i]?.map fun r => (netlinkRecvMsg (netlinkRun c (rs.take i)).1 r.skb r.fate).2
  | _, [], _ => rfl
  | c, r :: rs, 0 => by
    rw [netlinkRun_cons, List.getElem?_cons_zero, List.getElem?_cons_zero, List.take_zero, Option.map_some, netlinkRun]
  | c, r :: rs, i + 1 => by
    rw [netlinkRun_cons, List.getElem?_cons_succ, List.getElem?_cons_succ, getElem?_netlinkRun _ rs i,
      List.take_succ_cons, netlinkRun_cons]

theorem counterAfter_eq (rs : List (Request Client)) : counterAfter rs = Int32.ofNat (hellos rs) := by
  rw [counterAfter, netlinkRun_counter, Int32.zero_add]

theorem counterAfter_toInt {rs : List (Request Client)} (h : hellos rs < 2 ^ 31) :
    (counterAfter rs).toInt = hellos rs := by
  rw [counterAfter_eq, Int32.toInt_ofNat_of_lt h]

theorem hellos_take_succ {rs : List (Request Client)} {i : Nat} {r : Request Client} (h : rs[i]? = some r) :
    hellos (rs.take (i + 1)) = hellos (rs.take i) + if msgType r.skb = msgTypeHello then 1 else 0 := by
  rw [List.take_add_one, h, Option.toList_some]
  simp only [hellos, List.countP_append, List.countP_singleton, decide_eq_true_eq]

theorem hellos_take_le (rs : List (Request Client)) (i : Nat) : hellos (rs.take i) ≤ hellos rs :=
  List.Sublist.countP_le (List.take_sublist i rs)

/-- A message moves the counter by its type. -/
theorem counterAfter_take_succ {rs : List (Request Client)} {i : Nat} {r : Request Client} (hr : rs[i]? = some r) :
    counterAfter (rs.take (i + 1)) = counted (msgType r.skb) (counterAfter (rs.take i)) := by
  rw [counterAfter_eq, counterAfter_eq, hellos_take_succ hr, counted]
  by_cases h : msgType r.skb = msgTypeHello
  · rw [if_pos h, if_pos h, Int32.ofNat_add]
    rfl
  · rw [if_neg h, if_neg h, Nat.add_zero]

/-- The reply to the message at an index. -/
theorem answer_spec {rs : List (Request Client)} {i : Nat} {r : Request Client} {x : Reply} (hr : rs[i]? = some r)
    (hx : (answers rs)[i]? = some (some x)) :
    x.msgType = replyType (msgType r.skb) ∧ x.data = replyData (msgType r.skb) (counterAfter (rs.take (i + 1))) := by
  rw [answers, getElem?_netlinkRun, hr, Option.map_some, netlinkRecvMsg_eq] at hx
  rw [counterAfter_take_succ hr]
  exact (sendMessageToUser_some (Option.some.inj hx)).2

/-- The number in the reply to a HELLO. -/
theorem answer_hello {rs : List (Request Client)} (hlt : hellos rs < 2 ^ 31) {i : Nat} {r : Request Client} {x : Reply}
    (hr : rs[i]? = some r) (hx : (answers rs)[i]? = some (some x)) (hhello : msgType r.skb = msgTypeHello) :
    x.data.toInt = hellos (rs.take i) + 1 := by
  have hle := hellos_take_le rs (i + 1)
  rw [(answer_spec hr hx).2, hhello, replyData, if_pos (.inl rfl), counterAfter_toInt (by omega), hellos_take_succ hr,
    if_pos hhello]
  rfl

/-- The number in the reply to a COUNTER request. -/
theorem answer_counter {rs : List (Request Client)} (hlt : hellos rs < 2 ^ 31) {i : Nat} {r : Request Client}
    {x : Reply}
    (hr : rs[i]? = some r) (hx : (answers rs)[i]? = some (some x)) (hcounter : msgType r.skb = msgTypeCounter) :
    x.data.toInt = hellos (rs.take i) := by
  have hle := hellos_take_le rs (i + 1)
  have hnot : msgType r.skb ≠ msgTypeHello := by rw [hcounter]; decide
  rw [(answer_spec hr hx).2, hcounter, replyData, if_pos (.inr rfl), counterAfter_toInt (by omega), hellos_take_succ hr,
    if_neg hnot, Nat.add_zero]

/-- A later HELLO gets a larger number: it has the earlier one before it. -/
theorem answer_hello_lt {rs : List (Request Client)} (hlt : hellos rs < 2 ^ 31) {i j : Nat} (hij : i < j)
    {r r' : Request Client} {x x' : Reply} (hr : rs[i]? = some r) (hr' : rs[j]? = some r')
    (hx : (answers rs)[i]? = some (some x)) (hx' : (answers rs)[j]? = some (some x'))
    (hhello : msgType r.skb = msgTypeHello) (hhello' : msgType r'.skb = msgTypeHello) :
      x.data.toInt < x'.data.toInt := by
  have hsucc := hellos_take_succ hr
  rw [if_pos hhello] at hsucc
  have hmono : hellos (rs.take (i + 1)) ≤ hellos (rs.take j) :=
    List.Sublist.countP_le (List.take_sublist_take_left (by omega))
  rw [answer_hello hlt hr hx hhello, answer_hello hlt hr' hx' hhello']
  omega

/-- **The counter protocol.** Of any messages with fewer than 2^31 HELLOs among them, whatever becomes of the replies:
each gets at most one reply, of its own type or of type 0 if this is unknown; the k-th HELLO is answered with k and a
COUNTER request with the number of HELLOs before it; the other types do not move the counter; and no two HELLOs get the
same number. -/
theorem netlink_counter_protocol (rs : List (Request Client)) (hlt : hellos rs < 2 ^ 31) :
    (answers rs).length = rs.length ∧
    (∀ (i : Nat) (r : Request Client) (x : Reply), rs[i]? = some r → (answers rs)[i]? = some (some x) →
      (msgType r.skb = msgTypeHello → x.data.toInt = hellos (rs.take i) + 1) ∧
      (msgType r.skb = msgTypeCounter → x.data.toInt = hellos (rs.take i)) ∧
      x.msgType = replyType (msgType r.skb)) ∧
    (∀ (i : Nat) (r : Request Client), rs[i]? = some r → msgType r.skb ≠ msgTypeHello →
      counterAfter (rs.take (i + 1)) = counterAfter (rs.take i)) ∧
    (∀ (i j : Nat) (r r' : Request Client) (x x' : Reply), i ≠ j → rs[i]? = some r → rs[j]? = some r' →
      (answers rs)[i]? = some (some x) → (answers rs)[j]? = some (some x') →
      msgType r.skb = msgTypeHello → msgType r'.skb = msgTypeHello → x.data ≠ x'.data) := by
  refine ⟨length_netlinkRun 0 rs, fun i r x hr hx => ?_, fun i r hr hnot => ?_, ?_⟩
  · exact ⟨answer_hello hlt hr hx, answer_counter hlt hr hx, (answer_spec hr hx).1⟩
  · rw [counterAfter_take_succ hr, counted, if_neg hnot]
  · intro i j r r' x x' hne hr hr' hx hx' hhello hhello' heq
    rcases Nat.lt_or_gt_of_ne hne with hij | hji
    · have hless := answer_hello_lt hlt hij hr hr' hx hx' hhello hhello'
      rw [heq] at hless
      exact absurd hless (Int.lt_irrefl _)
    · have hless := answer_hello_lt hlt hji hr' hr hx' hx hhello' hhello
      rw [heq] at hless
      exact absurd hless (Int.lt_irrefl _)

/-- The bytes of a message with a port in its header and a type in its payload. -/
def messageOf (pid type : UInt8) : Nat → UInt8 := fun o => if o = 12 then pid else if o = 16 then type else 0

/-- The reply to the first HELLO is lost: the second client still gets the number 2, and so does the COUNTER request. -/
def lostHello : List (Request Bool) :=
  [⟨false, messageOf 100 1, .noRoom⟩, ⟨true, messageOf 200 1, .sent⟩, ⟨false, messageOf 100 2, .sent⟩]

theorem netlink_counter_protocol_lostHello : (answers lostHello)[0]? = some none ∧
    ∃ x y, (answers lostHello)[1]? = some (some x) ∧ (answers lostHello)[2]? = some (some y) ∧
      x.data.toInt = 2 ∧ y.data.toInt = 2 := by
  have hkind := (netlink_counter_protocol lostHello (by decide)).2.1
  obtain ⟨x, hx⟩ : ∃ x, (answers lostHello)[1]? = some (some x) := ⟨_, rfl⟩
  obtain ⟨y, hy⟩ : ∃ y, (answers lostHello)[2]? = some (some y) := ⟨_, rfl⟩
  exact ⟨rfl, x, y, hx, hy, (hkind 1 _ x rfl hx).1 (by decide), (hkind 2 _ y rfl hy).2.1 (by decide)⟩

end KernelModules.Netlink
