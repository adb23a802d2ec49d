import KernelModules.Lib.Clients
import KernelModules.Netlink.Races

/-!
# The test program of the netlink example (`netlink_test.c`)

The program binds a socket to its process id, sends three messages in one buffer and prints the reply to each. The
module runs in the context of the sender, until it has put the reply in the queue of the port that the header names;
the program receives from the queue of its own port. A call can fail, and the program goes on then as if it had not.

- `safe_main`: whatever replies it receives, and whatever calls fail, the program names its own port, does not crash,
  and its exit code tells whether it had a socket;
- `trace_exchangeAll`: if no call fails, it sends its messages in order and prints the replies as it receives them.
-/

namespace KernelModules.Netlink

open Lib

universe u

/-! ## The program -/

/-- The system calls on the socket. -/
inductive SocketCall
  | sendmsg (packet : List UInt8)
  | recvmsg

/-- A program on its socket; `recvmsg` is answered with the packet received, or with nothing if it fails. The result of
`sendmsg` is not looked at. -/
abbrev TestProgram := Client SocketCall (Option (List UInt8))

/-- A message of the program, and what it prints when it sends it. -/
structure TestMessage where
  msgType : Int32
  data : Int32
  text : List UInt8
  line : List UInt8

def helloMessage : TestMessage :=
  ⟨msgTypeHello, 123, ascii "Hello from user space!", ascii "Sending HELLO message...\n"⟩

def counterMessage : TestMessage := ⟨msgTypeCounter, 0, ascii "Get counter", ascii "Sending COUNTER request...\n"⟩

def statusMessage : TestMessage := ⟨msgTypeStatus, 0, ascii "Status request", ascii "Sending STATUS request...\n"⟩

def testMessages : List TestMessage := [helloMessage, counterMessage, statusMessage]

/-- `NLMSG_SPACE(sizeof(struct course_message))`. -/
def nlmsgSpace : Nat := 88

/-- `memset(nlh, 0, …)`. -/
def clearBuffer (nlh : Nat → UInt8) : Nat → UInt8 := deposit nlh 0 (List.replicate nlmsgSpace 0)

/-- The assignments before a message is sent: `nlmsg_len`, `nlmsg_pid`, `msg_type`, `data` and `text`. -/
def fillRequest (pid : UInt32) (m : TestMessage) (nlh : Nat → UInt8) : Nat → UInt8 :=
  let nlh := deposit nlh 0 (intBytes 88)
  let nlh := deposit nlh 12 (intBytes pid.toInt32)
  let nlh := deposit nlh 16 (intBytes m.msgType)
  let nlh := deposit nlh 20 (intBytes m.data)
  deposit nlh 24 (m.text ++ [0])

/-- `msg->data`. -/
def msgData (nlh : Nat → UInt8) : Int32 := (uint32At nlh 20).toInt32

/-- The line for a reply. -/
def receivedLine (type data : Int32) (text : List UInt8) : List UInt8 :=
  ascii "Received: type=" ++ ascii (toString type) ++ ascii ", data=" ++ ascii (toString data) ++ ascii ", text='" ++
    text ++
    ascii "'\n"

/-- What was received is printed. The text ends with the buffer: without a NUL in it, `printf` reads on behind. -/
def printReply (next : (Nat → UInt8) → TestProgram) (nlh : Nat → UInt8) (packet : Option (List UInt8)) : TestProgram :=
  let nlh := deposit nlh 0 ((packet.getD []).take nlmsgSpace)
  if 0 ∈ slice nlh 24 64 then .print (receivedLine (msgType nlh) (msgData nlh) (cstr (slice nlh 24 64))) (next nlh)
  else .crash

/-- One message and its reply. -/
def exchange (pid : UInt32) (m : TestMessage) (next : (Nat → UInt8) → TestProgram) (nlh : Nat → UInt8) : TestProgram :=
  let nlh := fillRequest pid m nlh
  .print m.line <|
  .call (.sendmsg (slice nlh 0 nlmsgSpace)) fun _ =>
  .call .recvmsg <| printReply next (clearBuffer nlh)

def completedLine : List UInt8 := ascii "Netlink test completed!\n"

/-- Messages one after another, and the end of `main`. -/
def exchangeAll (pid : UInt32) : List TestMessage → (Nat → UInt8) → TestProgram
  | [] => fun _ => .print completedLine (.exit 0)
  | m :: ms => exchange pid m (exchangeAll pid ms)

def openingLine : List UInt8 := ascii "Testing netlink communication...\n"

/-- `main`, with the errors of `socket` and `bind` if they fail, and the memory from `malloc`, which is not checked. -/
def main (strerror : Int → List UInt8) (pid : UInt32) (socketError bindError : Option Int)
    (block : Option (Nat → UInt8)) :
    TestProgram :=
  match socketError, bindError, block with
  | some e, _, _ => .print (perror strerror "socket" e) (.exit (-1))
  | none, some e, _ => .print (perror strerror "bind" e) (.exit (-1))
  | none, none, none => .crash
  | none, none, some nlh => .print openingLine <| exchangeAll pid testMessages (deposit (clearBuffer nlh) 6 [0, 0])

/-! ## Programs, sockets and the module -/

/-- `message_counter`, and what waits at each port. -/
structure Net where
  counter : Int32
  queue : UInt32 → List (List UInt8)

/-- A process runs its program, or the module in `sendmsg`. -/
inductive Local (P : Type u)
  | user (c : TestProgram)
  | module (l : Pc P) (next : TestProgram)

inductive TestAct (P : Type u)
  | print (line : List UInt8)
  /-- `sendmsg` calls the module, with anything behind the packet, or fails before. -/
  | send (packet : List UInt8) (behind : Nat → UInt8)
  | sendFailed (packet : List UInt8)
  /-- A step in the module. -/
  | module (act : Act P)
  | receive (packet : List UInt8)
  | receiveFailed

/-- The bytes of a reply: the header of `nlmsg_put` and the payload. -/
def Reply.bytes (x : Reply) : List UInt8 :=
  [88, 0, 0, 0, 3, 0, 0, 0, 0, 0, 0, 0, 0, 0, 0, 0] ++ (intBytes x.msgType ++ intBytes x.data ++ x.text)

/-- A reply joins the queue of its port. -/
def deliver (reply : Option Reply) (queue : UInt32 → List (List UInt8)) : UInt32 → List (List UInt8) :=
  match reply with
  | none => queue
  | some x => Function.update queue x.port (queue x.port ++ [x.bytes])

variable {P : Type u}

/-- One step of a process. -/
inductive TestStep (port : P → UInt32) (p : P) : Net → Local P → TestAct P → Net → Local P → Prop
  | print {g : Net} {line : List UInt8} {c : TestProgram} :
      TestStep port p g (.user (.print line c)) (.print line) g (.user c)
  | sendFailed {g : Net} {packet : List UInt8} {next : Option (List UInt8) → TestProgram} :
      TestStep port p g (.user (.call (.sendmsg packet) next)) (.sendFailed packet) g (.user (next none))
  | send {g : Net} {packet : List UInt8} {next : Option (List UInt8) → TestProgram} {n : Int32} {l : Pc P}
      (behind : Nat → UInt8) : RecvStep p g.counter .idle (.message p (received packet behind)) n l →
      TestStep port p g (.user (.call (.sendmsg packet) next)) (.send packet behind)
        { g with counter := n } (.module l (next none))
  | inside {g : Net} {next : TestProgram} {act : Act P} {n : Int32} {l l' : Pc P} : RecvStep p g.counter l act n l' →
      act = .load ∨ act = .store ∨ act = .argument →
      TestStep port p g (.module l next) (.module act) { g with counter := n } (.module l' next)
  | leave {g : Net} {next : TestProgram} {c : P} {skb : Nat → UInt8} {reply : Option Reply} {n : Int32} {l : Pc P} :
      RecvStep p g.counter l (.answer c skb reply) n .idle →
      TestStep port p g (.module l next) (.module (.answer c skb reply)) ⟨n, deliver reply g.queue⟩ (.user next)
  | receive {g : Net} {next : Option (List UInt8) → TestProgram} {packet : List UInt8} {rest : List (List UInt8)} :
      g.queue (port p) = packet :: rest →
      TestStep port p g (.user (.call .recvmsg next)) (.receive packet)
        { g with queue := Function.update g.queue (port p) rest } (.user (next (some packet)))
  | receiveFailed {g : Net} {next : Option (List UInt8) → TestProgram} :
      TestStep port p g (.user (.call .recvmsg next)) .receiveFailed g (.user (next none))

/-- What a process is started with: the library's texts, the errors of `socket` and `bind`, and the block from
`malloc`. -/
structure TestStart where
  strerror : Int → List UInt8
  socketError : Option Int
  bindError : Option Int
  block : Option (Nat → UInt8)

variable [DecidableEq P]

/-- Any number of programs over the module as it was loaded, each with the port of its process id. -/
def netlinkTests (port : P → UInt32) (start : P → TestStart) : System (Threads P Net (Local P)) (P × TestAct P) where
  init s := s.shared = ⟨0, fun _ => []⟩ ∧ ∀ p, s.pc p =
    .user (main (start p).strerror (port p) (start p).socketError (start p).bindError (start p).block)
  step s e s' := ∃ g l, TestStep port e.1 s.shared (s.pc e.1) e.2 g l ∧ s' = ⟨g, Function.update s.pc e.1 l⟩

/-! ## One program alone -/

/-- The messages of a program have their length and name its own port. -/
def Honest (port : UInt32) : SocketCall → Prop
  | .sendmsg packet => packet.length = nlmsgSpace ∧ ∀ behind, nlmsgPid (received packet behind) = port
  | .recvmsg => True

/-- A text of 64 bytes with a NUL. -/
structure Reply.Good (x : Reply) : Prop where
  length : x.text.length = 64
  terminated : 0 ∈ x.text

/-- What is received is a reply. -/
def Readable : SocketCall → Option (List UInt8) → Prop
  | .recvmsg, some packet => ∃ x : Reply, x.Good ∧ packet = x.bytes
  | _, _ => True

/-- The exit code tells whether there was a socket. -/
def ExitsWith (socketError bindError : Option Int) (ret : Int) : Prop :=
  ret = if socketError = none ∧ bindError = none then 0 else -1

section Buffer

variable {x : Reply} {nlh : Nat → UInt8}

theorem Reply.Good.length_bytes (hx : x.Good) : x.bytes.length = nlmsgSpace := by
  simp [Reply.bytes, hx.length, nlmsgSpace]

/-- The buffer after a reply was received. -/
def filled (nlh : Nat → UInt8) (x : Reply) : Nat → UInt8 := deposit nlh 0 (x.bytes.take nlmsgSpace)

theorem slice_filled (hx : x.Good) {o n : Nat} (h : 16 + o + n ≤ nlmsgSpace) :
    slice (filled nlh x) (16 + o) n = ((intBytes x.msgType ++ intBytes x.data ++ x.text).drop o).take n := by
  have hall : slice (filled nlh x) 0 nlmsgSpace = x.bytes := by
    have htake : x.bytes.take nlmsgSpace = x.bytes := List.take_of_length_le hx.length_bytes.le
    rw [filled, htake, ← hx.length_bytes]
    exact slice_deposit nlh 0 x.bytes
  have hpart := congrArg (fun bs => (bs.drop (16 + o)).take n) hall
  simp only [drop_slice _ 0 (show 16 + o ≤ nlmsgSpace by omega),
    take_slice _ _ (show n ≤ nlmsgSpace - (16 + o) by omega), Nat.zero_add] at hpart
  rw [hpart, Reply.bytes, ← List.drop_drop]
  rfl

/-- What the program prints of a reply. -/
theorem filled_fields (nlh : Nat → UInt8) (hx : x.Good) :
    msgType (filled nlh x) = x.msgType ∧ msgData (filled nlh x) = x.data ∧ slice (filled nlh x) 24 64 = x.text := by
  refine ⟨uint32At_intBytes (slice_filled hx (o := 0) (n := 4) (by decide)),
    uint32At_intBytes (slice_filled hx (o := 4) (n := 4) (by decide)), ?_⟩
  rw [slice_filled hx (o := 8) (n := 64) (by decide)]
  exact List.take_of_length_le hx.length.le

/-- The program goes on with the line for the reply. -/
theorem printReply_some (hx : x.Good) (next : (Nat → UInt8) → TestProgram) (nlh : Nat → UInt8) :
    printReply next nlh (some x.bytes) =
      .print (receivedLine x.msgType x.data (cstr x.text)) (next (filled nlh x)) := by
  obtain ⟨htype, hdata, htext⟩ := filled_fields nlh hx
  unfold printReply
  rw [Option.getD_some, ← filled]
  simp only [htype, hdata, htext, if_pos hx.terminated]

theorem slice_clearBuffer (nlh : Nat → UInt8) : slice (clearBuffer nlh) 24 64 = List.replicate 64 0 := by
  have hall : slice (clearBuffer nlh) 0 nlmsgSpace = List.replicate nlmsgSpace 0 := slice_deposit nlh 0 _
  have hpart := congrArg (List.drop 24) hall
  rwa [drop_slice _ 0 (by decide)] at hpart

/-- The module reads the fields of the buffer that was sent. -/
theorem slice_sent (nlh behind : Nat → UInt8) {o n : Nat} (h : o + n ≤ nlmsgSpace) :
    slice (received (slice nlh 0 nlmsgSpace) behind) o n = slice nlh o n := by
  rw [slice_received _ (by rwa [length_slice]), drop_slice _ 0 (by omega), take_slice _ _ (by omega), Nat.zero_add]

/-- The port and the type in a message. -/
theorem nlmsgPid_fillRequest (pid : UInt32) (m : TestMessage) (nlh behind : Nat → UInt8) :
    nlmsgPid (received (slice (fillRequest pid m nlh) 0 nlmsgSpace) behind) = pid := by
  have hslice : slice (received (slice (fillRequest pid m nlh) 0 nlmsgSpace) behind) 12 4 = intBytes pid.toInt32 := by
    rw [slice_sent _ _ (by decide), fillRequest, slice_deposit_other _ (.inl (by decide)),
      slice_deposit_other _ (.inl (by decide)), slice_deposit_other _ (.inl (by decide))]
    exact slice_deposit _ 12 (intBytes pid.toInt32)
  exact congrArg Int32.toUInt32 (uint32At_intBytes hslice)

theorem packetType_fillRequest (pid : UInt32) (m : TestMessage) (nlh : Nat → UInt8) :
    packetType (slice (fillRequest pid m nlh) 0 nlmsgSpace) = m.msgType := by
  refine uint32At_intBytes ?_
  rw [slice_sent _ _ (by decide), fillRequest, slice_deposit_other _ (.inl (by decide)),
    slice_deposit_other _ (.inl (by decide))]
  exact slice_deposit _ 16 (intBytes m.msgType)

end Buffer

section Safe

variable {port : UInt32} {ok : Int → Prop}

theorem safe_printReply {next : (Nat → UInt8) → TestProgram} (nlh : Nat → UInt8)
    (hnext : ∀ nlh, (next nlh).Safe (Honest port) Readable ok) {packet : Option (List UInt8)}
    (hpacket : Readable .recvmsg packet) :
    (printReply next (clearBuffer nlh) packet).Safe (Honest port) Readable ok := by
  cases packet with
  | none =>
    have hzero : 0 ∈ slice (deposit (clearBuffer nlh) 0 []) 24 64 := by
      rw [deposit, slice_clearBuffer]
      simp
    simp only [printReply, Option.getD_none, List.take_nil, if_pos hzero]
    exact hnext _
  | some packet =>
    obtain ⟨x, hx, rfl⟩ := hpacket
    rw [printReply_some hx]
    exact hnext _

theorem safe_exchangeAll (hok : ok 0) : ∀ (ms : List TestMessage) (nlh : Nat → UInt8),
    (exchangeAll port ms nlh).Safe (Honest port) Readable ok
  | [], _ => hok
  | m :: ms, nlh => by
    refine ⟨⟨length_slice _ _ _, nlmsgPid_fillRequest port m nlh⟩, fun _ _ => ?_⟩
    exact ⟨trivial, fun _ hpacket => safe_printReply _ (safe_exchangeAll hok ms) hpacket⟩

theorem safe_main (strerror : Int → List UInt8) (socketError bindError : Option Int) {block : Option (Nat → UInt8)}
    (hblock : block ≠ none) :
    (main strerror port socketError bindError block).Safe (Honest port) Readable (ExitsWith socketError bindError) := by
  cases socketError with
  | some e => exact (if_neg (by simp)).symm
  | none =>
    cases bindError with
    | some e => exact (if_neg (by simp)).symm
    | none =>
      cases block with
      | none => exact absurd rfl hblock
      | some nlh =>
        have hok : ExitsWith none none 0 := (if_pos ⟨rfl, rfl⟩).symm
        exact safe_exchangeAll hok testMessages _

end Safe

/-! ## A program whose calls do not fail -/

/-- The type of a message that was sent, and the packet that was received. -/
def sentType : ClientAct SocketCall (Option (List UInt8)) → Option Int32
  | .call (.sendmsg packet) _ => some (packetType packet)
  | _ => none

def receivedPacket : ClientAct SocketCall (Option (List UInt8)) → Option (List UInt8)
  | .call .recvmsg packet => packet
  | _ => none

/-- The lines for a message and its reply. -/
def exchangeLines (m : TestMessage) (x : Reply) : List (List UInt8) :=
  [m.line, receivedLine x.msgType x.data (cstr x.text)]

/-- **The messages and their replies**, if every `recvmsg` receives a reply. -/
theorem trace_exchangeAll {pid : UInt32} {ret : Int} : ∀ {ms : List TestMessage} {nlh : Nat → UInt8}
    {es : List (ClientAct SocketCall (Option (List UInt8)))}, (exchangeAll pid ms nlh).Trace es (.exit ret) →
    (∀ a, .call .recvmsg a ∈ es → ∃ x : Reply, x.Good ∧ a = some x.bytes) →
    ∃ xs : List Reply, xs.length = ms.length ∧ (∀ x ∈ xs, x.Good) ∧ es.filterMap receivedPacket = xs.map Reply.bytes ∧
      es.filterMap sentType = ms.map TestMessage.msgType ∧
      printed es = (List.zipWith exchangeLines ms xs).flatten ++ [completedLine]
  | [], _, _, h, _ => by
    cases h with
    | print h =>
      cases h with
      | nil => exact ⟨[], rfl, by simp, rfl, rfl, rfl⟩
  | m :: ms, nlh, _, h, hgood => by
    cases h with
    | print h =>
      cases h with
      | call h =>
        cases h with
        | @call _ a _ _ _ h =>
          obtain ⟨x, hx, rfl⟩ := hgood a (by simp)
          rw [printReply_some hx] at h
          cases h with
          | print h =>
            obtain ⟨xs, hlen, hall, hpackets, htypes, hlines⟩ := trace_exchangeAll h fun a ha => hgood a (by simp [ha])
            refine ⟨x :: xs, by simp [hlen], List.forall_mem_cons.mpr ⟨hx, hall⟩, ?_, ?_, ?_⟩
            · exact congrArg (List.cons x.bytes) hpackets
            · exact congrArg₂ List.cons (packetType_fillRequest pid m nlh) htypes
            · simpa [printed, exchangeLines] using hlines

end KernelModules.Netlink
