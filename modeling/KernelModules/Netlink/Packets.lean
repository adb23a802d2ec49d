import KernelModules.Netlink.NetlinkExample

/-!
# The bytes of a message

A message to the module is any bytes that a process sends; memory goes on behind them. `netlink_recv_msg` looks at the
port, the type, the data and, to print it, at the text up to its first NUL, and never at the length: it stays inside the
packet exactly if a NUL follows the 24 bytes before the text, and it takes up every request whose type it knows, well
formed or not (`netlink_recv_packet`).

A reply is built in a socket buffer with any bytes in it. All 72 bytes of the payload are stored, and the client reads
back what was to be sent (`netlink_reply_payload`).
-/

namespace KernelModules.Netlink

open Lib

/-! ## Received bytes -/

/-- Memory from `skb->data` on: a packet and what lies behind it. -/
def received (packet : List UInt8) (behind : Nat → UInt8) (i : Nat) : UInt8 :=
  if h : i < packet.length then packet[i] else behind (i - packet.length)

/-- The bytes that `netlink_recv_msg` reads: `nlmsg_pid`, `msg_type`, `data`, and `text` up to its NUL. -/
def ReadsByte (skb : Nat → UInt8) (i : Nat) : Prop :=
  (12 ≤ i ∧ i < 16) ∨ (16 ≤ i ∧ i < 20) ∨ (20 ≤ i ∧ i < 24) ∨ (24 ≤ i ∧ ∀ j, 24 ≤ j → j < i → skb j ≠ 0)

theorem uint32At_congr {m m' : Nat → UInt8} {o : Nat} (h : ∀ i, o ≤ i → i < o + 4 → m' i = m i) :
    uint32At m' o = uint32At m o := by
  rw [uint32At, uint32At, h o (by omega) (by omega), h (o + 1) (by omega) (by omega), h (o + 2) (by omega) (by omega),
    h (o + 3) (by omega) (by omega)]

/-- **No other byte matters**, neither for the counter and the reply nor for the type, the data and the text, up to any
length, that are logged. -/
theorem reads_determine {skb skb' : Nat → UInt8} (h : ∀ i, ReadsByte skb i → skb' i = skb i) :
    (∀ messageCounter fate, netlinkRecvMsg messageCounter skb' fate = netlinkRecvMsg messageCounter skb fate) ∧
    msgType skb' = msgType skb ∧ uint32At skb' 20 = uint32At skb 20 ∧
    ∀ n, cstr (slice skb' 24 n) = cstr (slice skb 24 n) := by
  have hpid : nlmsgPid skb' = nlmsgPid skb := uint32At_congr fun i hi hlt => h i (.inl ⟨hi, hlt⟩)
  have htype : msgType skb' = msgType skb :=
    congrArg UInt32.toInt32 (uint32At_congr fun i hi hlt => h i (.inr (.inl ⟨hi, hlt⟩)))
  refine ⟨fun messageCounter fate => ?_, htype, ?_, fun n => ?_⟩
  · rw [netlinkRecvMsg_eq, netlinkRecvMsg_eq, hpid, htype]
  · exact uint32At_congr fun i hi hlt => h i (.inr (.inr (.inl ⟨hi, hlt⟩)))
  · exact cstr_slice_congr fun i hi _ hfree => h i (.inr (.inr (.inr ⟨hi, hfree⟩)))

/-- The header and the whole of a `course_message`, with a NUL in its text. -/
def WellFormed (packet : List UInt8) : Prop := 88 ≤ packet.length ∧ 0 ∈ (packet.drop 24).take 64

/-- The message is not taken up: the counter stays, and no reply is sent but the one to an unknown command. -/
def Rejected (skb : Nat → UInt8) : Prop :=
  ∀ messageCounter fate, (netlinkRecvMsg messageCounter skb fate).1 = messageCounter ∧
    ∀ x, (netlinkRecvMsg messageCounter skb fate).2 = some x → x.msgType = 0 ∧ x.data = -1

/-- The type in a packet. -/
def packetType (packet : List UInt8) : Int32 := msgType (received packet fun _ => 0)

/-- The type is one of the three. -/
def Known (t : Int32) : Prop := t = msgTypeHello ∨ t = msgTypeCounter ∨ t = msgTypeStatus

instance (t : Int32) : Decidable (Known t) := inferInstanceAs (Decidable (_ ∨ _ ∨ _))

section Received

variable {packet : List UInt8} {behind : Nat → UInt8}

theorem received_of_lt {i : Nat} (h : i < packet.length) : received packet behind i = packet[i] := dif_pos h

/-- A NUL behind the first `o` bytes of a packet. -/
theorem zero_mem_drop_iff (behind : Nat → UInt8) {o : Nat} :
    0 ∈ packet.drop o ↔ ∃ k, o ≤ k ∧ k < packet.length ∧ received packet behind k = 0 := by
  rw [List.mem_drop_iff_getElem]
  constructor
  · rintro ⟨i, hi, hzero⟩
    exact ⟨i + o, Nat.le_add_left o i, by omega, by rw [received_of_lt (by omega), ← hzero]; congr 1; omega⟩
  · rintro ⟨k, hk, hlt, hzero⟩
    rw [received_of_lt hlt] at hzero
    exact ⟨k - o, by omega, by rw [← hzero]; congr 1; omega⟩

/-- The reads stay inside the packet exactly if they meet a NUL there. -/
theorem reads_inside_iff :
    (∀ i, ReadsByte (received packet behind) i → i < packet.length) ↔ 0 ∈ packet.drop 24 := by
  rw [zero_mem_drop_iff behind]
  constructor
  · intro hall
    by_contra hnone
    -- without a NUL the text goes on to the first byte behind the packet
    have hread : ReadsByte (received packet behind) (max packet.length 24) := by
      refine .inr (.inr (.inr ⟨by omega, fun j hj hlt hzero => hnone ⟨j, hj, by omega, hzero⟩⟩))
    have := hall _ hread
    omega
  · rintro ⟨k, hk, hlt, hzero⟩ i hi
    rcases hi with hi | hi | hi | ⟨_, hi⟩
    · omega
    · omega
    · omega
    · have hle : i ≤ k := by
        by_contra hik
        exact hi k hk (by omega) hzero
      omega

/-- What lies behind a packet of 20 bytes does not matter for its type. -/
theorem msgType_received (h : 20 ≤ packet.length) : msgType (received packet behind) = packetType packet := by
  refine congrArg UInt32.toInt32 (uint32At_congr fun i _ hi => ?_)
  rw [received_of_lt (by omega), received_of_lt (by omega)]

end Received

theorem replyType_of_known {t : Int32} (h : Known t) : replyType t = t := if_pos h

theorem replyType_of_unknown {t : Int32} (h : ¬Known t) : replyType t = 0 := if_neg h

/-- Only a message of unknown type is rejected. -/
theorem rejected_iff (skb : Nat → UInt8) : Rejected skb ↔ ¬Known (msgType skb) := by
  constructor
  · intro hrej hknown
    have hreply : (netlinkRecvMsg 0 skb .sent).2 = some _ := congrArg Prod.snd (netlinkRecvMsg_eq 0 skb .sent)
    have hzero : replyType (msgType skb) = 0 := ((hrej 0 .sent).2 _ hreply).1
    rw [replyType_of_known hknown] at hzero
    rw [hzero] at hknown
    exact absurd hknown (by decide)
  · intro hunknown n fate
    have hhello : msgType skb ≠ msgTypeHello := fun h => hunknown (.inl h)
    have hcounter : msgType skb ≠ msgTypeCounter := fun h => hunknown (.inr (.inl h))
    have hstatus : msgType skb ≠ msgTypeStatus := fun h => hunknown (.inr (.inr h))
    rw [netlinkRecvMsg_eq, counted, if_neg hhello]
    refine ⟨rfl, fun x hx => ?_⟩
    obtain ⟨_, htype, hdata⟩ := sendMessageToUser_some hx
    rw [htype, hdata, replyType_of_unknown hunknown, replyData, if_neg (not_or.mpr ⟨hhello, hcounter⟩), if_neg hstatus]
    exact ⟨rfl, rfl⟩

/-- **A received packet.** For every packet and whatever lies behind it: `netlink_recv_msg` reads only bytes of the
packet, and a packet that is not well formed is rejected, exactly if a NUL follows its first 24 bytes, and it is well
formed or its type is unknown. -/
theorem netlink_recv_packet (packet : List UInt8) (behind : Nat → UInt8) :
    ((∀ i, ReadsByte (received packet behind) i → i < packet.length) ∧
      (¬WellFormed packet → Rejected (received packet behind))) ↔
    0 ∈ packet.drop 24 ∧ (WellFormed packet ∨ ¬Known (packetType packet)) := by
  rw [reads_inside_iff, rejected_iff]
  refine and_congr_right fun hzero => ?_
  have hlen : 20 ≤ packet.length := by
    have := List.length_pos_of_mem hzero
    rw [List.length_drop] at this
    omega
  rw [msgType_received hlen, or_iff_not_imp_left]

/-- A HELLO from port 100 with 64 bytes of text and no NUL among them. -/
def unterminatedHello : List UInt8 :=
  List.replicate 12 0 ++ [100, 0, 0, 0, 1, 0, 0, 0, 0, 0, 0, 0] ++ List.replicate 64 65

/-- It has the length of a whole message. The byte behind it is read, and it is counted. -/
theorem netlink_recv_unterminated : unterminatedHello.length = 88 ∧ ¬WellFormed unterminatedHello ∧
    ReadsByte (received unterminatedHello fun _ => 0) 88 ∧
    (netlinkRecvMsg 0 (received unterminatedHello fun _ => 0) .sent).1 = 1 := by
  have htext : ∀ j, 24 ≤ j → j < 88 → received unterminatedHello (fun _ => 0) j = 65 := by
    intro j hj hlt
    have hlen : unterminatedHello.length = 88 := rfl
    rw [received_of_lt (by omega)]
    unfold unterminatedHello
    rw [List.getElem_append_right (by exact hj), List.getElem_replicate]
  refine ⟨rfl, ?_, .inr (.inr (.inr ⟨by decide, fun j hj hlt => ?_⟩)), by decide⟩
  · rintro ⟨_, hzero⟩
    exact absurd hzero (by decide)
  · rw [htext j hj hlt]
    decide

/-! ## Sent bytes -/

/-- The four bytes of an `int`, lowest first. -/
def intBytes (v : Int32) : List UInt8 := (List.range 4).map fun k => UInt8.ofNat (v.toUInt32.toNat / 2 ^ (8 * k))

/-- The assignments of `send_message_to_user` to the payload, behind the header of 16 bytes. -/
def fillPayload (skb : Nat → UInt8) (msgType data : Int32) (text : List UInt8) : Nat → UInt8 :=
  let skb := deposit skb 16 (intBytes msgType)
  let skb := deposit skb 20 (intBytes data)
  deposit skb 24 ((strncpy (slice skb 24 64) text 63).set 63 0)

/-- `nlmsg_data` of the message: `sizeof(struct course_message)` bytes. -/
def payload (skb : Nat → UInt8) : List UInt8 := slice skb 16 72

/-- `struct course_message`, as the client declares it. -/
structure CourseMessage where
  msgType : Int32
  data : Int32
  text : List UInt8
deriving DecidableEq, Repr

/-- The fields of a payload. -/
def decode (bytes : List UInt8) : CourseMessage where
  msgType := (uint32At (received bytes fun _ => 0) 0).toInt32
  data := (uint32At (received bytes fun _ => 0) 4).toInt32
  text := (bytes.drop 8).take 64

@[simp] theorem length_intBytes (v : Int32) : (intBytes v).length = 4 := rfl

/-- **The payload** is made of the arguments alone. -/
theorem payload_fillPayload (skb : Nat → UInt8) (msgType data : Int32) (text : List UInt8) :
    payload (fillPayload skb msgType data text) = intBytes msgType ++ intBytes data ++ paddedField 63 text := by
  have htext : ∀ m : Nat → UInt8, (strncpy (slice m 24 64) text 63).set 63 0 = paddedField 63 text := fun m =>
    strncpy_set (length_slice m 24 64) text
  have hlen : (paddedField 63 text).length = 64 := length_paddedField 63 text
  have hfields : payload (fillPayload skb msgType data text) = slice (fillPayload skb msgType data text) 16 4 ++
      slice (fillPayload skb msgType data text) 20 4 ++ slice (fillPayload skb msgType data text) 24 64 := by
    rw [payload, ← slice_append _ 16 4 4, ← slice_append _ 16 8 64]
  rw [hfields]
  simp only [fillPayload, htext]
  refine congrArg₂ _ (congrArg₂ _ ?_ ?_) ?_
  -- each field is untouched by the stores behind it
  · refine Eq.trans (slice_congr fun i hi => ?_) (slice_deposit skb 16 (intBytes msgType))
    rw [deposit_of_notMem _ (.inl (by omega)), deposit_of_notMem _ (.inl (by omega))]
  · refine Eq.trans (slice_congr fun i hi => ?_)
      (slice_deposit (deposit skb 16 (intBytes msgType)) 20 (intBytes data))
    rw [deposit_of_notMem _ (.inl (by omega))]
  · rw [← hlen, slice_deposit]

/-- Four bytes of an `int` are read as that `int`. -/
theorem uint32At_intBytes {m : Nat → UInt8} {o : Nat} {v : Int32} (h : slice m o 4 = intBytes v) :
    (uint32At m o).toInt32 = v := by
  have hbyte : ∀ k < 4, (m (o + k)).toNat = v.toUInt32.toNat / 2 ^ (8 * k) % 256 := by
    intro k hk
    have hget := congrArg (·[k]?) h
    simp only [slice_eq_map, intBytes, List.getElem?_map, List.getElem?_range hk, Option.map_some,
      Option.some.injEq] at hget
    rw [hget, UInt8.toNat_ofNat']
  have h0 := hbyte 0 (by decide)
  have h1 := hbyte 1 (by decide)
  have h2 := hbyte 2 (by decide)
  have h3 := hbyte 3 (by decide)
  have hlt := v.toUInt32.toNat_lt
  have hvalue : (m o).toNat + (m (o + 1)).toNat * 2 ^ 8 + (m (o + 2)).toNat * 2 ^ 16 + (m (o + 3)).toNat * 2 ^ 24 =
      v.toUInt32.toNat := by
    rw [Nat.add_zero] at h0
    omega
  rw [uint32At, hvalue, UInt32.ofNat_toNat, Int32.toInt32_toUInt32]

theorem slice_received {bytes : List UInt8} (behind : Nat → UInt8) {o n : Nat} (h : o + n ≤ bytes.length) :
    slice (received bytes behind) o n = (bytes.drop o).take n := by
  rw [slice_eq_map]
  refine List.ext_getElem (by simp; omega) fun i hi hi' => ?_
  rw [List.length_map, List.length_range] at hi
  rw [List.getElem_map, List.getElem_range, received_of_lt (by omega), List.getElem_take, List.getElem_drop]

/-- The client reads the fields that were put together. -/
theorem decode_append {field : List UInt8} (hfield : field.length = 64) (msgType data : Int32) :
    decode (intBytes msgType ++ intBytes data ++ field) = ⟨msgType, data, field⟩ := by
  have hlen : (intBytes msgType ++ intBytes data ++ field).length = 72 := by
    simp only [List.length_append, length_intBytes, hfield]
  have htype : slice (received (intBytes msgType ++ intBytes data ++ field) fun _ => 0) 0 4 = intBytes msgType :=
    slice_received _ (by omega)
  have hdata : slice (received (intBytes msgType ++ intBytes data ++ field) fun _ => 0) 4 4 = intBytes data :=
    slice_received _ (by omega)
  have htext : ((intBytes msgType ++ intBytes data ++ field).drop 8).take 64 = field :=
    List.take_of_length_le (Nat.le_of_eq hfield)
  rw [decode, uint32At_intBytes htype, uint32At_intBytes hdata, htext]

/-- The reply of the model is what the client reads, whatever the socket buffer held. -/
theorem sendMessageToUser_decode (skb : Nat → UInt8) (pid msgType data : Int32) (text : List UInt8) :
    sendMessageToUser .sent pid msgType data text =
      some ⟨pid.toUInt32, (decode (payload (fillPayload skb msgType data text))).msgType,
        (decode (payload (fillPayload skb msgType data text))).data,
        (decode (payload (fillPayload skb msgType data text))).text⟩ := by
  rw [payload_fillPayload, decode_append (length_paddedField 63 text), sendMessageToUser, strncpy_set rfl]

/-- **The payload of a reply.** For every type, data and terminated text, in whatever memory the text lies and
whatever the socket buffer held: the payload has 72 bytes, the client reads from it the type, the data and the text
cut to 63 characters with NULs behind it, and another buffer and other bytes behind the text give the same payload. -/
theorem netlink_reply_payload (skb : Nat → UInt8) (msgType data : Int32) (text rest : List UInt8) (htext : 0 ∉ text) :
    (payload (fillPayload skb msgType data (text ++ 0 :: rest))).length = 72 ∧
    decode (payload (fillPayload skb msgType data (text ++ 0 :: rest))) =
      ⟨msgType, data, text.take 63 ++ List.replicate (64 - min text.length 63) 0⟩ ∧
    cstr (decode (payload (fillPayload skb msgType data (text ++ 0 :: rest)))).text = text.take 63 ∧
    ∀ skb' rest', payload (fillPayload skb' msgType data (text ++ 0 :: rest')) =
      payload (fillPayload skb msgType data (text ++ 0 :: rest)) := by
  have hfield : ∀ rest, paddedField 63 (text ++ 0 :: rest) =
      text.take 63 ++ List.replicate (64 - min text.length 63) 0 := by
    intro rest
    rw [paddedField_eq, cstr_terminated rest htext]
  have hlen : ∀ rest, (paddedField 63 (text ++ 0 :: rest)).length = 64 := fun rest => length_paddedField 63 _
  refine ⟨length_slice _ 16 72, ?_, ?_, fun skb' rest' => ?_⟩
  · rw [payload_fillPayload, decode_append (hlen rest), hfield]
  · rw [payload_fillPayload, decode_append (hlen rest), cstr_paddedField, cstr_terminated rest htext]
  · rw [payload_fillPayload, payload_fillPayload, hfield, hfield]

/-- A text of 70 characters is cut. -/
theorem netlink_reply_payload_cut : 0 ∉ List.replicate 70 (65 : UInt8) ∧
    cstr (decode (payload (fillPayload (fun _ => 255) 1 5 (List.replicate 70 65 ++ [0])))).text =
      (List.replicate 70 65).take 63 :=
  have htext : 0 ∉ List.replicate 70 (65 : UInt8) := by decide
  ⟨htext, (netlink_reply_payload (fun _ => 255) 1 5 (List.replicate 70 65) [] htext).2.2.1⟩

end KernelModules.Netlink
