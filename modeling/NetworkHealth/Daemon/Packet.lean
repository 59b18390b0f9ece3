import NetworkHealth.Library.Memory
import NetworkHealth.Daemon.Probing

/-! Echo packets: what `send` puts on the wire, and what `receive` makes of the datagrams that
come in. The integers of a payload stand in the host's byte order, whichever that is. -/
namespace NetworkHealth.Daemon
open Reading (fetch giveUp)

def kMagic : UInt32 := 0x504E4831
def kMaxDatagram : ℕ := 256

/-- Echoed back verbatim by the peer. -/
structure Payload where
  magic : UInt32
  cookie : UInt32
  uid : UInt32
  seq : UInt32
  sentUs : UInt64
  deriving DecidableEq, Repr

structure IcmpHeader where
  type : UInt8
  code : UInt8
  checksum : UInt16
  id : UInt16
  sequence : UInt16
  deriving DecidableEq, Repr

/-- `sizeof(Payload)` and `sizeof(IcmpHeader)`. -/
def payloadSize : ℕ := 24
def headerSize : ℕ := 8
def kPacketSize : ℕ := headerSize + payloadSize

/-- `sizeof(struct iphdr)`. -/
def ipHeaderSize : ℕ := 20

section Layout
variable (order : ByteOrder)

def htons (n : UInt16) : UInt16 := .ofNat (order.load (ByteOrder.big.store 2 n.toNat))

def Payload.bytes (p : Payload) : Bytes :=
  order.store 4 p.magic.toNat ++ order.store 4 p.cookie.toNat ++ order.store 4 p.uid.toNat ++
    order.store 4 p.seq.toNat ++ order.store 8 p.sentUs.toNat

def Payload.ofBytes (bs : Bytes) : Payload where
  magic := .ofNat (order.load (bs.take 4))
  cookie := .ofNat (order.load ((bs.drop 4).take 4))
  uid := .ofNat (order.load ((bs.drop 8).take 4))
  seq := .ofNat (order.load ((bs.drop 12).take 4))
  sentUs := .ofNat (order.load ((bs.drop 16).take 8))

def IcmpHeader.bytes (h : IcmpHeader) : Bytes :=
  [h.type, h.code] ++ order.store 2 h.checksum.toNat ++ order.store 2 h.id.toNat ++
    order.store 2 h.sequence.toNat

def IcmpHeader.ofBytes (bs : Bytes) : IcmpHeader where
  type := bs.getD 0 0
  code := bs.getD 1 0
  checksum := .ofNat (order.load ((bs.drop 2).take 2))
  id := .ofNat (order.load ((bs.drop 4).take 2))
  sequence := .ofNat (order.load ((bs.drop 6).take 2))

/-- The words that `internetChecksum` adds up; a last single byte is one by itself. -/
def checksumWords : Bytes → List ℕ
  | [] => []
  | [last] => [order.load [last, 0]]
  | a :: b :: rest => order.load [a, b] :: checksumWords rest

/-- The carries are added back in until there are none. -/
def foldCarries (sum : ℕ) : ℕ :=
  if sum / 2 ^ 16 = 0 then sum else foldCarries (sum % 2 ^ 16 + sum / 2 ^ 16)
termination_by sum

def internetChecksum (data : Bytes) : UInt16 :=
  ~~~(UInt16.ofNat (foldCarries ((checksumWords order data).foldl (fun sum word => (sum + word) % 2 ^ 32) 0)))

end Layout

/-- What `recvmmsg` fills in: a buffer, how much of it, and the sender. -/
structure Message where
  buffer : ℕ → UInt8
  length : ℕ
  source : SockAddr
  sourceLen : ℕ

namespace IcmpSocket
variable (order : ByteOrder) (socket : IcmpSocket) (family : Family)

def requestType : UInt8 := if family = .inet6 then 128 else 8
def expectedType : UInt8 := if family = .inet6 then 129 else 0

/-- Raw IPv4 sockets hand us the IP header too. -/
def handsIpHeader : Bool := socket.isRaw && family = .inet

/-- The packet that `send` hands to the kernel. -/
def packet (uid seq : UInt32) (sentUs : UInt64) (cookie : UInt32) : Bytes :=
  let header : IcmpHeader := ⟨requestType family, 0, 0, htons order uid.toUInt16, htons order seq.toUInt16⟩
  let payload : Payload := ⟨kMagic, cookie, uid, seq, sentUs⟩
  let packet := header.bytes order ++ payload.bytes order
  if handsIpHeader socket family then
    packet.take 2 ++ order.store 2 (internetChecksum order packet).toNat ++ packet.drop 4
  else packet

/-- Where the ICMP header of a message begins. -/
def skipIpHeader (message : Message) : Reading ℕ :=
  if handsIpHeader socket family then
    if message.length < ipHeaderSize then giveUp
    else do
      let first ← fetch message.buffer 0 1
      let headerLength := (first.headD 0 &&& 0x0F).toNat * 4
      if headerLength < ipHeaderSize ∨ message.length < headerLength then giveUp else pure headerLength
  else pure 0

/-- The loop body of `receive`. -/
def receiveMessage (cookie : UInt32) (message : Message) : Reading Datagram := do
  let start ← skipIpHeader socket family message
  if message.length - start < kPacketSize then giveUp
  else do
    let header ← fetch message.buffer start headerSize
    let header := IcmpHeader.ofBytes order header
    if header.type ≠ expectedType family ∨ header.code ≠ 0 then giveUp
    else do
      let payload ← fetch message.buffer (start + headerSize) payloadSize
      let payload := Payload.ofBytes order payload
      if payload.magic ≠ kMagic ∨ payload.cookie ≠ cookie then giveUp
      else pure ⟨payload.cookie.toNat, payload.uid.toNat, payload.seq.toNat, payload.sentUs.toNat,
        message.source, message.sourceLen⟩

/-- `receive`, with all that is queued. -/
def receive (cookie : UInt32) (messages : List Message) : List Datagram :=
  if !socket.isOpen then []
  else messages.filterMap fun message => (receiveMessage order socket family cookie message).result

/-- The packet as an echo reply brings it back, under any checksum and identifier. -/
def echoed (checksum identifier : UInt16) (packet : Bytes) : Bytes :=
  expectedType family :: packet.getD 1 0 ::
    (order.store 2 checksum.toNat ++ order.store 2 identifier.toNat ++ packet.drop 6)

/-- What stands before the ICMP header: on sockets that hand it over, an IP header with any
options, which gives its own length in words of four bytes. -/
def IsFront (front : Bytes) : Prop :=
  if handsIpHeader socket family = true then
    ipHeaderSize ≤ front.length ∧ front.length = (front.headD 0 &&& 0x0F).toNat * 4
  else front = []

instance (front : Bytes) : Decidable (IsFront socket family front) :=
  inferInstanceAs (Decidable (if handsIpHeader socket family = true then
    ipHeaderSize ≤ front.length ∧ front.length = (front.headD 0 &&& 0x0F).toNat * 4 else front = []))

/-- Where the IP header of a message ends, by what it says itself. -/
def headerEnd (message : Message) : ℕ :=
  if handsIpHeader socket family then (message.buffer 0 &&& 0x0F).toNat * 4 else 0

/-- The message has a reply header with code 0, and after it the magic and this cookie. -/
structure Ours (cookie : UInt32) (message : Message) : Prop where
  ipHeader : handsIpHeader socket family = true → ipHeaderSize ≤ headerEnd socket family message
  size : headerEnd socket family message + kPacketSize ≤ message.length
  type : message.buffer (headerEnd socket family message) = expectedType family
  code : message.buffer (headerEnd socket family message + 1) = 0
  magic : Holds message.buffer (headerEnd socket family message + headerSize) (order.store 4 kMagic.toNat)
  cookie : Holds message.buffer (headerEnd socket family message + headerSize + 4) (order.store 4 cookie.toNat)

end IcmpSocket

section Layout
variable (order : ByteOrder)

theorem Payload.length_bytes (p : Payload) : (p.bytes order).length = payloadSize := by
  simp [Payload.bytes, payloadSize]

theorem ofNat_load_store32 (n : UInt32) : UInt32.ofNat (order.load (order.store 4 n.toNat)) = n := by
  rw [order.load_store n.toNat_lt, UInt32.ofNat_toNat]

theorem ofNat_load_store64 (n : UInt64) : UInt64.ofNat (order.load (order.store 8 n.toNat)) = n := by
  rw [order.load_store n.toNat_lt, UInt64.ofNat_toNat]

theorem Payload.ofBytes_bytes (p : Payload) : Payload.ofBytes order (p.bytes order) = p := by
  have hmagic : (p.bytes order).take 4 = order.store 4 p.magic.toNat := by simp [Payload.bytes]
  have hcookie : ((p.bytes order).drop 4).take 4 = order.store 4 p.cookie.toNat := by simp [Payload.bytes]
  have huid : ((p.bytes order).drop 8).take 4 = order.store 4 p.uid.toNat := by
    simp [Payload.bytes, List.drop_append, List.drop_eq_nil_of_le]
  have hseq : ((p.bytes order).drop 12).take 4 = order.store 4 p.seq.toNat := by
    simp [Payload.bytes, List.drop_append, List.drop_eq_nil_of_le]
  have hsent : ((p.bytes order).drop 16).take 8 = order.store 8 p.sentUs.toNat := by
    simp [Payload.bytes, List.drop_append, List.drop_eq_nil_of_le]
  rw [Payload.ofBytes, hmagic, hcookie, huid, hseq, hsent]
  simp only [ofNat_load_store32, ofNat_load_store64]

end Layout

namespace IcmpSocket
variable {order : ByteOrder} {socket : IcmpSocket} {family : Family}

/-- The payload of a message, at its place. -/
def payloadAt (order : ByteOrder) (socket : IcmpSocket) (family : Family) (message : Message) : Payload :=
  .ofBytes order ((List.range' (headerEnd socket family message + headerSize) payloadSize).map message.buffer)

def replyAt (order : ByteOrder) (socket : IcmpSocket) (family : Family) (message : Message) : Datagram where
  cookie := (payloadAt order socket family message).cookie.toNat
  uid := (payloadAt order socket family message).uid.toNat
  seq := (payloadAt order socket family message).seq.toNat
  sentUs := (payloadAt order socket family message).sentUs.toNat
  source := message.source
  sourceLen := message.sourceLen

theorem result_skipIpHeader (message : Message) : (skipIpHeader socket family message).result =
    if handsIpHeader socket family = true ∧
        (headerEnd socket family message < ipHeaderSize ∨ message.length < headerEnd socket family message) then none
    else some (headerEnd socket family message) := by
  unfold skipIpHeader headerEnd
  by_cases hhands : handsIpHeader socket family = true
  · simp only [hhands, if_true, true_and]
    by_cases hshort : message.length < ipHeaderSize
    · rw [if_pos hshort, if_pos (by omega)]
      rfl
    · rw [if_neg hshort]
      simp only [Reading.result_bind, Reading.result_fetch, Option.bind_some]
      simp only [List.range'_one, List.map_cons, List.map_nil, List.headD_cons]
      split_ifs <;> rfl
  · simp [hhands]

/-- A word of the payload, by the bytes at its place. -/
theorem ofNat_load_eq_iff_holds (buffer : ℕ → UInt8) (start k : ℕ) (hk : k + 4 ≤ payloadSize) (n : UInt32) :
    UInt32.ofNat (order.load ((((List.range' start payloadSize).map buffer).drop k).take 4)) = n ↔
      Holds buffer (start + k) (order.store 4 n.toNat) := by
  have hbytes : (((List.range' start payloadSize).map buffer).drop k).take 4 =
      (List.range' (start + k) 4).map buffer := by
    rw [← List.map_drop, ← List.map_take, List.drop_range', List.take_range'_of_length_ge (by omega), Nat.mul_one]
  rw [hbytes, order.ofNat_load_eq_iff (by simp), Holds, ByteOrder.length_store]

theorem magic_eq_iff (message : Message) : (payloadAt order socket family message).magic = kMagic ↔
    Holds message.buffer (headerEnd socket family message + headerSize) (order.store 4 kMagic.toNat) :=
  ofNat_load_eq_iff_holds message.buffer _ 0 (by decide) kMagic

theorem cookie_eq_iff (message : Message) (cookie : UInt32) :
    (payloadAt order socket family message).cookie = cookie ↔
      Holds message.buffer (headerEnd socket family message + headerSize + 4) (order.store 4 cookie.toNat) :=
  ofNat_load_eq_iff_holds message.buffer _ 4 (by decide) cookie

/-- What the checks of the ICMP part come to, from where it begins. -/
theorem result_receiveMessage (cookie : UInt32) (message : Message) :
    (receiveMessage order socket family cookie message).result =
      (skipIpHeader socket family message).result.bind fun start =>
        if message.length - start < kPacketSize then none
        else if message.buffer start ≠ expectedType family ∨ message.buffer (start + 1) ≠ 0 then none
        else
          let payload := Payload.ofBytes order ((List.range' (start + headerSize) payloadSize).map message.buffer)
          if payload.magic ≠ kMagic ∨ payload.cookie ≠ cookie then none
          else some ⟨payload.cookie.toNat, payload.uid.toNat, payload.seq.toNat, payload.sentUs.toNat,
            message.source, message.sourceLen⟩ := by
  have htype : ∀ start, (IcmpHeader.ofBytes order ((List.range' start headerSize).map message.buffer)).type =
      message.buffer start := fun _ => rfl
  have hcode : ∀ start, (IcmpHeader.ofBytes order ((List.range' start headerSize).map message.buffer)).code =
      message.buffer (start + 1) := fun _ => rfl
  simp only [receiveMessage, Reading.result_bind, Reading.result_ite, Reading.result_fetch, Reading.result_giveUp,
    Reading.result_pure, Option.bind_some, htype, hcode]

/-- Exactly our messages are accepted, each as the reply that it is. -/
theorem result_receiveMessage_iff (cookie : UInt32) (message : Message) (reply : Datagram) :
    (receiveMessage order socket family cookie message).result = some reply ↔
      Ours order socket family cookie message ∧ replyAt order socket family message = reply := by
  rw [result_receiveMessage, result_skipIpHeader]
  by_cases hfront : handsIpHeader socket family = true ∧
      (headerEnd socket family message < ipHeaderSize ∨ message.length < headerEnd socket family message)
  · rw [if_pos hfront]
    constructor
    · nofun
    · rintro ⟨hours, -⟩
      have hip := hours.ipHeader hfront.1
      have hsize := hours.size
      omega
  · rw [if_neg hfront, Option.bind_some]
    simp only [not_and, not_or, not_lt] at hfront
    constructor
    · intro h
      dsimp only at h
      split_ifs at h with hsize hheader hpayload
      simp only [not_or, not_not, not_lt] at hsize hheader hpayload
      refine ⟨⟨fun hhands => (hfront hhands).1, ?_, hheader.1, hheader.2, (magic_eq_iff message).mp hpayload.1,
        (cookie_eq_iff message cookie).mp hpayload.2⟩, Option.some.inj h⟩
      unfold kPacketSize headerSize payloadSize at hsize ⊢
      omega
    · rintro ⟨hours, rfl⟩
      have hmagic := (magic_eq_iff message).mpr hours.magic
      have hcookie := (cookie_eq_iff message cookie).mpr hours.cookie
      have hsize : ¬ message.length - headerEnd socket family message < kPacketSize := by
        have hours := hours.size
        omega
      rw [if_neg hsize, if_neg (by simp [hours.type, hours.code])]
      unfold payloadAt at hmagic hcookie
      dsimp only
      rw [if_neg (by simp [hmagic, hcookie])]
      rfl

/-- The code and everything from the sequence number on stand in a packet with a checksum as in
one without. -/
theorem packet_parts (order : ByteOrder) (socket : IcmpSocket) (family : Family) (uid seq : UInt32) (sentUs : UInt64)
    (cookie : UInt32) :
    (packet order socket family uid seq sentUs cookie).getD 1 0 = 0 ∧
      (packet order socket family uid seq sentUs cookie).drop 6 = order.store 2 (htons order seq.toUInt16).toNat ++
        (⟨kMagic, cookie, uid, seq, sentUs⟩ : Payload).bytes order := by
  unfold packet IcmpHeader.bytes
  dsimp only
  split_ifs <;> simp [List.drop_append, List.drop_eq_nil_of_le]

/-- An echo reply from its type on. -/
theorem exists_echoed (order : ByteOrder) (socket : IcmpSocket) (family : Family) (uid seq : UInt32) (sentUs : UInt64)
    (cookie : UInt32) (checksum identifier : UInt16) :
    ∃ between : Bytes, between.length = 6 ∧
      echoed order family checksum identifier (packet order socket family uid seq sentUs cookie) =
        expectedType family :: 0 :: (between ++ (⟨kMagic, cookie, uid, seq, sentUs⟩ : Payload).bytes order) := by
  obtain ⟨hcode, hrest⟩ := packet_parts order socket family uid seq sentUs cookie
  refine ⟨order.store 2 checksum.toNat ++ order.store 2 identifier.toNat ++
    order.store 2 (htons order seq.toUInt16).toNat, by simp, ?_⟩
  rw [echoed, hcode, hrest]
  simp

theorem length_echoed (uid seq : UInt32) (sentUs : UInt64) (cookie : UInt32) (checksum identifier : UInt16) :
    (echoed order family checksum identifier (packet order socket family uid seq sentUs cookie)).length =
      kPacketSize := by
  obtain ⟨between, hbetween, hechoed⟩ := exists_echoed order socket family uid seq sentUs cookie checksum identifier
  rw [hechoed]
  simp [hbetween, Payload.length_bytes, kPacketSize, headerSize]
  omega

/-- The header length that an IP header gives is where it ends. -/
theorem headerEnd_of_isFront {front rest : Bytes} {message : Message} (hfront : IsFront socket family front)
    (hholds : Holds message.buffer 0 (front ++ rest)) : headerEnd socket family message = front.length ∧
      (handsIpHeader socket family = true → ipHeaderSize ≤ front.length) := by
  unfold IsFront at hfront
  unfold headerEnd
  by_cases hhands : handsIpHeader socket family = true
  · rw [if_pos hhands] at hfront ⊢
    obtain ⟨hleast, hlength⟩ := hfront
    refine ⟨?_, fun _ => hleast⟩
    cases front with
    | nil => simp [ipHeaderSize] at hleast
    | cons first front =>
      have hfirst := (holds_cons_iff.mp hholds).1
      rw [hfirst, hlength, List.headD_cons]
  · rw [if_neg hhands] at hfront ⊢
    exact ⟨by rw [hfront]; rfl, fun h => absurd h hhands⟩

/-- Nothing beyond the datagram is read. -/
theorem within_receiveMessage (cookie : UInt32) (message : Message) :
    (receiveMessage order socket family cookie message).Within message.length := by
  have hskip : (skipIpHeader socket family message).Within message.length := by
    unfold skipIpHeader
    refine .ite (fun _ => .ite (fun _ => Reading.within_giveUp) fun hlong => ?_) fun _ => Reading.within_pure 0
    unfold ipHeaderSize at hlong
    refine .bind (Reading.within_fetch (by omega) _) fun first _ => ?_
    exact .ite (fun _ => Reading.within_giveUp) fun _ => Reading.within_pure _
  refine .bind hskip fun start _ => .ite (fun _ => Reading.within_giveUp) fun hsize => ?_
  unfold kPacketSize headerSize payloadSize at hsize
  refine .bind (Reading.within_fetch (by unfold headerSize; omega) _) fun header _ => ?_
  refine .ite (fun _ => Reading.within_giveUp) fun _ => ?_
  refine .bind (Reading.within_fetch (by unfold headerSize payloadSize; omega) _) fun payload _ => ?_
  exact .ite (fun _ => Reading.within_giveUp) fun _ => Reading.within_pure _

/-- What our own echo replies give, behind any IP header, with any checksum and identifier, and
with anything behind them. -/
theorem receiveMessage_echoed {uid seq : UInt32} {sentUs : UInt64} {cookie : UInt32} {checksum identifier : UInt16}
    {front trailing : Bytes} {message : Message} (hfront : IsFront socket family front)
    (hlength : message.length = (front ++ echoed order family checksum identifier
      (packet order socket family uid seq sentUs cookie) ++ trailing).length)
    (hholds : Holds message.buffer 0 (front ++ echoed order family checksum identifier
      (packet order socket family uid seq sentUs cookie) ++ trailing)) :
    (receiveMessage order socket family cookie message).result =
      some ⟨cookie.toNat, uid.toNat, seq.toNat, sentUs.toNat, message.source, message.sourceLen⟩ := by
  obtain ⟨between, hbetween, hechoed⟩ := exists_echoed order socket family uid seq sentUs cookie checksum identifier
  rw [hechoed] at hlength hholds
  rw [List.append_assoc] at hholds
  obtain ⟨hend, hip⟩ := headerEnd_of_isFront hfront hholds
  rw [List.append_assoc] at hlength
  simp only [List.cons_append, List.append_assoc, holds_append_iff, holds_cons_iff, Nat.zero_add, hbetween] at hholds
  obtain ⟨-, htype, hcode, -, hpayload, -⟩ := hholds
  have hpayloadAt : payloadAt order socket family message = ⟨kMagic, cookie, uid, seq, sentUs⟩ := by
    rw [Holds, Payload.length_bytes] at hpayload
    rw [payloadAt, hend, headerSize, hpayload, Payload.ofBytes_bytes]
  have hours : Ours order socket family cookie message := by
    refine ⟨fun hhands => hend ▸ hip hhands, ?_, hend ▸ htype, hend ▸ hcode, ?_, ?_⟩
    · simp only [hend, hlength, List.cons_append, List.length_append, List.length_cons, hbetween, Payload.length_bytes,
        kPacketSize, headerSize]
      omega
    · exact (magic_eq_iff message).mp (by rw [hpayloadAt])
    · exact (cookie_eq_iff message cookie).mp (by rw [hpayloadAt])
  refine (result_receiveMessage_iff cookie message _).mpr ⟨hours, ?_⟩
  rw [replyAt, hpayloadAt]

/-- Every packet of ours comes back as it went out, from any host and on any kind of socket; and
of whatever comes in nothing beyond its end is read, and nothing that is not ours is accepted. -/
theorem echo_codec (order : ByteOrder) (socket : IcmpSocket) (family : Family) :
    (∀ (uid seq : UInt32) (sentUs : UInt64) (cookie : UInt32) (checksum identifier : UInt16) (front trailing : Bytes)
      (message : Message), IsFront socket family front →
      let datagram := front ++ echoed order family checksum identifier
        (packet order socket family uid seq sentUs cookie) ++ trailing
      datagram.length ≤ kMaxDatagram → message.length = datagram.length → Holds message.buffer 0 datagram →
      (receiveMessage order socket family cookie message).result =
        some ⟨cookie.toNat, uid.toNat, seq.toNat, sentUs.toNat, message.source, message.sourceLen⟩) ∧
    ∀ (cookie : UInt32) (message : Message),
      (receiveMessage order socket family cookie message).Within message.length ∧
      ((receiveMessage order socket family cookie message).result ≠ none ↔
        Ours order socket family cookie message) := by
  constructor
  · intro uid seq sentUs cookie checksum identifier front trailing message hfront datagram _ hlength hholds
    exact receiveMessage_echoed hfront hlength hholds
  · intro cookie message
    refine ⟨within_receiveMessage cookie message, ?_⟩
    rw [Option.ne_none_iff_exists']
    simp only [result_receiveMessage_iff, exists_and_left, exists_eq', and_true]

/-- A reply behind an IP header with one word of options, on a raw socket. -/
theorem echo_codec_options :
    let front : Bytes := 0x46 :: List.replicate 23 7
    let datagram := front ++ echoed .little .inet 0xBEEF 0xCAFE
      (packet .little ⟨true, true, []⟩ .inet 3 4000000000 5000000000 0x12345679) ++ [1, 2, 3]
    (receiveMessage .little ⟨true, true, []⟩ .inet 0x12345679
      ⟨fun i => datagram.getD i 0, datagram.length, ⟨.inet, [192, 0, 2, 1]⟩, 16⟩).result =
      some ⟨0x12345679, 3, 4000000000, 5000000000, ⟨.inet, [192, 0, 2, 1]⟩, 16⟩ := by
  intro front datagram
  have hlength : datagram.length ≤ kMaxDatagram := by
    have hechoed := @length_echoed .little ⟨true, true, []⟩ .inet
      3 4000000000 5000000000 0x12345679 0xBEEF 0xCAFE
    simp [datagram, front, hechoed, kPacketSize, headerSize, payloadSize, kMaxDatagram]
  exact (echo_codec .little ⟨true, true, []⟩ .inet).1 3 4000000000 5000000000 0x12345679 0xBEEF 0xCAFE front [1, 2, 3]
    ⟨fun i => datagram.getD i 0, datagram.length, ⟨.inet, [192, 0, 2, 1]⟩, 16⟩ (by decide) hlength rfl
    (holds_getD datagram)

end IcmpSocket
end NetworkHealth.Daemon
