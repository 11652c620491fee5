import Audible.BigEndian
import Audible.CInt

set_option autoImplicit false

/- Packets on a connection (`protocol.c`). `rio_writen` and `rio_readn` transfer all the bytes
there are, `malloc` succeeds, and a function is `none` where the code leaves a buffer. -/
namespace Audible.Protocol

/-- What the machine does with words: the conversions to and from network order, and the bytes of
a word in memory. -/
structure Host where
  htonl : CInt → CInt
  ntohl : CInt → CInt
  store : CInt → List Byte
  load : List Byte → CInt
  ntohl_htonl : ∀ x, ntohl (htonl x) = x
  htonl_ntohl : ∀ x, htonl (ntohl x) = x
  store_length : ∀ x, (store x).length = 4
  load_store : ∀ x, load (store x) = x

/-- The bytes of a word from the least significant one. -/
def littleBytes (x : CInt) : List Byte := (BigEndian.digits 4 x.toNat).reverse

/-- The word whose bytes are read in the other order. -/
def swap (x : CInt) : CInt := BitVec.ofNat 32 (BigEndian.value (littleBytes x))

theorem ofNat_value_digits (x : CInt) :
    BitVec.ofNat 32 (BigEndian.value (BigEndian.digits 4 x.toNat)) = x := by
  rw [BigEndian.value_digits, ← BitVec.toNat_inj, BitVec.toNat_ofNat]
  omega

theorem littleBytes_swap (x : CInt) : littleBytes (swap x) = BigEndian.digits 4 x.toNat := by
  have length : (littleBytes x).length = 4 := by simp [littleBytes]
  have bound := BigEndian.value_lt (littleBytes x)
  rw [length] at bound
  have value : (swap x).toNat = BigEndian.value (littleBytes x) := by
    rw [swap, BitVec.toNat_ofNat, Nat.mod_eq_of_lt]
    omega
  have digits := BigEndian.digits_value (littleBytes x)
  rw [length] at digits
  rw [littleBytes, value, digits, littleBytes, List.reverse_reverse]

theorem swap_swap (x : CInt) : swap (swap x) = x := by
  rw [swap, littleBytes_swap, ofNat_value_digits]

def littleEndian : Host where
  htonl := swap
  ntohl := swap
  store := littleBytes
  load bytes := BitVec.ofNat 32 (BigEndian.value bytes.reverse)
  ntohl_htonl := swap_swap
  htonl_ntohl := swap_swap
  store_length x := by simp [littleBytes]
  load_store x := by rw [littleBytes, List.reverse_reverse, ofNat_value_digits]

/-- `XACTO_PACKET`, with the byte of padding before `size`. -/
structure Packet where
  type : Byte
  status : Byte
  null : Byte
  padding : Byte
  size : CInt
  timestampSec : CInt
  timestampNsec : CInt
  deriving DecidableEq

/-- `sizeof(XACTO_PACKET)` -/
def packetSize : Nat := 16

def putPkt : Byte := 1

def getPkt : Byte := 2

def dataPkt : Byte := 3

def commitPkt : Byte := 4

def replyPkt : Byte := 5

variable (host : Host)

def Packet.bytes (pkt : Packet) : List Byte :=
  [pkt.type, pkt.status, pkt.null, pkt.padding] ++
    (host.store pkt.size ++ host.store pkt.timestampSec ++ host.store pkt.timestampNsec)

def readPacket (bytes : List Byte) : Packet where
  type := bytes.getD 0 0
  status := bytes.getD 1 0
  null := bytes.getD 2 0
  padding := bytes.getD 3 0
  size := host.load ((bytes.drop 4).take 4)
  timestampSec := host.load ((bytes.drop 8).take 4)
  timestampNsec := host.load ((bytes.drop 12).take 4)

def Packet.toNetwork (pkt : Packet) : Packet :=
  { pkt with
    size := host.htonl pkt.size
    timestampSec := host.htonl pkt.timestampSec
    timestampNsec := host.htonl pkt.timestampNsec }

def Packet.toHost (pkt : Packet) : Packet :=
  { pkt with
    size := host.ntohl pkt.size
    timestampSec := host.ntohl pkt.timestampSec
    timestampNsec := host.ntohl pkt.timestampNsec }

/-- The packet as the call leaves it, and the bytes it writes. `size` is an `int`. -/
def protoSendPacket (pkt : Packet) (data : Option (List Byte)) : Option (Packet × List Byte) :=
  let size := pkt.size.toInt
  let pkt := pkt.toNetwork host
  match data with
  | none => some (pkt, pkt.bytes host)
  | some data =>
      if 0 < size then
        if size.toNat ≤ data.length then some (pkt, pkt.bytes host ++ data.take size.toNat) else none
      else some (pkt, pkt.bytes host)

/-- What a call of `proto_recv_packet` returns: -1, or 0 with the packet and the payload, if one
has been stored. -/
inductive Received
  | failed
  | packet (pkt : Packet) (data : Option (List Byte))
  deriving DecidableEq

/-- The result and the bytes left to read; `wanted` says that `datap` is not NULL. The buffer for
the payload has `size + 1` bytes, in 32 bits. -/
def protoRecvPacket (wanted : Bool) (input : List Byte) : Option (Received × List Byte) :=
  if input.length < packetSize then some (.failed, [])
  else
    let pkt := (readPacket host (input.take packetSize)).toHost host
    let rest := input.drop packetSize
    if 0 < pkt.size.toNat ∧ wanted = true then
      if pkt.size + 1 = 0 then none
      else if rest.length < pkt.size.toNat then some (.failed, [])
      else some (.packet pkt (rest.take pkt.size.toNat), rest.drop pkt.size.toNat)
    else some (.packet pkt none, rest)

@[simp] theorem Packet.bytes_length (pkt : Packet) : (pkt.bytes host).length = packetSize := by
  simp [Packet.bytes, host.store_length, packetSize]

@[simp] theorem readPacket_bytes (pkt : Packet) : readPacket host (pkt.bytes host) = pkt := by
  have field : ∀ (x : CInt) (rest : List Byte), (host.store x ++ rest).take 4 = host.store x := by
    intro x rest
    rw [← host.store_length x, List.take_left]
  have past : ∀ (x : CInt) (rest : List Byte), (host.store x ++ rest).drop 4 = rest := by
    intro x rest
    rw [← host.store_length x, List.drop_left]
  have second : (pkt.bytes host).drop 8 =
      host.store pkt.timestampSec ++ host.store pkt.timestampNsec := by
    rw [show 8 = 4 + 4 by rfl, ← List.drop_drop]
    simp only [Packet.bytes, List.cons_append, List.nil_append, List.drop_succ_cons, List.drop_zero,
      List.append_assoc, past]
  have third : (pkt.bytes host).drop 12 = host.store pkt.timestampNsec := by
    rw [show 12 = 8 + 4 by rfl, ← List.drop_drop, second, past]
  have first : ((pkt.bytes host).drop 4).take 4 = host.store pkt.size := by
    simp only [Packet.bytes, List.cons_append, List.nil_append, List.drop_succ_cons, List.drop_zero,
      List.append_assoc, field]
  have whole : (host.store pkt.timestampNsec).take 4 = host.store pkt.timestampNsec := by
    simpa using field pkt.timestampNsec []
  cases pkt
  simp only [readPacket, first, second, third, field, whole, host.load_store]
  simp [Packet.bytes]

@[simp] theorem Packet.toHost_toNetwork (pkt : Packet) : (pkt.toNetwork host).toHost host = pkt := by
  simp [Packet.toNetwork, Packet.toHost, host.ntohl_htonl]

@[simp] theorem Packet.toNetwork_toHost (pkt : Packet) : (pkt.toHost host).toNetwork host = pkt := by
  simp [Packet.toNetwork, Packet.toHost, host.htonl_ntohl]

/-- A packet and as many bytes of payload as its header says. -/
structure Frame where
  packet : Packet
  payload : List Byte
  sized : packet.size.toNat = payload.length

def Frame.bytes (frame : Frame) : List Byte :=
  (frame.packet.toNetwork host).bytes host ++ frame.payload

def wire (frames : List Frame) : List Byte := frames.flatMap (Frame.bytes host)

@[simp] theorem wire_nil : wire host [] = [] := rfl

@[simp] theorem wire_cons (frame : Frame) (frames : List Frame) :
    wire host (frame :: frames) = frame.bytes host ++ wire host frames := rfl

@[simp] theorem wire_append (frames more : List Frame) :
    wire host (frames ++ more) = wire host frames ++ wire host more := List.flatMap_append

theorem Frame.bytes_length (frame : Frame) :
    (frame.bytes host).length = packetSize + frame.payload.length := by
  simp [Frame.bytes]

/-- The header of a packet at the start of the input. -/
theorem read_header (frame : Frame) (rest : List Byte) :
    (readPacket host ((frame.bytes host ++ rest).take packetSize)).toHost host = frame.packet := by
  have header := (frame.packet.toNetwork host).bytes_length host
  rw [Frame.bytes, List.append_assoc, ← header, List.take_left, readPacket_bytes,
    Packet.toHost_toNetwork]

theorem drop_header (frame : Frame) (rest : List Byte) :
    (frame.bytes host ++ rest).drop packetSize = frame.payload ++ rest := by
  have header := (frame.packet.toNetwork host).bytes_length host
  rw [Frame.bytes, List.append_assoc, ← header, List.drop_left]

/-- A payload that has not been asked for stays in the input. -/
theorem protoRecvPacket_unwanted (frame : Frame) (rest : List Byte) :
    protoRecvPacket host false (frame.bytes host ++ rest) =
      some (.packet frame.packet none, frame.payload ++ rest) := by
  have long : ¬ (frame.bytes host ++ rest).length < packetSize := by
    rw [List.length_append, Frame.bytes_length]
    omega
  rw [protoRecvPacket, if_neg long, read_header, drop_header]
  simp

/-- What a call that asks for the payload returns. -/
def Frame.received (frame : Frame) : Received :=
  .packet frame.packet (if frame.payload = [] then none else some frame.payload)

/-- A call that asks for the payload consumes the whole packet. -/
theorem protoRecvPacket_wanted (frame : Frame) (rest : List Byte)
    (fits : frame.packet.size + 1 ≠ 0) :
    protoRecvPacket host true (frame.bytes host ++ rest) = some (frame.received, rest) := by
  have long : ¬ (frame.bytes host ++ rest).length < packetSize := by
    rw [List.length_append, Frame.bytes_length]
    omega
  rw [protoRecvPacket, if_neg long, read_header, drop_header, Frame.received]
  dsimp only
  rw [frame.sized]
  by_cases empty : frame.payload = []
  · simp [empty]
  · have positive : 0 < frame.payload.length := List.length_pos_iff.mpr empty
    have enough : ¬ (frame.payload ++ rest).length < frame.payload.length := by
      rw [List.length_append]
      omega
    simp only [positive, and_self, if_true, if_neg fits, if_neg enough, if_neg empty,
      List.take_left, List.drop_left]

/-- The buffer for a payload of `2 ^ 32 - 1` bytes has none. -/
theorem protoRecvPacket_huge (frame : Frame) (rest : List Byte)
    (huge : frame.packet.size + 1 = 0) :
    protoRecvPacket host true (frame.bytes host ++ rest) = none := by
  have long : ¬ (frame.bytes host ++ rest).length < packetSize := by
    rw [List.length_append, Frame.bytes_length]
    omega
  have positive : 0 < frame.packet.size.toNat := by bv_omega
  rw [protoRecvPacket, if_neg long, read_header, drop_header]
  simp only [positive, and_self, if_true, if_pos huge]

/-- Too few bytes for a header are consumed, and the call fails. -/
theorem protoRecvPacket_short (wanted : Bool) (input : List Byte)
    (short : input.length < packetSize) :
    protoRecvPacket host wanted input = some (.failed, []) := by
  rw [protoRecvPacket, if_pos short]

/-- A packet to be sent: its size is the length of the data, which is no more than an `int`. -/
structure Message where
  packet : Packet
  data : Option (List Byte)
  sized : packet.size.toNat = (data.getD []).length
  small : (data.getD []).length < 2 ^ 31

def Message.frame (message : Message) : Frame where
  packet := message.packet
  payload := message.data.getD []
  sized := message.sized

theorem protoSendPacket_message (message : Message) :
    protoSendPacket host message.packet message.data =
      some (message.packet.toNetwork host, message.frame.bytes host) := by
  obtain ⟨packet, data, sized, small⟩ := message
  have value : packet.size.toInt = packet.size.toNat := BitVec.toInt_eq_toNat_of_lt (by omega)
  unfold protoSendPacket Frame.bytes Message.frame
  dsimp only
  rw [value, sized]
  cases data with
  | none => simp
  | some data =>
      simp only [Option.getD_some, Int.toNat_natCast, Nat.le_refl, if_true, List.take_length]
      split
      · rfl
      · rename_i empty
        have none : data = [] := List.eq_nil_of_length_eq_zero (by omega)
        rw [none, List.append_nil]

/-- Calls of `proto_send_packet`, one for each packet; none if one of them leaves its data. -/
def sendAll : List Message → Option (List Byte)
  | [] => some []
  | message :: messages => do
      let (_, sent) ← protoSendPacket host message.packet message.data
      let more ← sendAll messages
      return sent ++ more

/-- Calls of `proto_recv_packet` with a place for the payload, all of which return 0. -/
def receiveAll : Nat → List Byte → Option (List Received × List Byte)
  | 0, input => some ([], input)
  | count + 1, input => do
      let (received, input) ← protoRecvPacket host true input
      if received = .failed then none
      else
        let (more, input) ← receiveAll count input
        return (received :: more, input)

theorem sendAll_eq (messages : List Message) :
    sendAll host messages = some (wire host (messages.map Message.frame)) := by
  induction messages with
  | nil => rfl
  | cons message messages ih =>
      rw [sendAll, protoSendPacket_message, ih]
      rfl

theorem receiveAll_wire (messages : List Message) (rest : List Byte) :
    receiveAll host messages.length (wire host (messages.map Message.frame) ++ rest) =
      some (messages.map fun message => message.frame.received, rest) := by
  induction messages with
  | nil => rfl
  | cons message messages ih =>
      have small := message.small
      have sized := message.sized
      have fits : message.frame.packet.size + 1 ≠ 0 := by
        change message.packet.size + 1 ≠ 0
        bv_omega
      rw [List.map_cons, wire_cons, List.append_assoc, List.length_cons, receiveAll,
        protoRecvPacket_wanted host message.frame _ fits]
      have succeeded : message.frame.received ≠ .failed := by simp [Frame.received]
      simp [succeeded, ih]

/-- What is sent is received: as many calls as packets were sent return 0, with the headers and
the payloads as they were before sending, and consume exactly the bytes sent. -/
theorem receiveAll_sendAll (messages : List Message) (rest : List Byte) :
    ∃ sent, sendAll host messages = some sent ∧
      receiveAll host messages.length (sent ++ rest) =
        some (messages.map fun message => message.frame.received, rest) :=
  ⟨_, sendAll_eq host messages, receiveAll_wire host messages rest⟩

end Audible.Protocol
