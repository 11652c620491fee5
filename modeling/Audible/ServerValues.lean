import Audible.ServerProtocol
import Audible.StoreData
import Audible.TransactionData

set_option autoImplicit false

/- The server's replies (`server.c`), and what becomes of a value from the packet it comes in to
the packet it goes out in. -/
namespace Audible.Server

open Protocol Store Xacto

/-- What `clock_gettime` says, in the widths of the packet. -/
structure Timestamp where
  sec : CInt
  nsec : CInt

def statusByte : TransStatus → Byte
  | .pending => 0
  | .committed => 1
  | .aborted => 2

def packetCreate (type : Byte) (status : TransStatus) : Packet where
  type := type
  status := statusByte status
  null := 0
  padding := 0
  size := 0
  timestampSec := 0
  timestampNsec := 0

def setPktTime (time : Timestamp) (pkt : Packet) : Packet :=
  { pkt with timestampSec := time.sec, timestampNsec := time.nsec }

/-- The bytes of the blob's own copy: those of the string and its terminator. -/
def blobCopy (blob : Blob) : Option (List Byte) :=
  blob.content.map fun content => content ++ [0#8]

variable (host : Host)

/-- The bytes sent, or none if the reply reads past the blob's copy. The packet for the data is
the one of the reply as `proto_send_packet` has left it, with other fields. -/
def xactoReply (first second : Timestamp) (type : Byte) (status : TransStatus)
    (blob : Option Blob) : Option (List Byte) := do
  let response := setPktTime first (packetCreate replyPkt status)
  let (response, sent) ← protoSendPacket host response none
  if type = getPkt then
    let response := setPktTime second { response with type := dataPkt }
    match blob with
    | some blob =>
        let response := { response with size := BitVec.ofNat 32 blob.size }
        let (_, data) ← protoSendPacket host response (blobCopy blob)
        return sent ++ data
    | none =>
        let (_, data) ← protoSendPacket host { response with null := 1 } none
        return sent ++ data
  else return sent

theorem protoSendPacket_data (pkt : Packet) (data : List Byte) (small : pkt.size.toNat < 2 ^ 31)
    (enough : pkt.size.toNat ≤ data.length) :
    protoSendPacket host pkt (some data) =
      some (pkt.toNetwork host, (pkt.toNetwork host).bytes host ++ data.take pkt.size.toNat) := by
  have value : pkt.size.toInt = pkt.size.toNat := BitVec.toInt_eq_toNat_of_lt (by omega)
  unfold protoSendPacket
  dsimp only
  rw [value, Int.toNat_natCast, if_pos enough]
  split
  · rfl
  · rename_i empty
    rw [show pkt.size.toNat = 0 by omega, List.take_zero, List.append_nil]

/-- The header of the reply's data, with a size. -/
def dataHeader (first second : Timestamp) (status : TransStatus) (size : Nat) : Packet :=
  { setPktTime second { (setPktTime first (packetCreate replyPkt status)).toNetwork host with
      type := dataPkt } with size := BitVec.ofNat 32 size }

/-- The reply to a GET packet reads as many bytes of the blob's copy as the blob's size says. -/
theorem xactoReply_blob (first second : Timestamp) (status : TransStatus) (blob : Blob)
    (copy : List Byte) (copied : blobCopy blob = some copy) (small : blob.size < 2 ^ 31)
    (enough : blob.size ≤ copy.length) :
    xactoReply host first second getPkt status (some blob) =
      some (((setPktTime first (packetCreate replyPkt status)).toNetwork host).bytes host ++
        (((dataHeader host first second status blob.size).toNetwork host).bytes host ++
          copy.take blob.size)) := by
  have field : (BitVec.ofNat 32 blob.size).toNat = blob.size := by
    rw [BitVec.toNat_ofNat]
    omega
  have sent := protoSendPacket_data host (dataHeader host first second status blob.size) copy
    (by change (BitVec.ofNat 32 blob.size).toNat < _; omega)
    (by change (BitVec.ofNat 32 blob.size).toNat ≤ _; omega)
  change _ = some (_, _ ++ copy.take (BitVec.ofNat 32 blob.size).toNat) at sent
  rw [field] at sent
  rw [← copied] at sent
  have plain : ∀ pkt, protoSendPacket host pkt none =
      some (pkt.toNetwork host, (pkt.toNetwork host).bytes host) := fun _ => rfl
  simp only [xactoReply, plain, Option.bind_eq_bind, Option.bind_some, if_true]
  change (protoSendPacket host (dataHeader host first second status blob.size) _).bind _ = _
  rw [sent]
  rfl

/-- A packet with a value, as `xacto_put` reads it. -/
structure ValuePacket extends Frame where
  nonempty : payload ≠ []
  small : payload.length < 2 ^ 31

/-- The value in the packet is the content of the blob made from it, and of the packet that is
sent for this blob. -/
def BinarySafe (value : ValuePacket) : Prop :=
  ∃ pkt data blob,
    (∀ rest, protoRecvPacket host true (value.bytes host ++ rest) =
      some (.packet pkt (some data), rest)) ∧
    blobCreate (some data) pkt.size.toNat = some blob ∧
    blob.size = value.payload.length ∧
    (blobCopy blob).map (List.take blob.size) = some value.payload ∧
    ∀ first second status, ∃ header : Packet,
      header.type = dataPkt ∧ header.size.toNat = value.payload.length ∧
      xactoReply host first second getPkt status (some blob) =
        some (((setPktTime first (packetCreate replyPkt status)).toNetwork host).bytes host ++
          ((header.toNetwork host).bytes host ++ value.payload))

theorem ValuePacket.received (value : ValuePacket) (rest : List Byte) :
    protoRecvPacket host true (value.bytes host ++ rest) =
      some (.packet value.packet (some value.payload), rest) := by
  have small := value.small
  have sized := value.sized
  rw [protoRecvPacket_wanted host value.toFrame rest (by bv_omega), Frame.received,
    if_neg value.nonempty]

/-- The blob's copy of a value ends at its first zero byte; the terminator takes the place of
it. -/
theorem copy_take_iff (bytes : List Byte) :
    (strndup bytes bytes.length ++ [0#8]).take bytes.length = bytes ↔ 0#8 ∉ bytes.dropLast := by
  have cut : strndup bytes bytes.length = bytes.takeWhile (· ≠ 0#8) := by
    rw [strndup, List.take_length]
  rw [cut]
  induction bytes with
  | nil => simp
  | cons first rest ih =>
      by_cases zero : first = 0#8
      · subst zero
        cases rest with
        | nil => simp
        | cons second rest => simp
      · rw [List.takeWhile_cons_of_pos (by simpa using zero), List.cons_append, List.length_cons,
          List.take_succ_cons, List.cons.injEq]
        cases rest with
        | nil => simp
        | cons second rest =>
            have apart : 0#8 ≠ first := fun same => zero same.symm
            rw [List.dropLast_cons_cons, List.mem_cons, not_or]
            simp only [true_and, apart, ne_eq, not_false_eq_true]
            exact ih (by rw [strndup, List.take_length])

theorem BinarySafe.clean {value : ValuePacket} (safe : BinarySafe host value) :
    0#8 ∉ value.payload.dropLast := by
  obtain ⟨pkt, data, blob, received, created, -, content, -⟩ := safe
  have same := (received []).symm.trans (value.received host [])
  simp only [Option.some.injEq, Prod.mk.injEq, Received.packet.injEq, and_true] at same
  obtain ⟨rfl, rfl⟩ := same
  cases created
  rw [value.sized] at content
  exact (copy_take_iff value.payload).mp (Option.some.inj content)

theorem binarySafe_of_clean (value : ValuePacket) (clean : 0#8 ∉ value.payload.dropLast) :
    BinarySafe host value := by
  have sized := value.sized
  have small := value.small
  have content := (copy_take_iff value.payload).mpr clean
  have field : (BitVec.ofNat 32 value.payload.length).toNat = value.payload.length := by
    rw [BitVec.toNat_ofNat]
    omega
  have enough : value.payload.length ≤
      (strndup value.payload value.payload.length ++ [0#8]).length := by
    have lengths := congrArg List.length content
    rw [List.length_take] at lengths
    omega
  refine ⟨value.packet, value.payload, _, value.received host, rfl, sized, ?_, ?_⟩
  · simp only [blobCopy, Option.map_some, sized, content]
  · intro first second status
    have reply := xactoReply_blob host first second status
      { refcnt := 1, size := value.payload.length,
        content := some (strndup value.payload value.payload.length) } _ rfl small enough
    rw [content] at reply
    refine ⟨dataHeader host first second status value.payload.length, rfl, field, ?_⟩
    rw [← reply, sized]
    rfl

/-- A value goes through the server unchanged exactly if it has no zero byte before its last
byte. -/
theorem binarySafe_iff (value : ValuePacket) :
    BinarySafe host value ↔ 0#8 ∉ value.payload.dropLast :=
  ⟨BinarySafe.clean host, binarySafe_of_clean host value⟩

def zeroFirst : ValuePacket where
  packet := { packetCreate dataPkt .pending with size := 2 }
  payload := [0, 1]
  sized := rfl
  nonempty := by decide
  small := by decide

/-- The copy of such a value is the empty string. -/
theorem not_binarySafe : ¬ ∀ (host : Host) (value : ValuePacket), BinarySafe host value := by
  intro safe
  have clean := (safe littleEndian zeroFirst).clean
  revert clean
  decide

end Audible.Server
