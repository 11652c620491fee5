import Audible.ServerProtocol

set_option autoImplicit false

/- `proto_send_packet` and `proto_recv_packet` (`protocol.c`) over reads and writes that may end
early or fail (`rio_readn` and `rio_writen` of `csapp.c`). Counts are compared as C compares
them. -/
namespace Audible.Transfer

open Protocol

/-- `ssize_t` and `size_t` -/
abbrev Size := BitVec 64

-- csapp.c

/-- What `read` finds: bytes, of which it takes as many as it was asked for, none at the end of the
stream; or it returns -1, with EINTR or with another error. -/
inductive Read
  | bytes (available : List Byte)
  | failed (interrupted : Bool)

/-- What a call of `rio_readn` returns, has stored, and leaves to read. -/
structure Readn where
  count : Size
  bytes : List Byte
  rest : List Read

/-- The loop, with `nleft` bytes to go. The stream ends where there is nothing left to read. -/
def rioReadnFrom (n nleft : Nat) (bytes : List Byte) : List Read → Readn
  | [] => { count := BitVec.ofNat 64 (n - nleft), bytes := bytes, rest := [] }
  | read :: rest =>
      if nleft = 0 then
        { count := BitVec.ofNat 64 (n - nleft), bytes := bytes, rest := read :: rest }
      else
        match read with
        | .failed true => rioReadnFrom n nleft bytes rest
        | .failed false => { count := -1, bytes := bytes, rest := rest }
        | .bytes available =>
            if available = [] then
              { count := BitVec.ofNat 64 (n - nleft), bytes := bytes, rest := rest }
            else if nleft < available.length then
              { count := BitVec.ofNat 64 n
                bytes := bytes ++ available.take nleft
                rest := .bytes (available.drop nleft) :: rest }
            else rioReadnFrom n (nleft - available.length) (bytes ++ available) rest

def rioReadn (n : Nat) (reads : List Read) : Readn := rioReadnFrom n n [] reads

/-- What `write` does: it writes one byte and at most `more`; or it returns no positive count, with
EINTR or with another error. -/
inductive Write
  | wrote (more : Nat)
  | failed (interrupted : Bool)

structure Writen where
  count : Size
  written : Nat
  rest : List Write

/-- The loop, with `nleft` bytes to go. When the list is over, `write` writes all it is given. -/
def rioWritenFrom (n nleft : Nat) : List Write → Writen
  | [] => { count := BitVec.ofNat 64 n, written := n, rest := [] }
  | write :: rest =>
      if nleft = 0 then { count := BitVec.ofNat 64 n, written := n, rest := write :: rest }
      else
        match write with
        | .failed true => rioWritenFrom n nleft rest
        | .failed false => { count := -1, written := n - nleft, rest := rest }
        | .wrote more => rioWritenFrom n (nleft - (more + 1)) rest

def rioWriten (n : Nat) (writes : List Write) : Writen := rioWritenFrom n n writes

theorem rioReadnFrom_spec (n nleft : Nat) (bytes : List Byte) (reads : List Read)
    (sofar : bytes.length + nleft = n) :
    let readn := rioReadnFrom n nleft bytes reads
    readn.count = -1 ∧ readn.bytes.length < n ∨
      readn.count = BitVec.ofNat 64 readn.bytes.length ∧ readn.bytes.length ≤ n := by
  fun_induction rioReadnFrom n nleft bytes reads with
  | case1 nleft bytes =>
      right
      dsimp only
      exact ⟨by congr 1; omega, by omega⟩
  | case2 bytes read rest =>
      right
      dsimp only
      exact ⟨by congr 1; omega, by omega⟩
  | case3 nleft bytes rest more ih => exact ih sofar
  | case4 nleft bytes rest more =>
      left
      exact ⟨rfl, by dsimp only; omega⟩
  | case5 nleft bytes rest more =>
      right
      dsimp only
      exact ⟨by congr 1; omega, by omega⟩
  | case6 nleft bytes rest more available nonempty fewer =>
      have whole : (bytes ++ available.take nleft).length = n := by
        rw [List.length_append, List.length_take]
        omega
      right
      dsimp only
      rw [whole]
      exact ⟨rfl, Nat.le_refl n⟩
  | case7 nleft bytes rest more available nonempty fewer ih =>
      apply ih
      rw [List.length_append]
      omega

/-- The count is -1, for fewer bytes than were asked for, or the number of the bytes. -/
theorem rioReadn_spec (n : Nat) (reads : List Read) :
    (rioReadn n reads).count = -1 ∧ (rioReadn n reads).bytes.length < n ∨
      (rioReadn n reads).count = BitVec.ofNat 64 (rioReadn n reads).bytes.length ∧
        (rioReadn n reads).bytes.length ≤ n :=
  rioReadnFrom_spec n n [] reads (by simp)

theorem rioWritenFrom_spec (n nleft : Nat) (writes : List Write) (sofar : nleft ≤ n) :
    let writen := rioWritenFrom n nleft writes
    writen.count = -1 ∧ writen.written < n ∨
      writen.count = BitVec.ofNat 64 n ∧ writen.written = n := by
  fun_induction rioWritenFrom n nleft writes with
  | case1 nleft => exact .inr ⟨rfl, rfl⟩
  | case2 write rest => exact .inr ⟨rfl, rfl⟩
  | case3 nleft rest more ih => exact ih sofar
  | case4 nleft rest more => exact .inl ⟨rfl, by dsimp only; omega⟩
  | case5 nleft rest more count ih => exact ih (by omega)

/-- All bytes are written, or the count is -1. -/
theorem rioWriten_spec (n : Nat) (writes : List Write) :
    (rioWriten n writes).count = -1 ∧ (rioWriten n writes).written < n ∨
      (rioWriten n writes).count = BitVec.ofNat 64 n ∧ (rioWriten n writes).written = n :=
  rioWritenFrom_spec n n writes (Nat.le_refl n)

-- protocol.c

variable (host : Host)

/-- What a call of `proto_recv_packet` leaves: the packet, the bytes of the header that were read,
and the bytes in the buffer for the payload, if `*datap` has been set. -/
structure Reception where
  result : CInt
  pkt : Packet
  header : List Byte
  data : Option (List Byte)
  rest : List Read

/-- The structure after bytes have been read into it. -/
def overwrite (pkt : Packet) (bytes : List Byte) : Packet :=
  readPacket host (bytes ++ (pkt.bytes host).drop bytes.length)

/-- The count of the header is stored in an `int` and compared as a `size_t`, that of the payload,
a `ssize_t`, is compared with a `uint32_t` as a `long`. `wanted` says that `datap` is not NULL. -/
def protoRecvPacket (wanted : Bool) (pkt : Packet) (reads : List Read) : Reception :=
  let header := rioReadn packetSize reads
  let pkt := overwrite host pkt header.bytes
  let read : CInt := header.count.setWidth 32
  if (read.signExtend 64).ult (BitVec.ofNat 64 packetSize) then
    { result := -1, pkt := pkt, header := header.bytes, data := none, rest := header.rest }
  else
    let pkt := pkt.toHost host
    if 0 < pkt.size.toNat ∧ wanted = true then
      let data := rioReadn pkt.size.toNat header.rest
      { result := if data.count.slt (pkt.size.setWidth 64) then -1 else 0
        pkt := pkt
        header := header.bytes
        data := some data.bytes
        rest := data.rest }
    else { result := 0, pkt := pkt, header := header.bytes, data := none, rest := header.rest }

/-- What a call of `proto_send_packet` leaves, with the bytes written of the header and of the
payload. -/
structure Sending where
  result : CInt
  pkt : Packet
  header : Nat
  payload : Nat
  rest : List Write

/-- `size` is an `int`. The count of the header, a `ssize_t`, is compared as a `size_t`, that of the
payload with an `int`, as a `long`. `data` says that the pointer is not NULL. -/
def protoSendPacket (pkt : Packet) (data : Bool) (writes : List Write) : Sending :=
  let size : CInt := pkt.size
  let pkt := pkt.toNetwork host
  let header := rioWriten packetSize writes
  if header.count.ult (BitVec.ofNat 64 packetSize) then
    { result := -1, pkt := pkt, header := header.written, payload := 0, rest := header.rest }
  else if 0 < size.toInt ∧ data = true then
    let payload := rioWriten size.toNat header.rest
    { result := if payload.count.slt (size.signExtend 64) then -1 else 0
      pkt := pkt
      header := header.written
      payload := payload.written
      rest := payload.rest }
  else { result := 0, pkt := pkt, header := header.written, payload := 0, rest := header.rest }

/-- The test of `xacto_client_service`: without a packet, the client is left. -/
def serves (pkt : Packet) (reads : List Read) : Bool :=
  !(protoRecvPacket host false pkt reads).result.slt 0

/-- As a `size_t`, -1 is not less than anything. -/
theorem header_check {n : Nat} (whole : n ≤ packetSize) :
    (((BitVec.ofNat 64 n).setWidth 32).signExtend 64).ult (BitVec.ofNat 64 packetSize) =
      decide (n < packetSize) := by
  have all : ∀ n < 17, (((BitVec.ofNat 64 n).setWidth 32).signExtend 64).ult
      (BitVec.ofNat 64 packetSize) = decide (n < packetSize) := by decide
  exact all n (Nat.lt_succ_of_le whole)

theorem header_check_failed :
    (((-1 : Size).setWidth 32).signExtend 64).ult (BitVec.ofNat 64 packetSize) = false := by decide

/-- A count and a size that are no more than 32 bits are compared as numbers. -/
theorem payload_check {n : Nat} {size : CInt} (bound : n ≤ size.toNat) :
    (BitVec.ofNat 64 n).slt (size.setWidth 64) = decide (n < size.toNat) := by
  have small := size.isLt
  rw [BitVec.slt_eq_decide, BitVec.toInt_eq_toNat_of_lt, BitVec.toInt_eq_toNat_of_lt]
  · simp only [BitVec.toNat_ofNat, BitVec.toNat_setWidth]
    congr 1
    apply propext
    omega
  · simp only [BitVec.toNat_setWidth]
    omega
  · simp only [BitVec.toNat_ofNat]
    omega

theorem payload_check_failed {size : CInt} (positive : 0 < size.toNat) :
    (-1 : Size).slt (size.setWidth 64) = true := by
  have small := size.isLt
  have negative : (-1 : Size).toInt = -1 := by decide
  rw [BitVec.slt_eq_decide, decide_eq_true_eq, negative,
    BitVec.toInt_eq_toNat_of_lt (x := size.setWidth 64)]
  · simp only [BitVec.toNat_setWidth]
    omega
  · simp only [BitVec.toNat_setWidth]
    omega

theorem payload_int {size : CInt} (positive : 0 < size.toInt) :
    size.signExtend 64 = size.setWidth 64 ∧ 0 < size.toNat := by
  have sign := BitVec.toInt_eq_msb_cond size
  cases msb : size.msb with
  | true =>
      rw [msb] at sign
      have small := size.isLt
      simp only [if_true] at sign
      omega
  | false =>
      rw [msb] at sign
      simp only [Bool.false_eq_true, if_false] at sign
      exact ⟨BitVec.signExtend_eq_setWidth_of_msb_false msb, by omega⟩

variable {host}

def HeaderFails (reads : List Read) : Prop := (rioReadn packetSize reads).count = -1

theorem not_headerFails {reads : List Read} {n : Nat}
    (count : (rioReadn packetSize reads).count = BitVec.ofNat 64 n) (bound : n ≤ packetSize) :
    ¬ HeaderFails reads := by
  intro failed
  rw [HeaderFails, count] at failed
  have small : ∀ n < 17, BitVec.ofNat 64 n ≠ (-1 : Size) := by decide
  exact small n (Nat.lt_succ_of_le bound) failed

/-- The packet that the code goes on with, whatever has been read of it. -/
def headerPacket (host : Host) (pkt : Packet) (reads : List Read) : Packet :=
  (overwrite host pkt (rioReadn packetSize reads).bytes).toHost host

def payloadRead (host : Host) (pkt : Packet) (reads : List Read) : Readn :=
  rioReadn (headerPacket host pkt reads).size.toNat (rioReadn packetSize reads).rest

/-- A payload is read, and less of it than the packet says. -/
def PayloadFails (host : Host) (wanted : Bool) (pkt : Packet) (reads : List Read) : Prop :=
  (0 < (headerPacket host pkt reads).size.toNat ∧ wanted = true) ∧
    (payloadRead host pkt reads).bytes.length < (headerPacket host pkt reads).size.toNat

/-- The whole header has been received, and the whole payload if it is wanted. -/
def Reception.Whole (wanted : Bool) (r : Reception) : Prop :=
  r.header.length = packetSize ∧
    (0 < r.pkt.size.toNat → wanted = true →
      ∃ data, r.data = some data ∧ data.length = r.pkt.size.toNat)

/-- 0 for a whole packet, otherwise -1. -/
def Reception.Honest (wanted : Bool) (r : Reception) : Prop :=
  r.Whole wanted ∧ r.result = 0 ∨ ¬ r.Whole wanted ∧ r.result = -1

theorem protoRecvPacket_short {wanted : Bool} {pkt : Packet} {reads : List Read}
    (ok : ¬ HeaderFails reads) (short : (rioReadn packetSize reads).bytes.length < packetSize) :
    (protoRecvPacket host wanted pkt reads).result = -1 ∧
      (protoRecvPacket host wanted pkt reads).header = (rioReadn packetSize reads).bytes := by
  obtain ⟨count, whole⟩ := (rioReadn_spec packetSize reads).resolve_left fun failed => ok failed.1
  unfold protoRecvPacket
  simp only [count, header_check whole, short, decide_true, if_true]
  exact ⟨trivial, trivial⟩

/-- Past the check of the header, which an error passes. -/
theorem protoRecvPacket_long {wanted : Bool} {pkt : Packet} {reads : List Read}
    (passes : HeaderFails reads ∨ ¬ (rioReadn packetSize reads).bytes.length < packetSize) :
    protoRecvPacket host wanted pkt reads =
      if 0 < (headerPacket host pkt reads).size.toNat ∧ wanted = true then
        { result := if (payloadRead host pkt reads).count.slt
            ((headerPacket host pkt reads).size.setWidth 64) then -1 else 0
          pkt := headerPacket host pkt reads
          header := (rioReadn packetSize reads).bytes
          data := some (payloadRead host pkt reads).bytes
          rest := (payloadRead host pkt reads).rest }
      else
        { result := 0
          pkt := headerPacket host pkt reads
          header := (rioReadn packetSize reads).bytes
          data := none
          rest := (rioReadn packetSize reads).rest } := by
  have check : ((((rioReadn packetSize reads).count).setWidth 32).signExtend 64).ult
      (BitVec.ofNat 64 packetSize) = false := by
    rcases passes with failed | long
    · rw [failed]
      exact header_check_failed
    · rcases rioReadn_spec packetSize reads with ⟨failed, -⟩ | ⟨count, whole⟩
      · rw [failed]
        exact header_check_failed
      · rw [count, header_check whole, decide_eq_false long]
  unfold protoRecvPacket
  simp only [check, Bool.false_eq_true, if_false]
  rfl

theorem payloadRead_bound (pkt : Packet) (reads : List Read) :
    (payloadRead host pkt reads).bytes.length ≤ (headerPacket host pkt reads).size.toNat := by
  rcases rioReadn_spec (headerPacket host pkt reads).size.toNat (rioReadn packetSize reads).rest with
    ⟨-, short⟩ | ⟨-, whole⟩
  · exact short.le
  · exact whole

theorem payloadRead_check {pkt : Packet} {reads : List Read}
    (positive : 0 < (headerPacket host pkt reads).size.toNat) :
    (payloadRead host pkt reads).count.slt ((headerPacket host pkt reads).size.setWidth 64) =
      decide ((payloadRead host pkt reads).bytes.length <
        (headerPacket host pkt reads).size.toNat) := by
  rcases rioReadn_spec (headerPacket host pkt reads).size.toNat (rioReadn packetSize reads).rest with
    ⟨failed, short⟩ | ⟨count, whole⟩
  · rw [payloadRead, failed, payload_check_failed positive]
    exact (decide_eq_true short).symm
  · rw [payloadRead, count]
    exact payload_check whole

/-- Past the check of the header: -1 exactly if the payload fails. -/
theorem protoRecvPacket_result {wanted : Bool} {pkt : Packet} {reads : List Read}
    (passes : HeaderFails reads ∨ ¬ (rioReadn packetSize reads).bytes.length < packetSize) :
    (PayloadFails host wanted pkt reads → (protoRecvPacket host wanted pkt reads).result = -1) ∧
      (¬ PayloadFails host wanted pkt reads →
        (protoRecvPacket host wanted pkt reads).result = 0) := by
  rw [protoRecvPacket_long passes]
  unfold PayloadFails
  split
  · rename_i reading
    have check := payloadRead_check reading.1
    constructor
    · intro fails
      exact if_pos (check.trans (decide_eq_true fails.2))
    · intro fits
      apply if_neg
      rw [check, decide_eq_true_eq]
      exact fun less => fits ⟨reading, less⟩
  · rename_i unread
    exact ⟨fun fails => absurd fails.1 unread, fun _ => rfl⟩

theorem protoRecvPacket_header {wanted : Bool} {pkt : Packet} {reads : List Read} :
    (protoRecvPacket host wanted pkt reads).header = (rioReadn packetSize reads).bytes := by
  unfold protoRecvPacket
  dsimp only
  split
  · rfl
  · split <;> rfl

/-- A header without an error, and a payload that does not fail, are a whole packet. -/
theorem whole_iff {wanted : Bool} {pkt : Packet} {reads : List Read}
    (long : (rioReadn packetSize reads).bytes.length = packetSize) :
    (protoRecvPacket host wanted pkt reads).Whole wanted ↔
      ¬ PayloadFails host wanted pkt reads := by
  have bound := @payloadRead_bound host pkt reads
  unfold Reception.Whole PayloadFails
  rw [protoRecvPacket_header, protoRecvPacket_long (.inr (by omega)), and_iff_right long]
  split
  · rename_i reading
    rw [not_and]
    constructor
    · intro whole _
      obtain ⟨data, same, sized⟩ := whole reading.1 reading.2
      cases same
      exact Nat.not_lt.mpr sized.ge
    · intro fits _ _
      exact ⟨_, rfl, le_antisymm bound (Nat.le_of_not_lt (fits reading))⟩
  · rename_i unread
    constructor
    · exact fun _ fails => unread fails.1
    · exact fun _ positive wanted => absurd ⟨positive, wanted⟩ unread

/-- The result for every outcome of the reads. -/
theorem recv_honest_iff (wanted : Bool) (pkt : Packet) (reads : List Read) :
    (protoRecvPacket host wanted pkt reads).Honest wanted ↔
      (HeaderFails reads → PayloadFails host wanted pkt reads) := by
  unfold Reception.Honest
  rcases rioReadn_spec packetSize reads with ⟨failed, short⟩ | ⟨count, bound⟩
  · -- the header has not been received, so the result has to be -1
    have missing : ¬ (protoRecvPacket host wanted pkt reads).Whole wanted := by
      intro whole
      have length := whole.1
      rw [protoRecvPacket_header] at length
      omega
    obtain ⟨fails, passes⟩ := @protoRecvPacket_result host wanted pkt reads (.inl failed)
    constructor
    · intro honest _
      by_contra fits
      rcases honest with ⟨whole, -⟩ | ⟨-, result⟩
      · exact missing whole
      · rw [passes fits] at result
        cases result
    · intro noticed
      exact .inr ⟨missing, fails (noticed failed)⟩
  · have ok := not_headerFails count bound
    refine iff_of_true ?_ fun failed => absurd failed ok
    by_cases short : (rioReadn packetSize reads).bytes.length < packetSize
    · right
      refine ⟨fun whole => ?_, (protoRecvPacket_short ok short).1⟩
      have length := whole.1
      rw [protoRecvPacket_header] at length
      omega
    · have long : (rioReadn packetSize reads).bytes.length = packetSize := by omega
      obtain ⟨fails, passes⟩ := @protoRecvPacket_result host wanted pkt reads (.inr short)
      rw [whole_iff long, not_not]
      by_cases payload : PayloadFails host wanted pkt reads
      · exact .inr ⟨payload, fails payload⟩
      · exact .inl ⟨payload, passes payload⟩

def WriteFails (writes : List Write) : Prop := (rioWriten packetSize writes).count = -1

def PayloadWriteFails (pkt : Packet) (data : Bool) (writes : List Write) : Prop :=
  (0 < pkt.size.toInt ∧ data = true) ∧
    (rioWriten pkt.size.toNat (rioWriten packetSize writes).rest).count = -1

/-- The whole header has been written, and the whole payload if there is one. -/
def Sending.Whole (size : CInt) (data : Bool) (s : Sending) : Prop :=
  s.header = packetSize ∧ (data = true → s.payload = size.toNat)

def Sending.Honest (size : CInt) (data : Bool) (s : Sending) : Prop :=
  s.Whole size data ∧ s.result = 0 ∨ ¬ s.Whole size data ∧ s.result = -1

/-- The payload is written as far as an `int` goes. -/
def Representable (pkt : Packet) (data : Bool) : Prop := data = true → pkt.size.toNat < 2 ^ 31

theorem toInt_pos_iff (size : CInt) : 0 < size.toInt ↔ 0 < size.toNat ∧ size.toNat < 2 ^ 31 := by
  rw [BitVec.toInt_eq_toNat_cond]
  have small := size.isLt
  split <;> omega

/-- The check of the header never fails: a write is whole, or its count is -1. -/
theorem protoSendPacket_eq (pkt : Packet) (data : Bool) (writes : List Write) :
    protoSendPacket host pkt data writes =
      if 0 < pkt.size.toInt ∧ data = true then
        { result := if (rioWriten pkt.size.toNat (rioWriten packetSize writes).rest).count.slt
            (pkt.size.signExtend 64) then -1 else 0
          pkt := pkt.toNetwork host
          header := (rioWriten packetSize writes).written
          payload := (rioWriten pkt.size.toNat (rioWriten packetSize writes).rest).written
          rest := (rioWriten pkt.size.toNat (rioWriten packetSize writes).rest).rest }
      else
        { result := 0
          pkt := pkt.toNetwork host
          header := (rioWriten packetSize writes).written
          payload := 0
          rest := (rioWriten packetSize writes).rest } := by
  have check : (rioWriten packetSize writes).count.ult (BitVec.ofNat 64 packetSize) = false := by
    rcases rioWriten_spec packetSize writes with ⟨failed, -⟩ | ⟨count, -⟩
    · rw [failed]
      decide
    · rw [count]
      decide
  unfold protoSendPacket
  simp only [check, Bool.false_eq_true, if_false]

theorem writeFails_iff (writes : List Write) :
    WriteFails writes ↔ (rioWriten packetSize writes).written ≠ packetSize := by
  rcases rioWriten_spec packetSize writes with ⟨failed, short⟩ | ⟨count, whole⟩
  · exact iff_of_true failed short.ne
  · rw [WriteFails, count]
    exact iff_of_false (by decide) (not_not.mpr whole)

/-- The second write, of a positive `int` of bytes. -/
theorem payloadWrite_cases {size : CInt} (positive : 0 < size.toInt) (writes : List Write) :
    ((rioWriten size.toNat writes).count = -1 ∧ (rioWriten size.toNat writes).written ≠ size.toNat ∧
      (rioWriten size.toNat writes).count.slt (size.signExtend 64) = true) ∨
    ((rioWriten size.toNat writes).count ≠ -1 ∧ (rioWriten size.toNat writes).written = size.toNat ∧
      (rioWriten size.toNat writes).count.slt (size.signExtend 64) = false) := by
  obtain ⟨extended, nonzero⟩ := payload_int positive
  rw [extended]
  rcases rioWriten_spec size.toNat writes with ⟨failed, short⟩ | ⟨count, whole⟩
  · left
    rw [failed]
    exact ⟨rfl, short.ne, payload_check_failed nonzero⟩
  · right
    have fits : (BitVec.ofNat 64 size.toNat).slt (size.setWidth 64) = false :=
      (payload_check (Nat.le_refl _)).trans (decide_eq_false (Nat.lt_irrefl _))
    rw [count]
    refine ⟨fun minus => ?_, whole, fits⟩
    rw [minus, payload_check_failed nonzero] at fits
    cases fits

/-- -1 exactly if the write of the payload fails. -/
theorem protoSendPacket_result (pkt : Packet) (data : Bool) (writes : List Write) :
    (PayloadWriteFails pkt data writes → (protoSendPacket host pkt data writes).result = -1) ∧
      (¬ PayloadWriteFails pkt data writes →
        (protoSendPacket host pkt data writes).result = 0) := by
  rw [protoSendPacket_eq]
  unfold PayloadWriteFails
  split
  · rename_i writing
    rcases payloadWrite_cases writing.1 (rioWriten packetSize writes).rest with
      ⟨failed, -, check⟩ | ⟨ok, -, check⟩
    · exact ⟨fun _ => if_pos check, fun fits => absurd ⟨writing, failed⟩ fits⟩
    · exact ⟨fun fails => absurd fails.2 ok, fun _ => if_neg (by simp [check])⟩
  · rename_i unwritten
    exact ⟨fun fails => absurd fails.1 unwritten, fun _ => rfl⟩

theorem send_whole_iff (pkt : Packet) (data : Bool) (writes : List Write) :
    (protoSendPacket host pkt data writes).Whole pkt.size data ↔
      ¬ WriteFails writes ∧ Representable pkt data ∧ ¬ PayloadWriteFails pkt data writes := by
  unfold Sending.Whole PayloadWriteFails Representable
  rw [protoSendPacket_eq, writeFails_iff, not_not]
  split
  · rename_i writing
    apply and_congr_right
    intro _
    have small := ((toInt_pos_iff pkt.size).mp writing.1).2
    rcases payloadWrite_cases writing.1 (rioWriten packetSize writes).rest with
      ⟨failed, short, -⟩ | ⟨ok, whole, -⟩
    · exact iff_of_false (fun all => short (all writing.2)) fun fits => fits.2 ⟨writing, failed⟩
    · exact iff_of_true (fun _ => whole) ⟨fun _ => small, fun fails => ok fails.2⟩
  · rename_i unwritten
    apply and_congr_right
    intro _
    rw [and_iff_left fun fails => unwritten fails.1]
    apply forall_congr'
    intro given
    have := mt (fun positive => And.intro positive given) unwritten
    rw [toInt_pos_iff] at this
    change 0 = pkt.size.toNat ↔ _
    omega

/-- The result for every outcome of the writes. -/
theorem send_honest_iff (pkt : Packet) (data : Bool) (writes : List Write) :
    (protoSendPacket host pkt data writes).Honest pkt.size data ↔
      (WriteFails writes → PayloadWriteFails pkt data writes) ∧
        (¬ WriteFails writes → Representable pkt data) := by
  obtain ⟨fails, passes⟩ := @protoSendPacket_result host pkt data writes
  unfold Sending.Honest
  rw [send_whole_iff]
  by_cases payload : PayloadWriteFails pkt data writes
  · have fits : Representable pkt data := fun _ => ((toInt_pos_iff pkt.size).mp payload.1.1).2
    rw [fails payload]
    exact iff_of_true (.inr ⟨fun whole => whole.2.2 payload, rfl⟩) ⟨fun _ => payload, fun _ => fits⟩
  · have zero : (0 : CInt) ≠ -1 := by decide
    rw [passes payload]
    simp only [payload, zero, not_false_eq_true, and_true, and_false, or_false, imp_false]
    exact and_congr_right fun ok => ⟨fun fits _ => fits, fun fits => fits ok⟩

/-- A client is left exactly if its header is not whole, unless the read of it fails. -/
theorem serves_iff (pkt : Packet) (reads : List Read) :
    (serves host pkt reads = true ↔ (rioReadn packetSize reads).bytes.length = packetSize) ↔
      ¬ HeaderFails reads := by
  have unread : ¬ PayloadFails host false pkt reads := fun fails => Bool.false_ne_true fails.1.2
  have passes := fun passes => (@protoRecvPacket_result host false pkt reads passes).2 unread
  unfold serves
  rcases rioReadn_spec packetSize reads with ⟨failed, short⟩ | ⟨count, bound⟩
  · rw [passes (.inl failed)]
    exact iff_of_false (fun served => short.ne (served.mp rfl)) (not_not.mpr failed)
  · have ok := not_headerFails count bound
    apply iff_of_true _ ok
    by_cases short : (rioReadn packetSize reads).bytes.length < packetSize
    · rw [(protoRecvPacket_short ok short).1]
      exact iff_of_false (by decide) short.ne
    · rw [passes (.inr short)]
      exact iff_of_true (by decide) (by omega)

theorem rioReadn_bytes {n : Nat} (positive : 0 < n) (input : List Byte) :
    (rioReadn n [.bytes input]).count = BitVec.ofNat 64 (input.take n).length ∧
      (rioReadn n [.bytes input]).bytes = input.take n ∧
      (rioReadn n [.bytes input]).rest = if n < input.length then [.bytes (input.drop n)] else [] := by
  unfold rioReadn rioReadnFrom
  rw [if_neg positive.ne']
  dsimp only
  by_cases ended : input = []
  · subst ended
    simp
  · rw [if_neg ended]
    by_cases more : n < input.length
    · rw [if_pos more, if_pos more, List.length_take, Nat.min_eq_left more.le]
      exact ⟨rfl, rfl, rfl⟩
    · rw [if_neg more, if_neg more, List.take_of_length_le (Nat.le_of_not_lt more)]
      refine ⟨?_, rfl, rfl⟩
      simp only [rioReadnFrom]
      congr 1
      omega

/-- With nothing but bytes to read, this is `proto_recv_packet` on the stream of these bytes. -/
theorem protoRecvPacket_bytes {wanted : Bool} (pkt : Packet) {input rest : List Byte}
    {received : Received}
    (receives : Protocol.protoRecvPacket host wanted input = some (received, rest)) :
    match received with
    | .failed => (protoRecvPacket host wanted pkt [.bytes input]).result = -1
    | .packet header data =>
        (protoRecvPacket host wanted pkt [.bytes input]).result = 0 ∧
          (protoRecvPacket host wanted pkt [.bytes input]).pkt = header ∧
          (protoRecvPacket host wanted pkt [.bytes input]).data = data := by
  obtain ⟨count, bytes, left⟩ := rioReadn_bytes (by decide : 0 < packetSize) input
  have ok : ¬ HeaderFails [.bytes input] :=
    not_headerFails count (List.length_take_le packetSize input)
  unfold Protocol.protoRecvPacket at receives
  by_cases short : input.length < packetSize
  · rw [if_pos short] at receives
    cases receives
    refine (protoRecvPacket_short ok ?_).1
    rw [bytes, List.length_take]
    omega
  · rw [if_neg short] at receives
    have whole : (input.take packetSize).length = packetSize := by
      rw [List.length_take]
      omega
    have header : headerPacket host pkt [.bytes input] =
        (readPacket host (input.take packetSize)).toHost host := by
      rw [headerPacket, overwrite, bytes, whole, ← Packet.bytes_length host pkt, List.drop_length,
        List.append_nil]
    have payload : 0 < (headerPacket host pkt [.bytes input]).size.toNat →
        (payloadRead host pkt [.bytes input]).bytes =
          (input.drop packetSize).take (headerPacket host pkt [.bytes input]).size.toNat := by
      intro positive
      rw [payloadRead, left]
      split
      · exact (rioReadn_bytes positive _).2.1
      · rw [List.drop_eq_nil_of_le (by omega), List.take_nil]
        rfl
    rw [protoRecvPacket_long (.inr (by rw [bytes]; omega)), bytes]
    dsimp only at receives
    rw [← header] at receives
    by_cases reading : 0 < (headerPacket host pkt [.bytes input]).size.toNat ∧ wanted = true
    · have check := payloadRead_check reading.1
      rw [payload reading.1, List.length_take] at check
      rw [if_pos reading] at receives ⊢
      split at receives
      · cases receives
      · split at receives
        · rename_i fewer
          cases receives
          exact if_pos (check.trans (decide_eq_true (by omega)))
        · rename_i enough
          cases receives
          refine ⟨if_neg ?_, rfl, congrArg some (payload reading.1)⟩
          rw [check, decide_eq_true_eq]
          omega
    · rw [if_neg reading] at receives ⊢
      cases receives
      exact ⟨rfl, rfl, rfl⟩

/-- With writes that do not fail, this is `proto_send_packet` with all of its bytes. -/
theorem protoSendPacket_bytes {pkt sent : Packet} {data : Option (List Byte)} {bytes : List Byte}
    {writes : List Write} (sends : Protocol.protoSendPacket host pkt data = some (sent, bytes))
    (headed : ¬ WriteFails writes) (paid : ¬ PayloadWriteFails pkt data.isSome writes) :
    (protoSendPacket host pkt data.isSome writes).result = 0 ∧
      (protoSendPacket host pkt data.isSome writes).pkt = sent ∧
      (protoSendPacket host pkt data.isSome writes).header +
        (protoSendPacket host pkt data.isSome writes).payload = bytes.length := by
  refine ⟨(protoSendPacket_result pkt data.isSome writes).2 paid, ?_⟩
  rw [writeFails_iff, not_not] at headed
  rw [protoSendPacket_eq]
  cases data with
  | none =>
      cases sends
      simp [headed]
  | some data =>
      simp only [Protocol.protoSendPacket, Option.isSome_some, and_true] at sends paid ⊢
      by_cases positive : 0 < pkt.size.toInt
      · have size : pkt.size.toInt.toNat = pkt.size.toNat := by
          have := BitVec.toInt_eq_toNat_cond pkt.size
          split at this <;> omega
        rcases payloadWrite_cases positive (rioWriten packetSize writes).rest with
          ⟨failed, -, -⟩ | ⟨-, whole, -⟩
        · exact absurd ⟨⟨positive, rfl⟩, failed⟩ paid
        · rw [if_pos positive, size] at sends
          rw [if_pos positive]
          split at sends
          · rename_i enough
            cases sends
            simp [headed, whole, enough]
          · cases sends
      · rw [if_neg positive] at sends ⊢
        cases sends
        simp [headed]
/-- For every outcome of the reads and writes, receiving and sending return 0 for a whole packet and
-1 otherwise, and the server leaves a client whose packet is not whole, exactly if an error of the
transfer of the header comes with one of the payload, and an `int` holds the size of the payload
that is sent. -/
theorem transfers_iff (host : Host) :
    (∀ wanted pkt reads, (protoRecvPacket host wanted pkt reads).Honest wanted ↔
      (HeaderFails reads → PayloadFails host wanted pkt reads)) ∧
    (∀ pkt data writes, (protoSendPacket host pkt data writes).Honest pkt.size data ↔
      (WriteFails writes → PayloadWriteFails pkt data writes) ∧
        (¬ WriteFails writes → Representable pkt data)) ∧
    ∀ pkt reads,
      (serves host pkt reads = true ↔ (rioReadn packetSize reads).bytes.length = packetSize) ↔
        ¬ HeaderFails reads :=
  ⟨recv_honest_iff, send_honest_iff, serves_iff⟩

/-- The connection is reset after a request: the server goes on with the packet that it has. -/
theorem not_always_honest :
    ¬ ∀ host : Host,
      (∀ wanted pkt reads, (protoRecvPacket host wanted pkt reads).Honest wanted) ∧
      ∀ pkt data writes, (protoSendPacket host pkt data writes).Honest pkt.size data := by
  intro always
  have honest := (always littleEndian).1 false ⟨putPkt, 0, 0, 0, 0, 0, 0⟩ [.failed false]
  rcases honest with ⟨whole, -⟩ | ⟨-, result⟩
  · exact absurd whole.1 (by decide)
  · exact absurd result (by decide)

end Audible.Transfer
