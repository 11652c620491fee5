import Audible.ServerTransfers
import Audible.ServerValues
import Mathlib.Data.List.TakeWhile

set_option autoImplicit false

/- The memory that `xacto_get` and `xacto_put` read before they call the store (`server.c` and
`data.c`): the payloads of the packets, and the copies of strings made from them. -/
namespace Audible.Transfer

open Protocol

/-- A read that must not happen: through NULL, behind the end of a block, or of a byte that has
never been stored. -/
inductive Fault
  | null
  | outside
  | undefined
  deriving DecidableEq

/-- A block of memory and the bytes stored at its start. -/
structure Buffer where
  capacity : Nat
  bytes : List Byte
  deriving DecidableEq

def Buffer.read (buffer : Buffer) (index : Nat) : Except Fault Byte :=
  if index < buffer.capacity then
    match buffer.bytes[index]? with
    | some byte => .ok byte
    | none => .error .undefined
  else .error .outside

/-- The bytes before the first zero byte, `limit` of them at most. -/
def Buffer.string (buffer : Buffer) : (limit index : Nat) → Except Fault (List Byte)
  | 0, _ => .ok []
  | limit + 1, index => do
      let c ← buffer.read index
      if c = 0#8 then return []
      else
        let rest ← buffer.string limit (index + 1)
        return c :: rest

def terminated (str : List Byte) : Buffer :=
  { capacity := str.length + 1, bytes := str ++ [0] }

def strndup (s : Buffer) (n : Nat) : Except Fault Buffer := do
  let str ← s.string n 0
  return terminated str

/-- No walk can be longer than the block. -/
def Buffer.wholeString (s : Buffer) : Except Fault (List Byte) := s.string (s.capacity + 1) 0

def strdup (s : Buffer) : Except Fault Buffer := do
  let str ← s.wholeString
  return terminated str

/-- `BLOB` without its mutex. -/
structure Blob where
  refcnt : CInt
  size : Nat
  content : Option Buffer
  debugCopy : Option Buffer
  deriving DecidableEq

/-- `KEY` -/
structure Key where
  hash : CInt
  blob : Blob
  deriving DecidableEq

/-- The content is copied twice, the second time for debugging. -/
def blobCreate (content : Option Buffer) (size : Nat) : Except Fault Blob :=
  match content with
  | none => .ok { refcnt := 1, size := size, content := none, debugCopy := none }
  | some content => do
      let copy ← strndup content size
      let debugCopy ← strndup content size
      return { refcnt := 1, size := size, content := some copy, debugCopy := some debugCopy }

/-- The loop walks along a copy of the content. -/
def blobHash (bp : Blob) : Except Fault CInt :=
  match bp.content with
  | none => .error .null
  | some content => do
      let str ← strdup content
      let chars ← str.wholeString
      return Store.hashString chars

def keyCreate (bp : Blob) : Except Fault Key := do
  let hash ← blobHash bp
  return { hash := hash, blob := bp }

/-- The block for a payload has `size + 1` bytes, in 32 bits. -/
def Reception.payload (r : Reception) : Option Buffer :=
  r.data.map fun bytes => { capacity := (r.pkt.size + 1).toNat, bytes := bytes }

/-- `blob_create(*key, keyPkt->size)` -/
def Reception.blob (r : Reception) : Except Fault Blob := blobCreate r.payload r.pkt.size.toNat

/-- `key_create` of that blob -/
def Reception.key (r : Reception) : Except Fault Key := do
  let blob ← r.blob
  keyCreate blob

variable (host : Host)

/-- A packet and its payload, as the requests receive them. -/
def receivePacket (reads : List Read) : Reception :=
  protoRecvPacket host true (Server.packetCreate 0 .pending) reads

/-- The key for `store_get`; none where the request is given up before. -/
def xactoGet (reads : List Read) : Except Fault (Option Key) :=
  let key := receivePacket host reads
  if key.result.slt 0 then .ok none
  else key.key.map some

/-- The key and the value for `store_put`. -/
def xactoPut (reads : List Read) : Except Fault (Option (Key × Blob)) :=
  let key := receivePacket host reads
  if key.result.slt 0 then .ok none
  else
    let value := receivePacket host key.rest
    if value.result.slt 0 then .ok none
    else do
      let keyKey ← key.key
      let valueBlob ← value.blob
      return some (keyKey, valueBlob)

section Strings

variable {buffer : Buffer} {str : List Byte} {limit index : Nat} {c : Byte}

theorem string_end (read : buffer.read index = .ok 0#8) : buffer.string (limit + 1) index = .ok [] := by
  rw [Buffer.string, read]
  rfl

theorem string_cons {rest : List Byte} (read : buffer.read index = .ok c) (more : c ≠ 0#8)
    (walk : buffer.string limit (index + 1) = .ok rest) :
    buffer.string (limit + 1) index = .ok (c :: rest) := by
  rw [Buffer.string, read]
  change (if c = 0#8 then pure [] else do
    let rest ← buffer.string limit (index + 1)
    return c :: rest) = Except.ok (c :: rest)
  rw [if_neg more, walk]
  rfl

theorem string_fault {fault : Fault} (read : buffer.read index = .error fault) :
    buffer.string (limit + 1) index = .error fault := by
  rw [Buffer.string, read]
  rfl

theorem read_inside (capacity : index < buffer.capacity) (stored : index < buffer.bytes.length) :
    buffer.read index = .ok buffer.bytes[index] := by
  rw [Buffer.read, if_pos capacity, List.getElem?_eq_getElem stored]

theorem string_inside (limit index : Nat) (capacity : index + limit ≤ buffer.capacity)
    (stored : index + limit ≤ buffer.bytes.length) :
    buffer.string limit index =
      .ok (((buffer.bytes.drop index).take limit).takeWhile (· ≠ 0#8)) := by
  induction limit generalizing index with
  | zero => rfl
  | succ limit ih =>
      have below : index < buffer.bytes.length := by omega
      have read := @read_inside buffer index (by omega) below
      rw [List.drop_eq_getElem_cons below, List.take_succ_cons]
      by_cases zero : buffer.bytes[index] = 0#8
      · rw [List.takeWhile_cons_of_neg (by simpa using zero)]
        exact string_end (zero ▸ read)
      · rw [List.takeWhile_cons_of_pos (by simpa using zero)]
        exact string_cons read zero (ih (index + 1) (by omega) (by omega))

/-- A walk along a string that ends in its block. -/
theorem string_terminated (noNul : 0#8 ∉ str) (limit index : Nat) (inside : index ≤ str.length)
    (enough : str.length - index < limit) :
    (terminated str).string limit index = .ok (str.drop index) := by
  induction limit generalizing index with
  | zero => omega
  | succ limit ih =>
      have below : index < (str ++ [0#8]).length := by
        rw [List.length_append, List.length_singleton]
        omega
      have read := @read_inside (terminated str) index (by simp only [terminated]; omega) below
      change (terminated str).read index = .ok (str ++ [0#8])[index] at read
      by_cases last : index = str.length
      · rw [last, List.drop_length]
        apply string_end
        rw [← last, read]
        simp [last]
      · have more : index < str.length := by omega
        rw [List.getElem_append_left more] at read
        rw [List.drop_eq_getElem_cons more]
        apply string_cons read
        · exact fun zero => noNul (zero ▸ List.getElem_mem more)
        · exact ih (index + 1) (by omega) (by omega)

theorem wholeString_terminated (noNul : 0#8 ∉ str) : (terminated str).wholeString = .ok str := by
  apply string_terminated noNul
  · exact Nat.zero_le _
  · simp only [terminated]
    omega

theorem not_mem_strndup (bytes : List Byte) (n : Nat) : 0#8 ∉ Store.strndup bytes n := by
  intro member
  simpa using List.mem_takeWhile_imp member

theorem strndup_inside (n : Nat) (capacity : n ≤ buffer.capacity) (stored : n ≤ buffer.bytes.length) :
    strndup buffer n = .ok (terminated (Store.strndup buffer.bytes n)) := by
  rw [strndup, string_inside n 0 (by omega) (by omega)]
  rfl

/-- A block without room. -/
theorem strndup_outside {n : Nat} (empty : buffer.capacity = 0) (reads : 0 < n) :
    strndup buffer n = .error .outside := by
  obtain ⟨limit, rfl⟩ := Nat.exists_eq_succ_of_ne_zero reads.ne'
  have read : buffer.read 0 = .error .outside := by rw [Buffer.read, empty, if_neg (Nat.lt_irrefl 0)]
  rw [strndup, string_fault read]
  rfl

theorem read_ok (read : buffer.read index = .ok c) :
    index < buffer.capacity ∧ buffer.bytes.drop index = c :: buffer.bytes.drop (index + 1) := by
  unfold Buffer.read at read
  split at read
  · rename_i inside
    refine ⟨inside, ?_⟩
    split at read
    · rename_i found
      cases read
      obtain ⟨below, here⟩ := List.getElem?_eq_some_iff.mp found
      rw [List.drop_eq_getElem_cons below, here]
    · cases read
  · cases read

theorem string_succ_ok (walk : buffer.string (limit + 1) index = .ok str) :
    ∃ c, buffer.read index = .ok c ∧ (c = 0#8 ∧ str = [] ∨
      c ≠ 0#8 ∧ ∃ rest, buffer.string limit (index + 1) = .ok rest ∧ str = c :: rest) := by
  cases read : buffer.read index with
  | error fault =>
      rw [string_fault read] at walk
      cases walk
  | ok c =>
      refine ⟨c, rfl, ?_⟩
      by_cases zero : c = 0#8
      · subst zero
        rw [string_end read] at walk
        cases walk
        exact .inl ⟨rfl, rfl⟩
      · right
        refine ⟨zero, ?_⟩
        rw [Buffer.string, read] at walk
        change (if c = 0#8 then pure [] else do
          let rest ← buffer.string limit (index + 1)
          return c :: rest) = Except.ok str at walk
        rw [if_neg zero] at walk
        cases more : buffer.string limit (index + 1) with
        | error fault =>
            rw [more] at walk
            cases walk
        | ok rest =>
            rw [more] at walk
            cases walk
            exact ⟨rest, rfl, rfl⟩

/-- A walk that reads nothing it must not finds the string. -/
theorem string_ok (walk : buffer.string limit index = .ok str) :
    str = ((buffer.bytes.drop index).take limit).takeWhile (· ≠ 0#8) := by
  induction limit generalizing index str with
  | zero =>
      cases walk
      simp
  | succ limit ih =>
      obtain ⟨c, read, ⟨rfl, rfl⟩ | ⟨more, rest, tail, rfl⟩⟩ := string_succ_ok walk
      · rw [(read_ok read).2]
        rfl
      · rw [(read_ok read).2, List.take_succ_cons,
          List.takeWhile_cons_of_pos (by simpa using more), ← ih tail]

/-- A walk that could leave the block ends before. -/
theorem string_ended (walk : buffer.string limit index = .ok str) (inside : index ≤ buffer.capacity)
    (past : buffer.capacity < index + limit) :
    str = (buffer.bytes.drop index).takeWhile (· ≠ 0#8) := by
  induction limit generalizing index str with
  | zero => omega
  | succ limit ih =>
      obtain ⟨c, read, ⟨rfl, rfl⟩ | ⟨more, rest, tail, rfl⟩⟩ := string_succ_ok walk
      · rw [(read_ok read).2]
        rfl
      · obtain ⟨below, split⟩ := read_ok read
        rw [split, List.takeWhile_cons_of_pos (by simpa using more),
          ← ih tail (by omega) (by omega)]

theorem wholeString_ok (walk : buffer.wholeString = .ok str) :
    str = buffer.bytes.takeWhile (· ≠ 0#8) :=
  string_ended walk (Nat.zero_le _) (by omega)

theorem takeWhile_terminated (noNul : 0#8 ∉ str) :
    (terminated str).bytes.takeWhile (· ≠ 0#8) = str := by
  have whole := wholeString_ok (wholeString_terminated noNul)
  exact whole.symm

end Strings

/-- A block that can be read as far as its size says, and copied. -/
theorem blobCreate_inside {buffer : Buffer} {size : Nat} (capacity : size ≤ buffer.capacity)
    (stored : size ≤ buffer.bytes.length) :
    blobCreate (some buffer) size = .ok
      { refcnt := 1
        size := size
        content := some (terminated (Store.strndup buffer.bytes size))
        debugCopy := some (terminated (Store.strndup buffer.bytes size)) } := by
  simp only [blobCreate, strndup_inside size capacity stored]
  rfl

theorem keyCreate_walk {bp : Blob} {block : Buffer} {str : List Byte}
    (content : bp.content = some block) (walk : block.wholeString = .ok str) (noNul : 0#8 ∉ str) :
    keyCreate bp = .ok { hash := Store.hashString str, blob := bp } := by
  have copy : strdup block = .ok (terminated str) := by
    rw [strdup, walk]
    rfl
  have hash : blobHash bp = .ok (Store.hashString str) := by
    simp only [blobHash, content, copy]
    change (do
      let chars ← (terminated str).wholeString
      return Store.hashString chars) = _
    rw [wholeString_terminated noNul]
    rfl
  rw [keyCreate, hash]
  rfl

theorem keyCreate_terminated {bp : Blob} {str : List Byte} (content : bp.content = some (terminated str))
    (noNul : 0#8 ∉ str) : keyCreate bp = .ok { hash := Store.hashString str, blob := bp } :=
  keyCreate_walk content (wholeString_terminated noNul) noNul

-- The store sees a block as the string in it.

/-- The blob, without its copy for debugging. -/
def Blob.toStore (bp : Blob) : Store.Blob where
  refcnt := bp.refcnt
  size := bp.size
  content := bp.content.map fun block => block.bytes.takeWhile (· ≠ 0#8)

def Key.toStore (kp : Key) : Store.Key where
  hash := kp.hash
  blob := kp.blob.toStore

/-- A blob that is made is the one the store makes of the bytes in the block. -/
theorem blobCreate_toStore {content : Option Buffer} {size : Nat} {bp : Blob}
    (created : blobCreate content size = .ok bp) :
    Store.blobCreate (content.map Buffer.bytes) size = some bp.toStore := by
  cases content with
  | none =>
      cases created
      rfl
  | some block =>
      cases walk : block.string size 0 with
      | error fault =>
          rw [blobCreate, strndup, walk] at created
          cases created
      | ok str =>
          obtain rfl : str = Store.strndup block.bytes size := string_ok walk
          have copy := takeWhile_terminated (not_mem_strndup block.bytes size)
          rw [blobCreate, strndup, walk] at created
          cases created
          simp only [Store.blobCreate, Store.blobRef, Blob.toStore, Option.map_some, copy]
          rfl

/-- A key that is made is the one the store makes of its blob. -/
theorem keyCreate_toStore {bp : Blob} {kp : Key} (created : keyCreate bp = .ok kp) :
    Store.keyCreate (some bp.toStore) = some kp.toStore := by
  cases content : bp.content with
  | none =>
      rw [keyCreate, blobHash, content] at created
      cases created
  | some block =>
      cases walk : block.wholeString with
      | error fault =>
          rw [keyCreate, blobHash, content] at created
          simp only [strdup, walk] at created
          cases created
      | ok str =>
          have copied := wholeString_ok walk
          have noNul : 0#8 ∉ str := by
            rw [copied]
            intro member
            simpa using List.mem_takeWhile_imp member
          rw [keyCreate_walk content walk noNul] at created
          cases created
          simp [Store.keyCreate, Store.blobHash, Blob.toStore, Key.toStore, content, copied]

/-- The key of a request is the store's key of the payload. -/
theorem Reception.key_toStore {r : Reception} {kp : Key} (made : r.key = .ok kp) :
    Store.keyCreate (Store.blobCreate r.data r.pkt.size.toNat) = some kp.toStore := by
  have payload : r.payload.map Buffer.bytes = r.data := by
    cases found : r.data <;> simp [Reception.payload, found]
  cases created : r.blob with
  | error fault =>
      rw [Reception.key, created] at made
      cases made
  | ok bp =>
      rw [Reception.key, created] at made
      rw [← payload, blobCreate_toStore created]
      exact keyCreate_toStore made

variable {host} {reads : List Read}

/-- A packet that is received has no payload, or all of it. -/
theorem receivePacket_cases (host : Host) (reads : List Read) :
    (receivePacket host reads).result = -1 ∨
      (receivePacket host reads).result = 0 ∧
        ((receivePacket host reads).pkt.size.toNat = 0 ∧ (receivePacket host reads).data = none ∨
          0 < (receivePacket host reads).pkt.size.toNat ∧
            ∃ bytes, (receivePacket host reads).data = some bytes ∧
              bytes.length = (receivePacket host reads).pkt.size.toNat) := by
  unfold receivePacket
  by_cases passes : HeaderFails reads ∨ ¬ (rioReadn packetSize reads).bytes.length < packetSize
  · obtain ⟨fails, fits⟩ := @protoRecvPacket_result host true (Server.packetCreate 0 .pending) reads
      passes
    by_cases payload : PayloadFails host true (Server.packetCreate 0 .pending) reads
    · exact .inl (fails payload)
    · right
      refine ⟨fits payload, ?_⟩
      rw [protoRecvPacket_long passes]
      have bound := @payloadRead_bound host (Server.packetCreate 0 .pending) reads
      split
      · rename_i reading
        right
        refine ⟨reading.1, _, rfl, le_antisymm bound (Nat.le_of_not_lt fun less => ?_)⟩
        exact payload ⟨reading, less⟩
      · rename_i unread
        left
        exact ⟨Nat.eq_zero_of_not_pos fun positive => unread ⟨positive, rfl⟩, rfl⟩
  · rw [not_or, not_not] at passes
    exact .inl (protoRecvPacket_short passes.1 passes.2).1

/-- The size of a payload, with the byte that is allocated more, has 32 bits. -/
def Allocated (pkt : Packet) : Prop := pkt.size + 1 ≠ 0

theorem allocated_iff (pkt : Packet) :
    Allocated pkt ↔ (pkt.size + 1).toNat = pkt.size.toNat + 1 := by
  have small := pkt.size.isLt
  rw [Allocated, ne_eq, ← BitVec.toNat_inj, BitVec.toNat_add]
  change ¬ (pkt.size.toNat + 1) % 2 ^ 32 = 0 ↔ (pkt.size.toNat + 1) % 2 ^ 32 = pkt.size.toNat + 1
  omega

/-- The blob of a payload is made exactly if there was room for the payload. -/
theorem blobCreate_payload {r : Reception} {bytes : List Byte} (data : r.data = some bytes)
    (whole : bytes.length = r.pkt.size.toNat) (positive : 0 < r.pkt.size.toNat) :
    (Allocated r.pkt → r.blob = .ok
      { refcnt := 1
        size := r.pkt.size.toNat
        content := some (terminated (Store.strndup bytes r.pkt.size.toNat))
        debugCopy := some (terminated (Store.strndup bytes r.pkt.size.toNat)) }) ∧
    (¬ Allocated r.pkt → r.blob = .error .outside) := by
  have payload : r.payload = some { capacity := (r.pkt.size + 1).toNat, bytes := bytes } := by
    rw [Reception.payload, data]
    rfl
  rw [Reception.blob, payload]
  constructor
  · intro allocated
    rw [allocated_iff] at allocated
    apply blobCreate_inside
    · simp only [allocated]
      omega
    · exact whole.ge
  · intro wraps
    rw [Allocated, not_not] at wraps
    have empty : (r.pkt.size + 1).toNat = 0 := by
      rw [wraps]
      rfl
    simp only [blobCreate]
    rw [strndup_outside empty positive]
    rfl

/-- Nothing is read through NULL, behind a block or before it is stored. -/
def Safe {α : Type} (request : Except Fault α) : Prop := ∃ result, request = .ok result

/-- A key packet that the code can handle: its payload is not empty, and has been allocated. -/
def KeyFits (pkt : Packet) : Prop := pkt.size ≠ 0 ∧ Allocated pkt

theorem key_ok_iff (received : (receivePacket host reads).result = 0) :
    Safe (receivePacket host reads).key ↔ KeyFits (receivePacket host reads).pkt := by
  rcases receivePacket_cases host reads with failed | ⟨-, ⟨empty, null⟩ | ⟨positive, bytes, data, whole⟩⟩
  · rw [received] at failed
    cases failed
  · apply iff_of_false
    · rintro ⟨key, made⟩
      have payload : (receivePacket host reads).payload = none := by
        rw [Reception.payload, null]
        rfl
      rw [Reception.key, Reception.blob, payload] at made
      cases made
    · intro fits
      exact fits.1 (BitVec.eq_of_toNat_eq empty)
  · obtain ⟨made, outside⟩ := blobCreate_payload data whole positive
    by_cases allocated : Allocated (receivePacket host reads).pkt
    · apply iff_of_true
      · rw [Safe, Reception.key, made allocated]
        exact ⟨_, keyCreate_terminated rfl (not_mem_strndup bytes _)⟩
      · refine ⟨fun zero => ?_, allocated⟩
        rw [zero] at positive
        cases positive
    · apply iff_of_false
      · rintro ⟨key, made⟩
        rw [Reception.key, outside allocated] at made
        cases made
      · exact fun fits => allocated fits.2

theorem value_ok_iff (received : (receivePacket host reads).result = 0) :
    Safe (receivePacket host reads).blob ↔ Allocated (receivePacket host reads).pkt := by
  rcases receivePacket_cases host reads with failed | ⟨-, ⟨empty, null⟩ | ⟨positive, bytes, data, whole⟩⟩
  · rw [received] at failed
    cases failed
  · have payload : (receivePacket host reads).payload = none := by
      rw [Reception.payload, null]
      rfl
    rw [Safe, Reception.blob, payload, allocated_iff]
    refine iff_of_true ⟨_, rfl⟩ ?_
    rw [BitVec.toNat_add, empty]
    rfl
  · obtain ⟨made, outside⟩ := blobCreate_payload data whole positive
    by_cases allocated : Allocated (receivePacket host reads).pkt
    · exact iff_of_true ⟨_, made allocated⟩ allocated
    · apply iff_of_false _ allocated
      rintro ⟨blob, made⟩
      rw [outside allocated] at made
      cases made

theorem received_or_failed (host : Host) (reads : List Read) :
    ((receivePacket host reads).result.slt 0 = true ∧ (receivePacket host reads).result ≠ 0) ∨
      ((receivePacket host reads).result.slt 0 = false ∧ (receivePacket host reads).result = 0) := by
  rcases receivePacket_cases host reads with failed | ⟨received, -⟩
  · rw [failed]
    decide
  · rw [received]
    decide

theorem xactoGet_safe_iff (host : Host) (reads : List Read) :
    Safe (xactoGet host reads) ↔
      ((receivePacket host reads).result = 0 → KeyFits (receivePacket host reads).pkt) := by
  unfold xactoGet
  rcases received_or_failed host reads with ⟨failed, nonzero⟩ | ⟨passed, received⟩
  · simp only [failed, if_true]
    exact iff_of_true ⟨_, rfl⟩ fun received => absurd received nonzero
  · rw [forall_prop_of_true received, ← key_ok_iff received]
    simp only [passed, Bool.false_eq_true, if_false]
    constructor
    · rintro ⟨result, made⟩
      cases key : (receivePacket host reads).key with
      | error fault =>
          rw [key] at made
          cases made
      | ok _ => exact ⟨_, rfl⟩
    · rintro ⟨key, made⟩
      rw [made]
      exact ⟨some key, rfl⟩

theorem xactoPut_safe_iff (host : Host) (reads : List Read) :
    Safe (xactoPut host reads) ↔
      ((receivePacket host reads).result = 0 →
        (receivePacket host (receivePacket host reads).rest).result = 0 →
        KeyFits (receivePacket host reads).pkt ∧
          Allocated (receivePacket host (receivePacket host reads).rest).pkt) := by
  unfold xactoPut
  rcases received_or_failed host reads with ⟨failed, nonzero⟩ | ⟨passed, received⟩
  · simp only [failed, if_true]
    exact iff_of_true ⟨_, rfl⟩ fun received => absurd received nonzero
  rcases received_or_failed host (receivePacket host reads).rest with
    ⟨failed, nonzero⟩ | ⟨passed', received'⟩
  · simp only [passed, failed, Bool.false_eq_true, if_false, if_true]
    exact iff_of_true ⟨_, rfl⟩ fun _ received => absurd received nonzero
  · rw [forall_prop_of_true received, forall_prop_of_true received', ← key_ok_iff received,
      ← value_ok_iff received']
    simp only [passed, passed', Bool.false_eq_true, if_false]
    constructor
    · rintro ⟨result, made⟩
      cases key : (receivePacket host reads).key with
      | error fault =>
          rw [key] at made
          cases made
      | ok _ =>
          cases value : (receivePacket host (receivePacket host reads).rest).blob with
          | error fault =>
              rw [key, value] at made
              cases made
          | ok _ => exact ⟨⟨_, rfl⟩, _, rfl⟩
    · rintro ⟨⟨key, made⟩, value, valued⟩
      rw [made, valued]
      exact ⟨some (key, value), rfl⟩

/-- Whatever a client sends after a request, the request is handled safely exactly if the key packet
that is received, for PUT before a value packet that is received too, is neither empty nor of the
size whose block has no bytes, and neither is the value of that size. -/
theorem requests_safe_iff (host : Host) (reads : List Read) :
    (Safe (xactoGet host reads) ↔
      ((receivePacket host reads).result = 0 → KeyFits (receivePacket host reads).pkt)) ∧
    (Safe (xactoPut host reads) ↔
      ((receivePacket host reads).result = 0 →
        (receivePacket host (receivePacket host reads).rest).result = 0 →
        KeyFits (receivePacket host reads).pkt ∧
          Allocated (receivePacket host (receivePacket host reads).rest).pkt)) :=
  ⟨xactoGet_safe_iff host reads, xactoPut_safe_iff host reads⟩

/-- A key packet of size zero: `blob_hash` copies the string at NULL. -/
theorem empty_key_crashes :
    ¬ ∀ (host : Host) (reads : List Read),
      Safe (xactoGet host reads) ∧ Safe (xactoPut host reads) := by
  intro always
  obtain ⟨result, safe⟩ := (always littleEndian [.bytes (List.replicate 16 0)]).1
  have crash : xactoGet littleEndian [.bytes (List.replicate 16 0)] = .error .null := by decide
  rw [crash] at safe
  cases safe

end Audible.Transfer
