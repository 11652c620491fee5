import Audible.Runs
import Audible.ServerValues

set_option autoImplicit false

/- The requests of a client (`server.c`), and where in the stream the server looks for packet
headers. The store and the transactions are what the world makes of them. -/
namespace Audible.Server

open Protocol Store Xacto

/-- What the world decides while a request is served: the clock, and what the store and the
transaction return for the request, if they return. -/
structure World where
  first : Timestamp
  second : Timestamp
  storePut : Key → Option Blob → Option TransStatus
  storeGet : Key → Option (TransStatus × Option Blob)
  transCommit : Option TransStatus

/-- A client's connection: the bytes it has yet to read and how many it has read, the positions at
which it has read headers, and the bytes sent. -/
structure Connection where
  input : List Byte
  position : Nat
  headers : List Nat
  output : List Byte

/-- The variables of `xacto_client_service`; it is active until it returns or crashes. -/
structure Session where
  connection : Connection
  status : TransStatus
  active : Bool

def Session.start (stream : List Byte) : Session where
  connection := { input := stream, position := 0, headers := [], output := [] }
  status := .pending
  active := true

variable (host : Host)

/-- A call of `proto_recv_packet`. -/
def receive (wanted : Bool) (c : Connection) : Connection × Option Received :=
  let headers := if c.input.length < packetSize then c.headers else c.headers ++ [c.position]
  match protoRecvPacket host wanted c.input with
  | none => ({ c with headers := headers }, none)
  | some (received, rest) =>
      ({ c with
          input := rest
          position := c.position + (c.input.length - rest.length)
          headers := headers }, some received)

/-- `key_create` crashes without a key. -/
def xactoGet (world : World) (c : Connection) :
    Connection × Option (TransStatus × Option Blob) :=
  match receive host true c with
  | (c, none) => (c, none)
  | (c, some .failed) => (c, some (.aborted, none))
  | (c, some (.packet keyPkt key)) =>
      match keyCreate (blobCreate key keyPkt.size.toNat) with
      | none => (c, none)
      | some key => (c, world.storeGet key)

def xactoPut (world : World) (c : Connection) : Connection × Option TransStatus :=
  match receive host true c with
  | (c, none) => (c, none)
  | (c, some .failed) => (c, some .aborted)
  | (c, some (.packet keyPkt key)) =>
      match receive host true c with
      | (c, none) => (c, none)
      | (c, some .failed) => (c, some .aborted)
      | (c, some (.packet valuePkt value)) =>
          match keyCreate (blobCreate key keyPkt.size.toNat) with
          | none => (c, none)
          | some key => (c, world.storePut key (blobCreate value valuePkt.size.toNat))

/-- The request of a type: the status it leaves, and the blob for the reply. -/
def request (world : World) (type : Byte) (status : TransStatus) (c : Connection) :
    Connection × Option (TransStatus × Option Blob) :=
  if type = putPkt then
    let (c, status) := xactoPut host world c
    (c, status.map fun status => (status, none))
  else if type = getPkt then xactoGet host world c
  else if type = commitPkt then (c, world.transCommit.map fun status => (status, none))
  else (c, some (status, none))

/-- One round of the loop of `xacto_client_service`. -/
def serve (world : World) (s : Session) : Session :=
  match receive host false s.connection with
  | (c, none) => { s with connection := c, active := false }
  | (c, some .failed) => { s with connection := c, active := false }
  | (c, some (.packet pkt _)) =>
      match request host world pkt.type s.status c with
      | (c, none) => { s with connection := c, active := false }
      | (c, some (status, blob)) =>
          match xactoReply host world.first world.second pkt.type status blob with
          | none => { connection := c, status := status, active := false }
          | some sent =>
              { connection := { c with output := c.output ++ sent }
                status := status
                active := !(pkt.type = commitPkt || status = .aborted) }

def step (s : Session) (world : World) : Option Session :=
  if s.active then some (serve host world s) else none

/-- A position at which a packet of the stream begins, or the end of the stream. -/
def Boundary (frames : List Frame) (position : Nat) : Prop :=
  ∃ before after, frames = before ++ after ∧ position = (wire host before).length

/-- All the headers that were read begin at packet boundaries. -/
def Aligned (frames : List Frame) (c : Connection) : Prop :=
  ∀ position ∈ c.headers, Boundary host frames position

def AtBoundary (frames : List Frame) (c : Connection) : Prop :=
  ∃ before after, frames = before ++ after ∧ c.input = wire host after ∧
    c.position = (wire host before).length

/-- No header will be read that does not begin at a boundary. -/
def Settled (frames : List Frame) (c : Connection) : Prop :=
  AtBoundary host frames c ∨ c.input.length < packetSize

def nextRequest (c : Connection) : Option Packet :=
  if c.input.length < packetSize then none
  else some ((readPacket host (c.input.take packetSize)).toHost host)

/-- The next request has no payload, or it is the last one, or no other header can follow. -/
def RequestFits (c : Connection) : Prop :=
  ∀ pkt, nextRequest host c = some pkt →
    pkt.size = 0 ∨ pkt.type = commitPkt ∨ c.input.length < 2 * packetSize

section Reading

variable {host} {frames : List Frame} {c : Connection}

theorem AtBoundary.boundary (here : AtBoundary host frames c) :
    Boundary host frames c.position := by
  obtain ⟨before, after, split, -, position⟩ := here
  exact ⟨before, after, split, position⟩

theorem receive_short (wanted : Bool) (short : c.input.length < packetSize) :
    receive host wanted c =
      ({ c with input := [], position := c.position + c.input.length }, some .failed) := by
  rw [receive, protoRecvPacket_short host wanted c.input short]
  simp [short]

/-- A read at a boundary is of a whole packet, unless the stream ends there. -/
theorem AtBoundary.cases (here : AtBoundary host frames c) :
    c.input.length < packetSize ∨
      ∃ before frame after, frames = before ++ frame :: after ∧
        c.input = frame.bytes host ++ wire host after ∧ c.position = (wire host before).length := by
  obtain ⟨before, after, split, input, position⟩ := here
  cases after with
  | nil =>
      left
      rw [input, wire_nil, List.length_nil]
      decide
  | cons frame after => exact .inr ⟨before, frame, after, split, input, position⟩

theorem long_of_frame {frame : Frame} {after : List Frame}
    (input : c.input = frame.bytes host ++ wire host after) : ¬ c.input.length < packetSize := by
  rw [input, List.length_append, Frame.bytes_length]
  omega

/-- The position after a packet. -/
theorem AtBoundary.next {before after : List Frame} {frame : Frame}
    (split : frames = before ++ frame :: after) (input : c.input = wire host after)
    (position : c.position = (wire host before).length + (frame.bytes host).length) :
    AtBoundary host frames c := by
  refine ⟨before ++ [frame], after, ?_, input, ?_⟩
  · rw [split, List.append_assoc]
    rfl
  · simp [position]

/-- What reads leave: a property that always holds, and one that holds if they return. -/
structure Kept (always settled : Connection → Prop) {α : Type} (result : Connection × Option α) :
    Prop where
  always : always result.1
  settled : result.2 ≠ none → settled result.1

/-- The headers after one more read at a boundary. -/
theorem aligned_snoc (aligned : Aligned host frames c) (here : Boundary host frames c.position)
    {next : Connection} (headers : next.headers = c.headers ++ [c.position]) :
    Aligned host frames next := by
  intro position member
  rw [headers, List.mem_append, List.mem_singleton] at member
  rcases member with before | rfl
  · exact aligned position before
  · exact here

theorem receive_frame_wanted {frame : Frame} {after : List Frame}
    (input : c.input = frame.bytes host ++ wire host after) :
    receive host true c =
      if frame.packet.size + 1 = 0 then ({ c with headers := c.headers ++ [c.position] }, none)
      else
        ({ c with
            input := wire host after
            position := c.position + (frame.bytes host).length
            headers := c.headers ++ [c.position] }, some frame.received) := by
  unfold receive
  rw [if_neg (long_of_frame input)]
  by_cases huge : frame.packet.size + 1 = 0
  · rw [if_pos huge, input, protoRecvPacket_huge host frame _ huge]
  · rw [if_neg huge, input, protoRecvPacket_wanted host frame _ huge]
    simp

theorem receive_frame {frame : Frame} {after : List Frame}
    (input : c.input = frame.bytes host ++ wire host after) :
    receive host false c =
      ({ c with
          input := frame.payload ++ wire host after
          position := c.position + packetSize
          headers := c.headers ++ [c.position] }, some (.packet frame.packet none)) := by
  unfold receive
  rw [if_neg (long_of_frame input), input, protoRecvPacket_unwanted]
  have consumed : (frame.bytes host ++ wire host after).length -
      (frame.payload ++ wire host after).length = packetSize := by
    rw [List.length_append, List.length_append, Frame.bytes_length]
    omega
  simp only [consumed]

/-- A read that asks for the payload keeps to the boundaries. -/
theorem receive_kept (aligned : Aligned host frames c) (settled : Settled host frames c) :
    Kept (Aligned host frames) (Settled host frames) (receive host true c) := by
  have ended : c.input.length < packetSize →
      Kept (Aligned host frames) (Settled host frames) (receive host true c) := by
    intro short
    rw [receive_short true short]
    constructor
    · exact aligned
    · intro
      apply Or.inr
      change 0 < packetSize
      decide
  rcases settled with here | short
  · rcases here.cases with short | ⟨before, frame, after, split, input, position⟩
    · exact ended short
    · rw [receive_frame_wanted input]
      split
      · constructor
        · exact aligned_snoc aligned here.boundary rfl
        · exact fun returned => absurd rfl returned
      · constructor
        · exact aligned_snoc aligned here.boundary rfl
        · intro
          apply Or.inl
          apply AtBoundary.next split rfl
          rw [← position]
  · exact ended short

section Requests

variable {always settled : Connection → Prop}
variable (reads : ∀ c, always c → settled c → Kept always settled (receive host true c))
include reads

theorem xactoGet_kept (world : World) (atStart : always c) (ready : settled c) :
    Kept always settled (xactoGet host world c) := by
  have kept := reads c atStart ready
  unfold xactoGet
  split
  · rename_i c' read
    rw [read] at kept
    exact ⟨kept.always, fun returned => absurd rfl returned⟩
  · rename_i c' read
    rw [read] at kept
    exact ⟨kept.always, fun _ => kept.settled (by simp)⟩
  · rename_i c' keyPkt key read
    rw [read] at kept
    have ready := kept.settled (by simp)
    split
    · exact ⟨kept.always, fun _ => ready⟩
    · exact ⟨kept.always, fun _ => ready⟩

theorem xactoPut_kept (world : World) (atStart : always c) (ready : settled c) :
    Kept always settled (xactoPut host world c) := by
  have kept := reads c atStart ready
  unfold xactoPut
  split
  · rename_i c' read
    rw [read] at kept
    exact ⟨kept.always, fun returned => absurd rfl returned⟩
  · rename_i c' read
    rw [read] at kept
    exact ⟨kept.always, fun _ => kept.settled (by simp)⟩
  · rename_i c' keyPkt key read
    rw [read] at kept
    have next := reads c' kept.always (kept.settled (by simp))
    split
    · rename_i c'' read
      rw [read] at next
      exact ⟨next.always, fun returned => absurd rfl returned⟩
    · rename_i c'' read
      rw [read] at next
      exact ⟨next.always, fun _ => next.settled (by simp)⟩
    · rename_i c'' valuePkt value read
      rw [read] at next
      have ready := next.settled (by simp)
      split
      · exact ⟨next.always, fun _ => ready⟩
      · exact ⟨next.always, fun _ => ready⟩

/-- What the reads of payloads keep, a request keeps. -/
theorem request_kept (world : World) (type : Byte) (status : TransStatus) (atStart : always c)
    (ready : settled c) : Kept always settled (request host world type status c) := by
  unfold request
  split
  · have kept := xactoPut_kept reads world atStart ready
    constructor
    · exact kept.always
    · intro returned
      apply kept.settled
      simpa using returned
  · split
    · exact xactoGet_kept reads world atStart ready
    · split
      · exact ⟨atStart, fun _ => ready⟩
      · exact ⟨atStart, fun _ => ready⟩

end Requests

theorem request_commit (world : World) (status : TransStatus) :
    (request host world commitPkt status c).1 = c := rfl

theorem nextRequest_frame {frame : Frame} {after : List Frame}
    (input : c.input = frame.bytes host ++ wire host after) :
    nextRequest host c = some frame.packet := by
  rw [nextRequest, if_neg (long_of_frame input), input, read_header]

end Reading

/-- The states of a session with a client that sends the packets, whatever the world does. -/
def Reached (frames : List Frame) (s : Session) : Prop :=
  Runs.Reachable (step host) Runs.Any (Session.start (wire host frames)) s

/-- What holds of a session whose requests have all fit. -/
structure InStep (frames : List Frame) (s : Session) : Prop where
  aligned : Aligned host frames s.connection
  settled : s.active = true → Settled host frames s.connection
  pending : s.active = true → s.status ≠ .aborted

/-- The input is what is left of the stream at the position. -/
def Located (stream : List Byte) (c : Connection) : Prop := c.input = stream.drop c.position

/-- What holds of a session as long as it reads at boundaries. -/
structure Going (frames : List Frame) (s : Session) : Prop where
  located : Located (wire host frames) s.connection
  pending : s.status ≠ .aborted

variable {host} {frames : List Frame} {s : Session}

theorem InStep.ended (aligned : Aligned host frames s.connection) (inactive : s.active = false) :
    InStep host frames s := by
  constructor
  · exact aligned
  · intro active
    rw [inactive] at active
    cases active
  · intro active
    rw [inactive] at active
    cases active

theorem serve_short (world : World) (short : s.connection.input.length < packetSize) :
    (serve host world s).connection.headers = s.connection.headers ∧
      (serve host world s).active = false := by
  unfold serve
  rw [receive_short false short]
  exact ⟨rfl, rfl⟩

/-- A round that finds a packet: its header is read, and then the request is served. -/
theorem serve_frame (world : World) {frame : Frame} {after : List Frame}
    (input : s.connection.input = frame.bytes host ++ wire host after) :
    let c : Connection :=
      { s.connection with
        input := frame.payload ++ wire host after
        position := s.connection.position + packetSize
        headers := s.connection.headers ++ [s.connection.position] }
    let served := request host world frame.packet.type s.status c
    let next := serve host world s
    next.connection.headers = served.1.headers ∧
      (next.active = true → served.2 ≠ none ∧ frame.packet.type ≠ commitPkt ∧
        next.connection.input = served.1.input ∧
        next.connection.position = served.1.position ∧ next.status ≠ .aborted) := by
  dsimp only
  unfold serve
  rw [receive_frame input]
  dsimp only
  split
  · rename_i c' read
    exact ⟨by rw [read], fun active => by cases active⟩
  · rename_i c' status blob read
    rw [read]
    split
    · exact ⟨rfl, fun active => by cases active⟩
    · refine ⟨rfl, fun active => ?_⟩
      simp only [Bool.not_eq_true', Bool.or_eq_false_iff, decide_eq_false_iff_not] at active
      exact ⟨by simp, active.1, rfl, rfl, active.2⟩

theorem serve_inStep (world : World) (inStep : InStep host frames s) (active : s.active = true)
    (fits : RequestFits host s.connection) : InStep host frames (serve host world s) := by
  have ended : s.connection.input.length < packetSize → InStep host frames (serve host world s) := by
    intro short
    obtain ⟨headers, inactive⟩ := @serve_short host s world short
    apply InStep.ended
    · unfold Aligned
      rw [headers]
      exact inStep.aligned
    · exact inactive
  rcases inStep.settled active with here | short
  · rcases here.cases with short | ⟨before, frame, after, split, input, position⟩
    · exact ended short
    · obtain ⟨headers, goesOn⟩ := serve_frame world input
      have fit := fits frame.packet (nextRequest_frame input)
      have read : Aligned host frames
          { s.connection with
            input := frame.payload ++ wire host after
            position := s.connection.position + packetSize
            headers := s.connection.headers ++ [s.connection.position] } :=
        aligned_snoc inStep.aligned here.boundary rfl
      by_cases last : frame.packet.type = commitPkt
      · rw [last, request_commit] at headers
        apply InStep.ended
        · unfold Aligned
          rw [headers]
          exact read
        · by_contra active
          exact (goesOn (by simpa using active)).2.1 last
      · have settled : Settled host frames
            { s.connection with
              input := frame.payload ++ wire host after
              position := s.connection.position + packetSize
              headers := s.connection.headers ++ [s.connection.position] } := by
          have length := frame.bytes_length host
          rcases fit with zero | commit | short
          · have sized := frame.sized
            rw [zero] at sized
            have empty : frame.payload = [] := List.eq_nil_of_length_eq_zero sized.symm
            rw [empty] at length ⊢
            apply Or.inl
            apply AtBoundary.next split rfl
            rw [length, ← position]
            rfl
          · exact absurd commit last
          · rw [input, List.length_append, length] at short
            apply Or.inr
            change (frame.payload ++ wire host after).length < packetSize
            rw [List.length_append]
            omega
        have kept := request_kept (fun _ => receive_kept) world frame.packet.type s.status read
          settled
        constructor
        · unfold Aligned
          rw [headers]
          exact kept.always
        · intro active
          obtain ⟨returned, -, sameInput, samePosition, -⟩ := goesOn active
          have settled := kept.settled returned
          unfold Settled AtBoundary at settled ⊢
          rw [sameInput, samePosition]
          exact settled
        · exact fun active => (goesOn active).2.2.2.2
  · exact ended short

/-- A session all of whose requests have fit. -/
theorem Reached.inStep
    (fits : ∀ s, Reached host frames s → s.active = true → RequestFits host s.connection)
    (reached : Reached host frames s) : InStep host frames s := by
  induction reached with
  | refl =>
      constructor
      · intro position member
        cases member
      · exact fun _ => .inl ⟨[], frames, rfl, rfl, rfl⟩
      · intro _ aborted
        cases aborted
  | @tail s next world before permitted taken ih =>
      unfold step at taken
      split at taken
      · rename_i active
        cases taken
        exact serve_inStep world ih active (fits s before active)
      · cases taken

/-- No packet begins inside another. -/
theorem not_boundary_inside {before after : List Frame} {frame : Frame}
    (split : frames = before ++ frame :: after) (inside : Nat) (positive : 0 < inside)
    (bound : inside < (frame.bytes host).length) :
    ¬ Boundary host frames ((wire host before).length + inside) := by
  rintro ⟨front, back, split', position⟩
  rw [split] at split'
  rcases List.append_eq_append_iff.mp split' with ⟨more, longer, rest⟩ | ⟨more, shorter, rest⟩
  · rw [longer, wire_append, List.length_append] at position
    cases more with
    | nil =>
        rw [wire_nil, List.length_nil] at position
        omega
    | cons head more =>
        have same : frame = head := (List.cons.inj rest).1
        rw [wire_cons, List.length_append, ← same] at position
        omega
  · rw [shorter, wire_append, List.length_append] at position
    omega

section Locating

variable {stream : List Byte} {c : Connection}

theorem protoRecvPacket_rest (wanted : Bool) {input rest : List Byte} {received : Received}
    (read : protoRecvPacket host wanted input = some (received, rest)) :
    rest = input.drop (input.length - rest.length) := by
  have ended : (some (Received.failed, []) : Option (Received × List Byte)) = some (received, rest) →
      rest = input.drop (input.length - rest.length) := by
    intro same
    cases same
    simp
  unfold protoRecvPacket at read
  split at read
  · exact ended read
  · dsimp only at read
    split at read
    · split at read
      · cases read
      · split at read
        · exact ended read
        · cases read
          rw [List.drop_drop, List.length_drop]
          congr 1
          simp only [List.length_drop] at *
          omega
    · cases read
      rw [List.length_drop]
      congr 1
      omega

theorem receive_located (wanted : Bool) (located : Located stream c) :
    (receive host wanted c).2 ≠ none → Located stream (receive host wanted c).1 := by
  unfold receive
  dsimp only
  split
  · exact fun returned => absurd rfl returned
  · rename_i received rest read
    intro
    change rest = stream.drop (c.position + (c.input.length - rest.length))
    rw [← List.drop_drop, ← located]
    exact protoRecvPacket_rest wanted read

/-- Headers are only added. -/
theorem receive_headers (wanted : Bool) :
    (receive host wanted c).1.headers =
      if c.input.length < packetSize then c.headers else c.headers ++ [c.position] := by
  unfold receive
  dsimp only
  cases protoRecvPacket host wanted c.input <;> rfl

theorem request_located (world : World) (type : Byte) (status : TransStatus)
    (located : Located stream c) (returned : (request host world type status c).2 ≠ none) :
    Located stream (request host world type status c).1 := by
  have reads : ∀ c, True → Located stream c →
      Kept (fun _ => True) (Located stream) (receive host true c) := by
    intro c _ located
    exact ⟨trivial, receive_located true located⟩
  exact (request_kept reads world type status trivial located).settled returned

/-- A header that has been read stays read. -/
theorem request_headers (world : World) (type : Byte) (status : TransStatus) {position : Nat}
    (member : position ∈ c.headers) : position ∈ (request host world type status c).1.headers := by
  have reads : ∀ c : Connection, position ∈ c.headers → True →
      Kept (fun c => position ∈ c.headers) (fun _ => True) (receive host true c) := by
    intro c member _
    constructor
    · rw [receive_headers]
      split
      · exact member
      · exact List.mem_append_left _ member
    · exact fun _ => trivial
  exact (request_kept reads world type status member trivial).always

/-- The request of a PUT or a GET packet begins with a read. -/
theorem request_reads (world : World) {type : Byte} (status : TransStatus)
    (reads : type = putPkt ∨ type = getPkt) (long : ¬ c.input.length < packetSize) :
    c.position ∈ (request host world type status c).1.headers := by
  have first : c.position ∈ (receive host true c).1.headers := by
    rw [receive_headers, if_neg long]
    simp
  unfold request
  rcases reads with rfl | rfl
  · rw [if_pos rfl]
    dsimp only
    unfold xactoPut
    split
    · simpa only [*] using first
    · simpa only [*] using first
    · rename_i c' keyPkt key read
      rw [read] at first
      have second : c.position ∈ (receive host true c').1.headers := by
        rw [receive_headers]
        split
        · exact first
        · exact List.mem_append_left _ first
      split
      · simpa only [*] using second
      · simpa only [*] using second
      · split
        · simpa only [*] using second
        · simpa only [*] using second
  · rw [if_neg (by decide), if_pos rfl]
    unfold xactoGet
    split
    · simpa only [*] using first
    · simpa only [*] using first
    · split
      · simpa only [*] using first
      · simpa only [*] using first

end Locating

/-- A round of the loop reads the header at the position. -/
theorem serve_reads (world : World) (long : ¬ s.connection.input.length < packetSize) :
    s.connection.position ∈ (serve host world s).connection.headers := by
  have first : s.connection.position ∈ (receive host false s.connection).1.headers := by
    rw [receive_headers, if_neg long]
    simp
  unfold serve
  split
  · simpa only [*] using first
  · simpa only [*] using first
  · rename_i c pkt _ read
    rw [read] at first
    have later := @request_headers host c world pkt.type s.status _ first
    split
    · simpa only [*] using later
    · split
      · simpa only [*] using later
      · simpa only [*] using later

def quiet : World where
  first := ⟨0, 0⟩
  second := ⟨0, 0⟩
  storePut _ _ := some .pending
  storeGet _ := some (.pending, none)
  transCommit := some .committed

theorem Reached.served (reached : Reached host frames s) (world : World) (active : s.active = true) :
    Reached host frames (serve host world s) := by
  apply Runs.Reachable.tail world reached trivial
  rw [step, if_pos active]

/-- The payload of a request that is not the last one is read as a header. -/
theorem Reached.reads_payload (reached : Reached host frames s) (active : s.active = true)
    (pending : s.status ≠ .aborted) {frame : Frame} {after : List Frame}
    (input : s.connection.input = frame.bytes host ++ wire host after)
    (goesOn : frame.packet.type ≠ commitPkt) (long : 2 * packetSize ≤ s.connection.input.length) :
    ∃ next, Reached host frames next ∧
      s.connection.position + packetSize ∈ next.connection.headers := by
  have follows : ¬ (frame.payload ++ wire host after).length < packetSize := by
    have length := frame.bytes_length host
    rw [input, List.length_append, length] at long
    rw [List.length_append]
    omega
  have later := reached.served quiet active
  by_cases reads : frame.packet.type = putPkt ∨ frame.packet.type = getPkt
  · refine ⟨_, later, ?_⟩
    rw [(serve_frame quiet input).1]
    exact request_reads quiet s.status reads follows
  · -- A request of another type changes nothing, and the next round reads on.
    rw [not_or] at reads
    have other : serve host quiet s =
        { connection :=
            { input := frame.payload ++ wire host after
              position := s.connection.position + packetSize
              headers := s.connection.headers ++ [s.connection.position]
              output := s.connection.output ++
                ((setPktTime quiet.first (packetCreate replyPkt s.status)).toNetwork host).bytes
                  host }
          status := s.status
          active := true } := by
      unfold serve
      rw [receive_frame input]
      simp [request, reads, goesOn, pending, xactoReply, protoSendPacket]
    refine ⟨_, later.served quiet (by rw [other]), ?_⟩
    have read := @serve_reads host (serve host quiet s) quiet (by rw [other]; exact follows)
    rw [other] at read ⊢
    exact read

/-- A session that reads at a boundary finds a packet there. -/
theorem Going.frame (going : Going host frames s)
    (here : Boundary host frames s.connection.position)
    (long : ¬ s.connection.input.length < packetSize) :
    ∃ before frame after, frames = before ++ frame :: after ∧
      s.connection.input = frame.bytes host ++ wire host after ∧
      s.connection.position = (wire host before).length := by
  obtain ⟨before, after, split, position⟩ := here
  have input : s.connection.input = wire host after := by
    rw [going.located, position, split, wire_append, List.drop_left]
  have atBoundary : AtBoundary host frames s.connection := ⟨before, after, split, input, position⟩
  exact atBoundary.cases.resolve_left long

theorem Reached.frame (aligned : ∀ s, Reached host frames s → Aligned host frames s.connection)
    (reached : Reached host frames s) (active : s.active = true)
    (going : Going host frames s) (long : ¬ s.connection.input.length < packetSize) :
    ∃ before frame after, frames = before ++ frame :: after ∧
      s.connection.input = frame.bytes host ++ wire host after ∧
      s.connection.position = (wire host before).length := by
  apply going.frame _ long
  apply aligned _ (reached.served quiet active)
  exact serve_reads quiet long

theorem Reached.going (aligned : ∀ s, Reached host frames s → Aligned host frames s.connection)
    (reached : Reached host frames s) (active : s.active = true) :
    Going host frames s := by
  induction reached with
  | refl =>
      constructor
      · rfl
      · intro aborted
        cases aborted
  | @tail s next world before permitted taken ih =>
      unfold step at taken
      split at taken
      · rename_i wasActive
        cases taken
        have long : ¬ s.connection.input.length < packetSize := by
          intro short
          have ended := (@serve_short host s world short).2
          rw [active] at ended
          cases ended
        have going := ih wasActive
        obtain ⟨before', frame, after, split, input, position⟩ :=
          Reached.frame aligned before wasActive going long
        obtain ⟨returned, -, sameInput, samePosition, pending⟩ := (serve_frame world input).2 active
        constructor
        · unfold Located
          rw [sameInput, samePosition]
          apply request_located world frame.packet.type s.status _ returned
          change frame.payload ++ wire host after =
            (wire host frames).drop (s.connection.position + packetSize)
          rw [← List.drop_drop, ← going.located, input, drop_header]
        · exact pending
      · cases taken

/-- The headers that a client's packets make the server read all begin at packet boundaries
exactly if every request but the last that has a payload is followed by less than a header. -/
theorem aligned_iff (host : Host) (frames : List Frame) :
    (∀ s, Reached host frames s → Aligned host frames s.connection) ↔
      ∀ s, Reached host frames s → s.active = true → RequestFits host s.connection := by
  constructor
  · intro aligned s reached active pkt found
    have long : ¬ s.connection.input.length < packetSize := by
      intro short
      rw [nextRequest, if_pos short] at found
      cases found
    have going := Reached.going aligned reached active
    obtain ⟨before, frame, after, split, input, position⟩ :=
      reached.frame aligned active going long
    rw [nextRequest_frame input] at found
    cases found
    by_contra unfit
    rw [not_or, not_or, Nat.not_lt] at unfit
    obtain ⟨sized, goesOn, follows⟩ := unfit
    obtain ⟨next, later, read⟩ :=
      reached.reads_payload active going.pending input goesOn follows
    have boundary := aligned next later _ read
    rw [position] at boundary
    apply not_boundary_inside split packetSize (by decide) _ boundary
    have nonempty : frame.payload.length ≠ 0 := by
      rw [← frame.sized]
      bv_omega
    rw [Frame.bytes_length]
    omega
  · intro fits s reached
    exact (reached.inStep fits).aligned

/-- A packet of the type DATA with the payload of sixteen zero bytes. -/
def dataFrame : Frame where
  packet := { packetCreate dataPkt .pending with size := 16 }
  payload := List.replicate 16 0
  sized := rfl

theorem payload_read_as_header :
    ¬ ∀ (host : Host) (frames : List Frame) (s : Session),
      Reached host frames s → Aligned host frames s.connection := by
  intro always
  have input : (Session.start (wire littleEndian [dataFrame])).connection.input =
      dataFrame.bytes littleEndian ++ wire littleEndian [] := rfl
  obtain ⟨next, reached, read⟩ := Reached.reads_payload .refl rfl (by decide) input (by decide)
    (by rw [input, List.length_append, Frame.bytes_length]; decide)
  have inside := @not_boundary_inside littleEndian [dataFrame] [] [] dataFrame rfl packetSize
    (by decide) (by rw [Frame.bytes_length]; decide)
  exact inside (always _ _ next reached _ read)

end Audible.Server
