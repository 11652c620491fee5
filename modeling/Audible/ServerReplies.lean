import Audible.ServerSession

set_option autoImplicit false

/- What a client that frames its requests as the server reads them gets back: for each request in
turn the packets of its reply, and nothing after the last one. -/
namespace Audible.Server

open Protocol Store Xacto

/-- There is a buffer for the payload and the byte after it. -/
def Buffered (frame : Frame) : Prop := frame.packet.size + 1 ≠ 0

/-- What follows the header of a request. -/
inductive Body
  | put (key value : Frame)
  | get (key : Frame)
  | alone

def Body.Follows (type : Byte) : Body → Prop
  | .put key value => type = putPkt ∧ Buffered key ∧ Buffered value
  | .get key => type = getPkt ∧ Buffered key
  | .alone => type ≠ putPkt ∧ type ≠ getPkt

def Body.frames : Body → List Frame
  | .put key value => [key, value]
  | .get key => [key]
  | .alone => []

/-- A request whose header announces no payload. -/
structure Request where
  head : Packet
  body : Body
  plain : head.size = 0
  follows : body.Follows head.type

def Request.header (request : Request) : Frame where
  packet := request.head
  payload := []
  sized := by rw [request.plain]; rfl

def Request.frames (request : Request) : List Frame := request.header :: request.body.frames

/-- The blob made of a payload. -/
def blobOf (frame : Frame) : Option Blob :=
  blobCreate (if frame.payload = [] then none else some frame.payload) frame.packet.size.toNat

/-- What the world answers to a request; the status stays as it was for a type that is none. -/
def Request.answer (request : Request) (world : World) (status : TransStatus) :
    Option (TransStatus × Option Blob) :=
  match request.body with
  | .put key value => do
      let key ← keyCreate (blobOf key)
      let status ← world.storePut key (blobOf value)
      return (status, none)
  | .get key => do
      let key ← keyCreate (blobOf key)
      world.storeGet key
  | .alone =>
      if request.head.type = commitPkt then world.transCommit.map fun status => (status, none)
      else some (status, none)

/-- What is sent of a blob. -/
def delivered (blob : Blob) : Option (List Byte) := (blobCopy blob).map (List.take blob.size)

/-- What `proto_recv_packet` returns for the packets of a reply. -/
def replies (world : World) (type : Byte) (status : TransStatus) (blob : Option Blob) :
    List Received :=
  .packet (setPktTime world.first (packetCreate replyPkt status)) none ::
    if type = getPkt then
      let data := setPktTime world.second (packetCreate dataPkt status)
      match blob with
      | none => [.packet { data with null := 1 } none]
      | some blob =>
          [.packet { data with size := BitVec.ofNat 32 blob.size }
            (if blob.size = 0 then none else delivered blob)]
    else []

/-- The replies to a sequence of requests, up to the first commit, abort or crash. -/
def dialogue : TransStatus → List (World × Request) → List Received
  | _, [] => []
  | status, (world, request) :: turns =>
      match request.answer world status with
      | none => []
      | some (status, blob) =>
          replies world request.head.type status blob ++
            if request.head.type = commitPkt ∨ status = .aborted then [] else dialogue status turns

/-- The blob's own copy has as many bytes as the blob's size says. -/
def Intact (blob : Blob) : Prop :=
  blob.size < 2 ^ 31 ∧ (blob.content = none → blob.size = 0) ∧
    ∀ content, blob.content = some content → blob.size ≤ content.length + 1

def World.Intact (world : World) : Prop :=
  ∀ key status blob, world.storeGet key = some (status, some blob) → Server.Intact blob

variable {host : Host}

/-- The packets of a reply with their data. -/
def replyMessage (time : Timestamp) (status : TransStatus) : Message where
  packet := setPktTime time (packetCreate replyPkt status)
  data := none
  sized := rfl
  small := by decide

def nullMessage (time : Timestamp) (status : TransStatus) : Message where
  packet := { setPktTime time (packetCreate dataPkt status) with null := 1 }
  data := none
  sized := rfl
  small := by decide

def valueMessage (time : Timestamp) (status : TransStatus) (value : Option (List Byte))
    (small : (value.getD []).length < 2 ^ 31) : Message where
  packet := { setPktTime time (packetCreate dataPkt status) with
    size := BitVec.ofNat 32 (value.getD []).length }
  data := value
  sized := by
    change (BitVec.ofNat 32 (value.getD []).length).toNat = (value.getD []).length
    rw [BitVec.toNat_ofNat, Nat.mod_eq_of_lt (by omega)]
  small := small

theorem messages_received (messages : List Message) (expected : List Received)
    (same : messages.map (fun message => message.frame.received) = expected) (more : List Byte) :
    receiveAll host expected.length (wire host (messages.map Message.frame) ++ more) =
      some (expected, more) := by
  rw [← same, List.length_map]
  exact receiveAll_wire host messages more

theorem sends_reply (time : Timestamp) (status : TransStatus) :
    protoSendPacket host (setPktTime time (packetCreate replyPkt status)) none =
      some ((setPktTime time (packetCreate replyPkt status)).toNetwork host,
        (replyMessage time status).frame.bytes host) :=
  protoSendPacket_message host (replyMessage time status)

/-- A reply without data. -/
theorem xactoReply_plain (world : World) (type : Byte) (status : TransStatus)
    (blob : Option Blob) (other : type ≠ getPkt) :
    xactoReply host world.first world.second type status blob =
      some (wire host ([replyMessage world.first status].map Message.frame)) := by
  simp only [xactoReply, sends_reply, Option.bind_eq_bind, Option.bind_some, if_neg other, pure,
    List.map_cons, List.map_nil, wire_cons, wire_nil, List.append_nil]

/-- A reply without a value: the size of the packet has been converted twice. -/
theorem xactoReply_null (zero : host.htonl 0 = 0) (world : World) (status : TransStatus) :
    xactoReply host world.first world.second getPkt status none =
      some (wire host ([replyMessage world.first status, nullMessage world.second status].map
        Message.frame)) := by
  have sent := protoSendPacket_message host (nullMessage world.second status)
  have packet : { setPktTime world.second { (setPktTime world.first
      (packetCreate replyPkt status)).toNetwork host with type := dataPkt } with null := 1 } =
        (nullMessage world.second status).packet := by
    simp only [setPktTime, packetCreate, Packet.toNetwork, nullMessage, zero]
  simp only [xactoReply, sends_reply, Option.bind_eq_bind, Option.bind_some, if_true]
  rw [packet]
  change (protoSendPacket host _ (nullMessage world.second status).data).bind _ = _
  rw [sent]
  simp only [Option.bind_some, pure, List.map_cons, List.map_nil, wire_cons, wire_nil,
    List.append_nil]

theorem Intact.delivered_length {blob : Blob} (intact : Intact blob) :
    ((delivered blob).getD []).length = blob.size := by
  unfold delivered blobCopy
  cases stored : blob.content with
  | none => exact (intact.2.1 stored).symm
  | some content =>
      have enough := intact.2.2 content stored
      rw [Option.map_some, Option.map_some, Option.getD_some, List.length_take, List.length_append]
      exact Nat.min_eq_left enough

theorem xactoReply_value (world : World) (status : TransStatus) {blob : Blob}
    (intact : Intact blob) (small : ((delivered blob).getD []).length < 2 ^ 31) :
    xactoReply host world.first world.second getPkt status (some blob) =
      some (wire host ([replyMessage world.first status, valueMessage world.second status
        (delivered blob) small].map Message.frame)) := by
  have size := intact.delivered_length
  have packet : dataHeader host world.first world.second status blob.size =
      (valueMessage world.second status (delivered blob) small).packet := by
    simp only [dataHeader, setPktTime, packetCreate, Packet.toNetwork, valueMessage, size]
  have plain : ∀ pkt, protoSendPacket host pkt none =
      some (pkt.toNetwork host, (pkt.toNetwork host).bytes host) := fun _ => rfl
  have reply : (replyMessage world.first status).frame.bytes host =
      ((setPktTime world.first (packetCreate replyPkt status)).toNetwork host).bytes host :=
    List.append_nil _
  rcases Option.eq_none_or_eq_some blob.content with stored | ⟨content, stored⟩
  · have copied : blobCopy blob = none := by rw [blobCopy, stored, Option.map_none]
    have data : (valueMessage world.second status (delivered blob) small).frame.payload = [] := by
      simp only [Message.frame, valueMessage, delivered, copied, Option.map_none, Option.getD_none]
    simp only [xactoReply, plain, Option.bind_eq_bind, Option.bind_some, if_true, copied, pure]
    change some (_ ++ ((dataHeader host world.first world.second status blob.size).toNetwork
      host).bytes host) = _
    simp only [packet, List.map_cons, List.map_nil, wire_cons, wire_nil, List.append_nil, reply]
    rw [Frame.bytes, data, List.append_nil]
    rfl
  · have copied : blobCopy blob = some (content ++ [0#8]) := by
      rw [blobCopy, stored, Option.map_some]
    have enough := intact.2.2 content stored
    have data : (valueMessage world.second status (delivered blob) small).frame.payload =
        (content ++ [0#8]).take blob.size := by
      simp only [Message.frame, valueMessage, delivered, copied, Option.map_some, Option.getD_some]
    rw [xactoReply_blob host world.first world.second status blob _ copied intact.1
      (by rw [List.length_append]; exact enough), packet]
    simp only [List.map_cons, List.map_nil, wire_cons, wire_nil, List.append_nil, reply]
    rw [Frame.bytes, data]
    rfl

theorem valueMessage_received (time : Timestamp) (status : TransStatus) {blob : Blob}
    (intact : Intact blob) (small : ((delivered blob).getD []).length < 2 ^ 31) :
    (valueMessage time status (delivered blob) small).frame.received =
      .packet { setPktTime time (packetCreate dataPkt status) with
        size := BitVec.ofNat 32 blob.size } (if blob.size = 0 then none else delivered blob) := by
  have size := intact.delivered_length
  have payload : (valueMessage time status (delivered blob) small).frame.payload =
      (delivered blob).getD [] := rfl
  have packet : (valueMessage time status (delivered blob) small).frame.packet =
      { setPktTime time (packetCreate dataPkt status) with size := BitVec.ofNat 32 blob.size } := by
    rw [← size]
    rfl
  rw [Frame.received, payload, packet]
  by_cases empty : blob.size = 0
  · rw [if_pos empty, if_pos (List.length_eq_zero_iff.mp (size.trans empty))]
  · rw [if_neg empty]
    rcases Option.eq_none_or_eq_some (delivered blob) with lost | ⟨value, kept⟩
    · rw [lost, Option.getD_none] at size
      exact absurd size.symm empty
    · rw [kept, Option.getD_some] at size
      rw [kept, Option.getD_some, if_neg]
      rintro rfl
      exact empty size.symm

/-- Whatever is replied, the client reads as the packets of the reply. -/
theorem xactoReply_received (zero : host.htonl 0 = 0) (world : World) (type : Byte)
    (status : TransStatus) (blob : Option Blob)
    (intact : ∀ value, blob = some value → type = getPkt → Intact value) :
    ∃ sent, xactoReply host world.first world.second type status blob = some sent ∧
      ∀ more, receiveAll host (replies world type status blob).length (sent ++ more) =
        some (replies world type status blob, more) := by
  by_cases get : type = getPkt
  · subst get
    cases blob with
    | none =>
        refine ⟨_, xactoReply_null zero world status, messages_received _ _ ?_⟩
        rfl
    | some value =>
        have whole := intact value rfl rfl
        have small : ((delivered value).getD []).length < 2 ^ 31 := by
          rw [whole.delivered_length]
          exact whole.1
        refine ⟨_, xactoReply_value world status whole small, messages_received _ _ ?_⟩
        simp only [List.map_cons, List.map_nil, valueMessage_received world.second status whole]
        rfl
  · refine ⟨_, xactoReply_plain world type status blob get, messages_received _ _ ?_⟩
    rw [replies, if_neg get]
    rfl

variable {c : Connection} {s : Session}

theorem receive_buffered {frame : Frame} {after : List Frame} (fits : Buffered frame)
    (input : c.input = frame.bytes host ++ wire host after) :
    receive host true c =
      ({ c with
          input := wire host after
          position := c.position + (frame.bytes host).length
          headers := c.headers ++ [c.position] }, some frame.received) := by
  rw [receive_frame_wanted input, if_neg fits]

theorem xactoGet_answer (world : World) {key : Frame} {after : List Frame} (fits : Buffered key)
    (input : c.input = key.bytes host ++ wire host after) :
    (xactoGet host world c).2 = (keyCreate (blobOf key)).bind world.storeGet ∧
      (xactoGet host world c).1.output = c.output ∧
      (xactoGet host world c).1.input = wire host after := by
  unfold xactoGet
  rw [receive_buffered fits input, Frame.received]
  dsimp only
  rw [← blobOf]
  cases keyCreate (blobOf key) with
  | none => exact ⟨rfl, rfl, rfl⟩
  | some made => exact ⟨rfl, rfl, rfl⟩

theorem xactoPut_answer (world : World) {key value : Frame} {after : List Frame}
    (keyFits : Buffered key) (valueFits : Buffered value)
    (input : c.input = key.bytes host ++ wire host (value :: after)) :
    (xactoPut host world c).2 =
        (keyCreate (blobOf key)).bind (fun made => world.storePut made (blobOf value)) ∧
      (xactoPut host world c).1.output = c.output ∧
      (xactoPut host world c).1.input = wire host after := by
  unfold xactoPut
  rw [receive_buffered keyFits input, Frame.received]
  dsimp only
  rw [receive_buffered valueFits rfl, Frame.received]
  dsimp only
  rw [← blobOf, ← blobOf]
  cases keyCreate (blobOf key) with
  | none => exact ⟨rfl, rfl, rfl⟩
  | some made => exact ⟨rfl, rfl, rfl⟩

/-- What the server makes of a body is what the world answers, and the body is consumed. -/
theorem request_answer (asked : Request) (world : World) (status : TransStatus)
    (after : List Frame) (input : c.input = wire host (asked.body.frames ++ after)) :
    (request host world asked.head.type status c).2 = asked.answer world status ∧
      (request host world asked.head.type status c).1.output = c.output ∧
      (request host world asked.head.type status c).1.input = wire host after := by
  have follows := asked.follows
  unfold request Request.answer
  cases body : asked.body with
  | put key value =>
      rw [body] at follows input
      obtain ⟨type, keyFits, valueFits⟩ := follows
      obtain ⟨answer, output, unread⟩ := xactoPut_answer world keyFits valueFits input
      rw [if_pos type]
      refine ⟨?_, output, unread⟩
      dsimp only
      rw [answer]
      cases keyCreate (blobOf key) with
      | none => rfl
      | some made =>
          simp only [Option.bind_eq_bind, Option.bind_some]
          cases world.storePut made (blobOf value) <;> rfl
  | get key =>
      rw [body] at follows input
      obtain ⟨type, fits⟩ := follows
      have answer := xactoGet_answer world fits input
      rw [if_neg (by rw [type]; decide), if_pos type]
      exact answer
  | alone =>
      rw [body] at follows input
      rw [if_neg follows.1, if_neg follows.2]
      split
      · exact ⟨rfl, rfl, input⟩
      · exact ⟨rfl, rfl, input⟩

theorem receive_request (asked : Request) (after : List Frame)
    (input : c.input = wire host (asked.frames ++ after)) :
    ∃ read, receive host false c = (read, some (.packet asked.head none)) ∧
      read.input = wire host (asked.body.frames ++ after) ∧ read.output = c.output :=
  ⟨_, @receive_frame host c asked.header (asked.body.frames ++ after) input, rfl, rfl⟩

/-- A request that the server does not survive is not replied to. -/
theorem serve_unanswered (world : World) {asked : Request} {after : List Frame}
    (input : s.connection.input = wire host (asked.frames ++ after))
    (lost : asked.answer world s.status = none) :
    (serve host world s).active = false ∧
      (serve host world s).connection.output = s.connection.output := by
  obtain ⟨read, received, unread, output⟩ := receive_request asked after input
  obtain ⟨answer, kept, -⟩ := request_answer asked world s.status after unread
  rw [lost] at answer
  unfold serve
  rw [received]
  dsimp only
  generalize request host world asked.head.type s.status read = served at *
  obtain ⟨left, answered⟩ := served
  dsimp only at answer kept
  subst answer
  exact ⟨rfl, kept.trans output⟩

theorem serve_answered (world : World) {asked : Request} {after : List Frame}
    {status : TransStatus} {blob : Option Blob} {sent : List Byte}
    (input : s.connection.input = wire host (asked.frames ++ after))
    (answer : asked.answer world s.status = some (status, blob))
    (replied : xactoReply host world.first world.second asked.head.type status blob = some sent) :
    (serve host world s).active = !(asked.head.type = commitPkt || status = .aborted) ∧
      (serve host world s).status = status ∧
      (serve host world s).connection.output = s.connection.output ++ sent ∧
      (serve host world s).connection.input = wire host after := by
  obtain ⟨read, received, unread, output⟩ := receive_request asked after input
  obtain ⟨same, kept, rest⟩ := request_answer asked world s.status after unread
  rw [answer] at same
  unfold serve
  rw [received]
  dsimp only
  generalize request host world asked.head.type s.status read = served at *
  obtain ⟨left, answered⟩ := served
  dsimp only at same kept rest
  subst same
  dsimp only
  rw [replied]
  exact ⟨rfl, rfl, by rw [← output, ← kept], rest⟩

theorem receiveAll_append {m n : Nat} {input rest more : List Byte} {first second : List Received}
    (read : receiveAll host m input = some (first, rest))
    (read' : receiveAll host n rest = some (second, more)) :
    receiveAll host (m + n) input = some (first ++ second, more) := by
  induction m generalizing input first with
  | zero =>
      rw [receiveAll, Option.some.injEq, Prod.mk.injEq] at read
      obtain ⟨rfl, rfl⟩ := read
      rw [Nat.zero_add]
      exact read'
  | succ m ih =>
      rw [receiveAll] at read
      simp only [Option.bind_eq_bind, Option.bind_eq_some_iff] at read
      obtain ⟨⟨received, left⟩, once, read⟩ := read
      dsimp only at read
      split at read
      · cases read
      · rename_i succeeded
        simp only [Option.bind_eq_some_iff, pure, Option.some.injEq, Prod.mk.injEq] at read
        obtain ⟨⟨others, unread⟩, later, rfl, rfl⟩ := read
        rw [Nat.succ_add, receiveAll, once]
        simp only [Option.bind_eq_bind, Option.bind_some, if_neg succeeded, ih later, pure,
          List.cons_append]

/-- The rounds of the loop of `xacto_client_service`, for as long as it is active. -/
def serveAll (host : Host) (worlds : List World) (s : Session) : Session :=
  worlds.foldl (fun s world => (step host s world).getD s) s

theorem serveAll_cons (world : World) (worlds : List World) (active : s.active = true) :
    serveAll host (world :: worlds) s = serveAll host worlds (serve host world s) := by
  rw [serveAll, List.foldl_cons, step, if_pos active]
  rfl

theorem serveAll_ended (worlds : List World) (ended : s.active = false) :
    serveAll host worlds s = s := by
  induction worlds with
  | nil => rfl
  | cons world worlds ih =>
      rw [serveAll, List.foldl_cons, step, if_neg (by rw [ended]; exact Bool.false_ne_true)]
      exact ih

/-- Only a GET request yields a value, and it is one that the world has returned. -/
theorem Request.answer_intact {asked : Request} {world : World} {status status' : TransStatus}
    {value : Blob} (intact : world.Intact)
    (answer : asked.answer world status = some (status', some value)) : Intact value := by
  unfold Request.answer at answer
  split at answer
  · simp [Option.bind_eq_some_iff] at answer
  · simp only [Option.bind_eq_bind, Option.bind_eq_some_iff] at answer
    obtain ⟨key, -, answer⟩ := answer
    exact intact _ _ _ answer
  · split at answer
    · simp at answer
    · cases answer

theorem serveAll_dialogue (zero : host.htonl 0 = 0) (turns : List (World × Request))
    (after : List Frame) (intact : ∀ turn ∈ turns, turn.1.Intact) (active : s.active = true)
    (input : s.connection.input =
      wire host (turns.flatMap (fun turn => turn.2.frames) ++ after)) :
    (∃ sent, (serveAll host (turns.map Prod.fst) s).connection.output =
        s.connection.output ++ sent ∧
      ∀ more, receiveAll host (dialogue s.status turns).length (sent ++ more) =
        some (dialogue s.status turns, more)) ∧
      ((serveAll host (turns.map Prod.fst) s).active = true →
        (serveAll host (turns.map Prod.fst) s).connection.input = wire host after) := by
  induction turns generalizing s with
  | nil => exact ⟨⟨[], (List.append_nil _).symm, fun more => rfl⟩, fun _ => input⟩
  | cons turn turns ih =>
      obtain ⟨world, asked⟩ := turn
      rw [List.flatMap_cons, List.append_assoc] at input
      rw [List.map_cons, serveAll_cons world _ active]
      have others : ∀ turn ∈ turns, turn.1.Intact := fun turn member => intact turn (by simp [member])
      cases answer : asked.answer world s.status with
      | none =>
          obtain ⟨ended, output⟩ := serve_unanswered world input answer
          rw [serveAll_ended _ ended, dialogue, answer]
          refine ⟨⟨[], output.trans (List.append_nil _).symm, fun more => rfl⟩, fun still => ?_⟩
          rw [ended] at still
          cases still
      | some answered =>
          obtain ⟨status, blob⟩ := answered
          have whole : ∀ value, blob = some value → asked.head.type = getPkt → Intact value := by
            rintro value rfl -
            exact Request.answer_intact (intact (world, asked) (by simp)) answer
          obtain ⟨sent, replied, heard⟩ :=
            @xactoReply_received host zero world asked.head.type status blob whole
          obtain ⟨goesOn, next, output, unread⟩ := serve_answered world input answer replied
          rw [dialogue, answer]
          dsimp only
          by_cases last : asked.head.type = commitPkt ∨ status = .aborted
          · have ended : (serve host world s).active = false := by
              rw [goesOn, Bool.not_eq_false', Bool.or_eq_true, decide_eq_true_iff,
                decide_eq_true_iff]
              exact last
            rw [serveAll_ended _ ended, if_pos last, List.append_nil]
            refine ⟨⟨sent, output, heard⟩, fun still => ?_⟩
            rw [ended] at still
            cases still
          · have still : (serve host world s).active = true := by
              rw [goesOn, Bool.not_eq_true', Bool.or_eq_false_iff, decide_eq_false_iff_not,
                decide_eq_false_iff_not, ← not_or]
              exact last
            obtain ⟨⟨later, spoken, understood⟩, rest⟩ := ih others still unread
            rw [next] at understood
            rw [if_neg last]
            refine ⟨⟨sent ++ later, ?_, fun more => ?_⟩, rest⟩
            · rw [spoken, output, List.append_assoc]
            · rw [List.length_append, List.append_assoc]
              exact receiveAll_append (heard _) (understood more)

/-- A client that frames its requests as the server reads them: whatever the world does, the bytes
sent back are the packets of the replies to the requests in turn, up to the first commit, abort or
crash, and as long as the session goes on it has read just these requests. -/
theorem conversation (zero : host.htonl 0 = 0) (turns : List (World × Request))
    (after : List Frame) (intact : ∀ turn ∈ turns, turn.1.Intact) :
    let stream := wire host (turns.flatMap (fun turn => turn.2.frames) ++ after)
    let s := serveAll host (turns.map Prod.fst) (Session.start stream)
    receiveAll host (dialogue .pending turns).length s.connection.output =
        some (dialogue .pending turns, []) ∧
      (s.active = true → s.connection.input = wire host after) := by
  dsimp only
  obtain ⟨⟨sent, output, heard⟩, rest⟩ := @serveAll_dialogue host
    (Session.start (wire host (turns.flatMap (fun turn => turn.2.frames) ++ after))) zero turns after
    intact rfl rfl
  refine ⟨?_, rest⟩
  have all := heard []
  rw [List.append_nil] at all
  rw [output]
  exact all

/-- A world in which every key has the same value of one byte. -/
def remembering : World where
  first := ⟨7, 0⟩
  second := ⟨8, 0⟩
  storePut _ _ := some .pending
  storeGet _ := some (.pending, blobCreate (some [0x76#8]) 1)
  transCommit := some .committed

theorem remembering_intact : remembering.Intact := by
  intro key status blob value
  have stored : blob = { refcnt := 1, size := 1, content := some [0x76#8] } := by
    cases value
    decide
  subst stored
  refine ⟨by decide, fun lost => absurd lost (by decide), fun content same => ?_⟩
  cases same
  decide

def keyFrame : Frame where
  packet := { packetCreate dataPkt .pending with size := 1 }
  payload := [0x6b#8]
  sized := rfl

def askValue : Request where
  head := packetCreate getPkt .pending
  body := .get keyFrame
  plain := rfl
  follows := ⟨rfl, by unfold Buffered; decide⟩

def askCommit : Request where
  head := packetCreate commitPkt .pending
  body := .alone
  plain := rfl
  follows := ⟨by decide, by decide⟩

/-- A value is read and committed: the client reads two replies and the value. -/
theorem conversation_value :
    receiveAll littleEndian
        (dialogue .pending [(remembering, askValue), (remembering, askCommit)]).length
        (serveAll littleEndian [remembering, remembering] (Session.start (wire littleEndian
          (askValue.frames ++ askCommit.frames)))).connection.output =
      some ([.packet (setPktTime ⟨7, 0⟩ (packetCreate replyPkt .pending)) none,
        .packet { setPktTime ⟨8, 0⟩ (packetCreate dataPkt .pending) with size := 1 } (some [0x76#8]),
        .packet (setPktTime ⟨7, 0⟩ (packetCreate replyPkt .committed)) none], []) := by
  have intact : ∀ turn ∈ [(remembering, askValue), (remembering, askCommit)], turn.1.Intact := by
    intro turn member
    simp only [List.mem_cons, List.not_mem_nil, or_false] at member
    rcases member with rfl | rfl <;> exact remembering_intact
  exact (@conversation littleEndian (by decide) [(remembering, askValue), (remembering, askCommit)]
    [] intact).1

end Audible.Server
