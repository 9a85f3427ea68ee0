import QChat.Messages
import QChat.Methods

/-!
# Reception of frames

How a connection's bytes become a message in the inbound queue. A `recv` returns
at most as many bytes as it asks for, and possibly fewer than have arrived: the
stream carries a limit for each coming `recv`, and where the limits end a `recv`
returns all it may. Nothing is returned only at the end of the stream.
-/

namespace QChat

/-- The receiving side of a connection: the bytes still to come, the limits on the
next reads, and the queue of received messages. -/
structure Reception where
  incoming : Bytes
  limits : List Nat
  message_queue : List Message

namespace Reception

/-- `conn.recv(count)`. -/
def recv (count : Nat) : Method Reception Exn Bytes := fun reception =>
  match reception.limits with
  | [] => (.ok (reception.incoming.take count),
      { reception with incoming := reception.incoming.drop count })
  | limit :: rest =>
    let size := min count (limit + 1)
    (.ok (reception.incoming.take size),
      { reception with incoming := reception.incoming.drop size, limits := rest })

/-- Reads until the announced length is there. Every read brings at least one
byte, so the length bounds the number of reads. -/
def receive_data (data_length : Nat) : Nat → Bytes → Method Reception Exn Bytes
  | 0, message_data => return message_data
  | reads + 1, message_data =>
    if message_data.length < data_length then do
      let data ← recv 1024
      if data.isEmpty then .raise (.ConnectionError "Message data too short")
      else receive_data data_length reads (message_data ++ data)
    else return message_data

/-- Appends message to the inbound message queue. -/
def _append_message_to_queue (message : Message) : Method Reception Exn Unit :=
  .modify fun reception => { reception with message_queue := reception.message_queue ++ [message] }

/-- Receives an incoming message and verifies its structure before storing it. -/
def _handle_connection (json : JsonCodec) : Method Reception Exn Unit := do
  let header ← recv HEADER_LENGTH
  if header ∉ MessageClass.known.map MessageClass.header then
    .raise (.ConnectionError "Incorrect message header")
  else
    let padded_sender ← recv MAX_SENDER_LENGTH
    if padded_sender.length ≠ MAX_SENDER_LENGTH then
      .raise (.ConnectionError "Incorrect sender length")
    else
      let sender ← Bytes.utf8Text (padded_sender.filter (· ≠ 0))
      if sender.length = 0 then .raise (.ConnectionError "Invalid sender")
      else
        let size ← recv PAYLOAD_SIZE
        if size.length ≠ PAYLOAD_SIZE then .raise (.ConnectionError "Incorrect payload size")
        else
          let data_length := Bytes.toNat size
          let message_data ← receive_data data_length data_length []
          if message_data.length > data_length then
            .raise (.ConnectionError "Message data too long")
          else
            let more ← recv 1
            if ¬ more.isEmpty then .raise (.ConnectionError "Message data too long")
            else
              let m ← MessageFactory.create_message json header sender (.bytes message_data)
              _append_message_to_queue m

variable (message_queue : List Message)

/-- The next read is not cut short of this many bytes. -/
def Allows (count : Nat) (limits : List Nat) : Prop := ∀ limit ∈ limits.head?, count ≤ limit + 1

theorem allows_unlimited (count : Nat) : Allows count [] := by
  intro limit never
  cases never

/-- A read that is not cut short takes what it asks for. -/
theorem recv_allowed (front rest : Bytes) {count : Nat} {limits : List Nat}
    (width : front.length = count) (allowed : Allows count limits) :
    recv count ⟨front ++ rest, limits, message_queue⟩ =
      (.ok front, ⟨rest, limits.tail, message_queue⟩) := by
  subst width
  cases limits with
  | nil => simp only [recv, List.take_left, List.drop_left, List.tail_nil]
  | cons limit others =>
    have size : min front.length (limit + 1) = front.length := min_eq_left (allowed limit rfl)
    simp only [recv, size, List.take_left, List.drop_left, List.tail_cons]

/-- A read of some bytes that are there takes at least one of them. -/
theorem recv_progress (byte : UInt8) (payload : Bytes) (limits : List Nat) :
    ∃ size, recv 1024 ⟨byte :: payload, limits, message_queue⟩ =
      (.ok ((byte :: payload).take (size + 1)),
        ⟨(byte :: payload).drop (size + 1), limits.tail, message_queue⟩) := by
  cases limits with
  | nil => exact ⟨1023, rfl⟩
  | cons limit others =>
    refine ⟨min 1023 limit, ?_⟩
    have size : min 1024 (limit + 1) = min 1023 limit + 1 := by omega
    simp only [recv, size, List.tail_cons]

/-- A payload that is all there is read to its end, however the reads are limited. -/
theorem receive_data_limited (reads : Nat) (front payload : Bytes) (limits : List Nat)
    (enough : payload.length ≤ reads) :
    ∃ used, receive_data (front ++ payload).length reads front ⟨payload, limits, message_queue⟩ =
      (.ok (front ++ payload), ⟨[], limits.drop used, message_queue⟩) := by
  induction reads generalizing front payload limits with
  | zero =>
    have nothing : payload = [] := List.length_eq_zero_iff.mp (Nat.le_zero.mp enough)
    subst nothing
    refine ⟨0, ?_⟩
    rw [receive_data, List.append_nil]
    rfl
  | succ reads inductionHypothesis =>
    cases payload with
    | nil =>
      refine ⟨0, ?_⟩
      rw [receive_data, List.append_nil, if_neg (Nat.lt_irrefl _)]
      rfl
    | cons byte payload =>
      have more : front.length < (front ++ byte :: payload).length := by simp
      obtain ⟨size, received⟩ := recv_progress message_queue byte payload limits
      have split : (byte :: payload).take (size + 1) ++ (byte :: payload).drop (size + 1) =
          byte :: payload := List.take_append_drop _ _
      have shorter : ((byte :: payload).drop (size + 1)).length ≤ reads := by
        simp only [List.length_drop, List.length_cons] at enough ⊢
        omega
      obtain ⟨used, rest⟩ := inductionHypothesis (front ++ (byte :: payload).take (size + 1))
        ((byte :: payload).drop (size + 1)) limits.tail shorter
      rw [List.append_assoc, split] at rest
      refine ⟨used + 1, ?_⟩
      rw [receive_data, if_pos more, Method.bind_of_ok received, if_neg (by simp), rest]
      rw [List.drop_tail]

/-- A stream that is one frame: the header of a known class, sixteen bytes with the name of
a sender, the length of the payload, and as many bytes of JSON text. -/
inductive WellFormed (json : JsonCodec) : Bytes → MessageClass → String → Value → Prop where
  | frame {cls : MessageClass} {sender text : String} {data : Value}
      {padded_sender size payload : Bytes} (known : cls ∈ MessageClass.known)
      (width : padded_sender.length = MAX_SENDER_LENGTH)
      (named : padded_sender.filter (· ≠ 0) ≠ [])
      (decoded : Bytes.utf8Text (padded_sender.filter (· ≠ 0)) = .ok sender)
      (sized : size.length = PAYLOAD_SIZE) (data_length : Bytes.toNat size = payload.length)
      (unpacked : Bytes.utf8Text payload = .ok text) (loaded : json.loads text = .ok data) :
      WellFormed json (cls.header ++ (padded_sender ++ (size ++ payload))) cls sender data

/-- The reads of the first three fields are not cut short. -/
def Whole (limits : List Nat) : Prop :=
  Allows HEADER_LENGTH limits ∧ Allows MAX_SENDER_LENGTH (limits.drop 1) ∧
    Allows PAYLOAD_SIZE (limits.drop 2)

theorem whole_unlimited : Whole [] :=
  ⟨allows_unlimited _, allows_unlimited _, allows_unlimited _⟩

variable {json : JsonCodec} {stream : Bytes} {cls : MessageClass} {sender : String} {data : Value}

/-- The name of a frame is never too long. -/
theorem WellFormed.short (frame : WellFormed json stream cls sender data) :
    sender.length ≤ MAX_SENDER_LENGTH := by
  cases frame with
  | @frame _ _ _ _ padded_sender _ _ known width named decoded sized data_length unpacked loaded =>
    refine (Bytes.length_le_utf8 sender).trans ?_
    rw [Bytes.utf8_utf8Text decoded, ← width]
    exact List.length_filter_le _ padded_sender

/-- A frame whose first three fields are read whole is appended as its message. -/
theorem handle_connection_accepts {message : Message}
    (frame : WellFormed json stream message.cls message.sender message.data) {limits : List Nat}
    (whole : Whole limits) (message_queue : List Message) :
    ∃ used, _handle_connection json ⟨stream, limits, message_queue⟩ =
      (.ok (), ⟨[], limits.drop used, message_queue ++ [message]⟩) := by
  cases frame with
  | @frame _ _ text _ padded_sender size payload known width named decoded sized data_length
      unpacked loaded =>
    have listed : message.cls.header ∈ MessageClass.known.map MessageClass.header :=
      List.mem_map_of_mem known
    have nonempty : ¬ message.sender.length = 0 := by
      intro empty
      have bytes := Bytes.utf8_utf8Text decoded
      rw [String.length_eq_zero_iff.mp empty] at bytes
      exact named bytes.symm
    have created : MessageFactory.create_message json message.cls.header message.sender
        (.bytes payload) = .ok message := by
      simp only [MessageFactory.create_message, MessageClass.ofHeader_header, ok_bind,
        Message.init, message.short, ↓reduceDIte, Message.unpack_message_data, unpacked, loaded,
        pure_ok]
    -- The three fields, the payload, and the read that finds the end.
    have first := recv_allowed message_queue message.cls.header
      (padded_sender ++ (size ++ payload)) message.cls.header_length whole.1
    have second := recv_allowed message_queue padded_sender (size ++ payload) width whole.2.1
    have third := recv_allowed message_queue size payload sized whole.2.2
    obtain ⟨used, rest⟩ := receive_data_limited message_queue payload.length [] payload
      (limits.drop 3) (Nat.le_refl _)
    rw [List.nil_append] at rest
    obtain ⟨more, probe⟩ : ∃ more, recv 1 ⟨[], (limits.drop 3).drop used, message_queue⟩ =
        (.ok [], ⟨[], limits.drop more, message_queue⟩) := by
      rw [List.drop_drop]
      refine ⟨3 + used + 1, ?_⟩
      rw [← List.tail_drop]
      cases limits.drop (3 + used) with
      | nil => rfl
      | cons limit others => simp only [recv, List.take_nil, List.drop_nil, List.tail_cons]
    refine ⟨more, ?_⟩
    simp only [← List.drop_one, List.drop_drop, Nat.reduceAdd] at first second third
    rw [_handle_connection, Method.bind_of_ok first, if_neg (not_not.mpr listed),
      Method.bind_of_ok second, if_neg (not_not.mpr width), decoded, Method.compute_bind]
    dsimp only
    rw [if_neg nonempty, Method.bind_of_ok third, if_neg (not_not.mpr sized), data_length]
    rw [Method.bind_of_ok rest, if_neg (Nat.lt_irrefl _), Method.bind_of_ok probe,
      if_neg (by simp), created, Method.compute_bind]
    rfl

end Reception

namespace Message

open Reception (WellFormed)

variable {json : JsonCodec}

/-- The names that a frame can carry: one to sixteen bytes, none of them zero. The field of the
sender is padded with zero bytes to its full width, and the receiver drops every zero byte in
it. -/
structure Carried (sender : String) : Prop where
  nonempty : 0 < (Bytes.utf8 sender).length
  short : (Bytes.utf8 sender).length ≤ 16
  visible : 0 ∉ Bytes.utf8 sender

/-- The sender is padded to sixteen bytes, and is what is left without the zeros. -/
theorem padded_sender_carried {sender : String} (carried : Carried sender) :
    (padded_sender sender).length = MAX_SENDER_LENGTH ∧
      (padded_sender sender).filter (· ≠ 0) = Bytes.utf8 sender := by
  have short := carried.short
  have front : (padded_sender sender) =
      List.replicate (16 - (Bytes.utf8 sender).length) 0 ++ Bytes.utf8 sender := by
    have dropped : (List.replicate MAX_SENDER_LENGTH (0 : UInt8) ++ Bytes.utf8 sender).length - 16 =
        (Bytes.utf8 sender).length := by
      rw [List.length_append, List.length_replicate]
      exact Nat.add_sub_cancel_left ..
    rw [padded_sender, dropped, List.drop_append_of_le_length
      (by rw [List.length_replicate]; exact short), List.drop_replicate]
    rfl
  constructor
  · rw [front, List.length_append, List.length_replicate, Nat.sub_add_cancel short]
    rfl
  · have zeros : (List.replicate (16 - (Bytes.utf8 sender).length) (0 : UInt8)).filter
        (fun byte => decide (byte ≠ 0)) = [] := by
      rw [List.filter_eq_nil_iff]
      intro byte member
      rw [List.eq_of_mem_replicate member]
      decide
    have kept : (Bytes.utf8 sender).filter (fun byte => decide (byte ≠ 0)) = Bytes.utf8 sender := by
      rw [List.filter_eq_self]
      intro byte member
      exact decide_eq_true fun zero => carried.visible (zero ▸ member)
    rw [front, List.filter_append, zeros, kept, List.nil_append]

/-- What a frame consists of. -/
theorem encode_message_parts {message : Message} {frame : Bytes}
    (encoded : message.encode_message json = .ok frame) :
    ∃ text, json.dumps message.data = .ok text ∧ (Bytes.utf8 text).length < 2 ^ 32 ∧
      frame = message.cls.header ++ padded_sender message.sender ++
        Bytes.bigEndian PAYLOAD_SIZE (Bytes.utf8 text).length ++ Bytes.utf8 text := by
  simp only [encode_message] at encoded
  cases dumped : json.dumps message.data with
  | error exception =>
    rw [dumped] at encoded
    cases encoded
  | ok text =>
    simp only [dumped, ok_bind] at encoded
    obtain ⟨size, sized, encoded⟩ := ok_of_bind encoded
    rw [Bytes.ofInt] at sized
    split at sized
    · next fits =>
      cases sized
      refine ⟨text, rfl, fits.2, ?_⟩
      cases encoded
      rfl
    · cases sized

/-- A message whose text fits has a frame. -/
theorem encode_message_ok (message : Message) {text : String}
    (dumped : json.dumps message.data = .ok text) (fits : (Bytes.utf8 text).length < 2 ^ 32) :
    message.encode_message json = .ok (message.cls.header ++ padded_sender message.sender ++
      Bytes.bigEndian PAYLOAD_SIZE (Bytes.utf8 text).length ++ Bytes.utf8 text) := by
  have size : Bytes.ofInt PAYLOAD_SIZE ((Bytes.utf8 text).length : Int) =
      .ok (Bytes.bigEndian PAYLOAD_SIZE (Bytes.utf8 text).length) := by
    rw [Bytes.ofInt, if_pos ⟨Int.natCast_nonneg _, fits⟩]
    rfl
  simp only [encode_message, dumped, ok_bind, size, pure_ok]

/-- What a message is encoded to is a frame of the message. -/
theorem wellFormed_encode (faithful : json.Faithful) {message : Message} {frame : Bytes}
    (valid : message.data.IsJson) (carried : Carried message.sender)
    (encoded : message.encode_message json = .ok frame) :
    WellFormed json frame message.cls message.sender message.data := by
  obtain ⟨text, dumped, fits, rfl⟩ := encode_message_parts encoded
  obtain ⟨written, dumpedWritten, loaded⟩ := faithful.loads_dumps message.data valid
  cases dumpedWritten.symm.trans dumped
  obtain ⟨width, stripped⟩ := padded_sender_carried carried
  have known : message.cls ∈ MessageClass.known := by
    cases message.cls <;> decide
  have size : Bytes.toNat (Bytes.bigEndian PAYLOAD_SIZE (Bytes.utf8 text).length) =
      (Bytes.utf8 text).length := by
    rw [Bytes.toNat_bigEndian]
    exact Nat.mod_eq_of_lt fits
  rw [List.append_assoc, List.append_assoc]
  refine .frame known width ?_ ?_ (Bytes.bigEndian_length _ _) size (Bytes.utf8Text_utf8 text) loaded
  · rw [stripped]
    exact List.length_pos_iff.mp carried.nonempty
  · rw [stripped]
    exact Bytes.utf8Text_utf8 message.sender

/-- A received frame becomes the message it was made from, if the reads of its first
three fields are not cut short. -/
theorem handle_connection_whole (faithful : json.Faithful) {message : Message} {frame : Bytes}
    (valid : message.data.IsJson) (carried : Carried message.sender)
    (encoded : message.encode_message json = .ok frame) {limits : List Nat}
    (whole : Reception.Whole limits) (message_queue : List Message) :
    ∃ used, Reception._handle_connection json ⟨frame, limits, message_queue⟩ =
      (.ok (), ⟨[], limits.drop used, message_queue ++ [message]⟩) :=
  Reception.handle_connection_accepts (wellFormed_encode faithful valid carried encoded) whole
    message_queue

/-- A received frame becomes the message it was made from. -/
theorem handle_connection_frame (faithful : json.Faithful) {message : Message} {frame : Bytes}
    (valid : message.data.IsJson) (carried : Carried message.sender)
    (encoded : message.encode_message json = .ok frame) (message_queue : List Message) :
    Reception._handle_connection json ⟨frame, [], message_queue⟩ =
      (.ok (), ⟨[], [], message_queue ++ [message]⟩) := by
  have unlimited : Reception.Whole [] := Reception.whole_unlimited
  obtain ⟨used, handled⟩ :=
    handle_connection_whole faithful valid carried encoded unlimited message_queue
  rw [handled, List.drop_nil]

/-- Frames of one class and sender tell their data apart. -/
theorem encode_message_injective (faithful : json.Faithful) (one two : Message) {frame : Bytes}
    (cls : two.cls = one.cls) (sender : two.sender = one.sender) (validOne : one.data.IsJson)
    (validTwo : two.data.IsJson) (encodedOne : one.encode_message json = .ok frame)
    (encodedTwo : two.encode_message json = .ok frame) : two.data = one.data := by
  obtain ⟨text, dumped, _, parts⟩ := encode_message_parts encodedOne
  obtain ⟨other, otherDumped, _, otherParts⟩ := encode_message_parts encodedTwo
  rw [parts, cls, sender] at otherParts
  have payload : Bytes.utf8 text = Bytes.utf8 other :=
    (List.append_inj otherParts (by simp only [List.length_append, Bytes.bigEndian_length])).2
  have same : text = other := by
    have read := Bytes.utf8Text_utf8 text
    rw [payload, Bytes.utf8Text_utf8] at read
    exact (Except.ok.inj read).symm
  obtain ⟨_, dumpedOne, loadedOne⟩ := faithful.loads_dumps one.data validOne
  obtain ⟨_, dumpedTwo, loadedTwo⟩ := faithful.loads_dumps two.data validTwo
  cases dumpedOne.symm.trans dumped
  cases dumpedTwo.symm.trans otherDumped
  rw [same] at loadedOne
  exact Except.ok.inj (loadedTwo.symm.trans loadedOne)

end Message

end QChat
