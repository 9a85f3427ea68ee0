import QChat.Grammar

/-!
# The wire format

When a message survives its frame. The frame has room for the last sixteen bytes of
the sender's name, the receiver deletes every zero byte from them and refuses an
empty name, and the length of the payload has four bytes. The constructor of a
message checks none of this; it counts the characters of the name.
-/

namespace QChat

namespace Message

variable {json : JsonCodec}

theorem padded_sender_length (sender : String) :
    (padded_sender sender).length = MAX_SENDER_LENGTH := by
  simp only [padded_sender, List.length_drop, List.length_append, List.length_replicate,
    MAX_SENDER_LENGTH]
  omega

/-- The frame is received as one message, which is appended to the queue. -/
def Received (json : JsonCodec) (frame : Bytes) (message : Message) : Prop :=
  ∀ message_queue, ∃ reception,
    Reception._handle_connection json ⟨frame, [], message_queue⟩ = (.ok (), reception) ∧
      reception.message_queue = message_queue ++ [message]

/-- The message is refused as malformed, or its frame is received as the message. -/
def RoundTrips (json : JsonCodec) (message : Message) : Prop :=
  (∃ text, message.encode_message json = .error (.MalformedMessage text)) ∨
    ∃ frame, message.encode_message json = .ok frame ∧ Received json frame message

/-- The name in a received message is what the frame's sixteen bytes are without the
zeros. -/
theorem received_sender {message received : Message} {frame : Bytes}
    (encoded : message.encode_message json = .ok frame) (accepted : Received json frame received) :
    Bytes.utf8Text ((padded_sender message.sender).filter (· ≠ 0)) = .ok received.sender ∧
      received.sender.length ≠ 0 := by
  obtain ⟨text, dumped, fits, parts⟩ := encode_message_parts encoded
  obtain ⟨wellFormed, -⟩ := (Reception.appended_iff received).mp (accepted [])
  generalize received.cls = cls, received.sender = sender, received.data = data at wellFormed
  cases wellFormed with
  | @frame _ _ _ _ sixteen size payload known width named decoded sized data_length unpacked
      loaded =>
    -- The two ways to take the frame apart agree on its second field.
    rw [List.append_assoc, List.append_assoc] at parts
    have fields := (List.append_inj parts (by
      rw [MessageClass.header_length, MessageClass.header_length])).2
    obtain rfl : sixteen = padded_sender message.sender :=
      (List.append_inj fields (by rw [width, padded_sender_length])).1
    refine ⟨decoded, ?_⟩
    intro empty
    have bytes := Bytes.utf8_utf8Text decoded
    rw [String.length_eq_zero_iff.mp empty] at bytes
    exact named bytes.symm

/-- A name that comes back unchanged is one that a frame can carry. -/
theorem carried_of_padded {sender : String}
    (decoded : Bytes.utf8Text ((padded_sender sender).filter (· ≠ 0)) = .ok sender)
    (named : sender.length ≠ 0) : Carried sender := by
  have bytes := Bytes.utf8_utf8Text decoded
  refine ⟨?_, ?_, ?_⟩
  · rw [List.length_pos_iff]
    intro empty
    have decodedEmpty := Bytes.utf8Text_utf8 sender
    rw [empty] at decodedEmpty
    have nothing : sender = "" := (Except.ok.inj decodedEmpty).symm
    exact named (by rw [nothing]; rfl)
  · rw [bytes]
    exact (List.length_filter_le _ _).trans (Nat.le_of_eq (padded_sender_length sender))
  · rw [bytes]
    simp

/-- A frame can carry the name of a message that round trips, and has room for its
text. -/
theorem carried_of_roundTrips (faithful : json.Faithful) {message : Message}
    (valid : message.data.IsJson) (roundTrips : RoundTrips json message) :
    Carried message.sender ∧
      ∀ text, json.dumps message.data = .ok text → (Bytes.utf8 text).length < 2 ^ 32 := by
  obtain ⟨text, dumped, loaded⟩ := faithful.loads_dumps message.data valid
  rcases roundTrips with ⟨reason, malformed⟩ | ⟨frame, encoded, accepted⟩
  · -- data that can be written is never malformed; a long text is an overflow
    simp only [encode_message, dumped, ok_bind, Bytes.ofInt] at malformed
    split at malformed
    · cases malformed
    · cases malformed
  · obtain ⟨decoded, named⟩ := received_sender encoded accepted
    refine ⟨carried_of_padded decoded named, ?_⟩
    obtain ⟨other, dumpedOther, fits, _⟩ := encode_message_parts encoded
    intro written dumpedWritten
    cases dumpedWritten.symm.trans dumpedOther
    exact fits

/-- A message round trips exactly if a frame can carry its sender's name and has room for its
text. The receiver drops zero bytes of the name and sees only the last sixteen, so a name has to
fit without them; the length of the payload has four bytes. -/
theorem wire_round_trip (faithful : json.Faithful) (message : Message)
    (valid : message.data.IsJson) :
    RoundTrips json message ↔ Carried message.sender ∧
      ∀ text, json.dumps message.data = .ok text → (Bytes.utf8 text).length < 2 ^ 32 := by
  constructor
  · exact carried_of_roundTrips faithful valid
  · rintro ⟨carried, fits⟩
    obtain ⟨text, dumped, loaded⟩ := faithful.loads_dumps message.data valid
    have encoded := message.encode_message_ok dumped (fits text dumped)
    exact Or.inr ⟨_, encoded, fun message_queue =>
      ⟨_, handle_connection_frame faithful valid carried encoded message_queue, rfl⟩⟩

end Message

/-- A message whose sender's name has nine characters and eighteen bytes. -/
def wideMessage : Message := ⟨.Message, "äöüäöüäöü", .obj [], by decide⟩

/-- It is encoded, and not received as it was. -/
theorem wide_sender_lost : ¬ Message.RoundTrips json wideMessage := by
  intro roundTrips
  have carried := (Message.carried_of_roundTrips json_faithful Value.isJson_nothing roundTrips).1
  exact absurd carried.short (by decide)

theorem wire_round_trip_wide :
    Message.RoundTrips json wideMessage ↔ Message.Carried wideMessage.sender ∧
      ∀ text, json.dumps wideMessage.data = .ok text → (Bytes.utf8 text).length < 2 ^ 32 :=
  Message.wire_round_trip json_faithful wideMessage Value.isJson_nothing

end QChat
