import QChat.Connection
import QChat.Json

/-!
# What the frame reader accepts

The handler of a connection accepts exactly the streams that are one frame, however
the payload is cut into reads, and leaves the queue alone when it refuses. The reads
of the first three fields are made once each: if one of them is cut short, a frame is
refused.

What a payload may be is decided by `json.loads`. The grammar of JSON texts is narrower:
it has no constants, and `json.loads` reads `NaN`.
-/

namespace QChat

namespace Reception

/-- The method does the same whatever is in the queue, and leaves it as it is. -/
def Silent {α : Type} (method : Method Reception Exn α) : Prop :=
  ∀ incoming limits, ∃ (result : Except Exn α) (after : Reception), ∀ message_queue,
    method ⟨incoming, limits, message_queue⟩ =
      (result, { after with message_queue := message_queue })

/-- The method does the same whatever is in the queue. It appends to it, and only if it
returns. -/
def Appends {α : Type} (method : Method Reception Exn α) : Prop :=
  ∀ incoming limits, ∃ (result : Except Exn α) (after : Reception) (added : List Message),
    (∀ exception, result = .error exception → added = []) ∧ ∀ message_queue, method ⟨incoming, limits, message_queue⟩ =
      (result, { after with message_queue := message_queue ++ added })

theorem Silent.appends {α : Type} {method : Method Reception Exn α} (silent : Silent method) :
    Appends method := by
  intro incoming limits
  obtain ⟨result, after, same⟩ := silent incoming limits
  refine ⟨result, after, [], fun _ _ => rfl, fun message_queue => ?_⟩
  rw [same, List.append_nil]

theorem Silent.bind {α β : Type} {first : Method Reception Exn α}
    {next : α → Method Reception Exn β} (before : Silent first)
    (after : ∀ result, Silent (next result)) : Silent (first >>= next) := by
  intro incoming limits
  obtain ⟨outcome, middle, same⟩ := before incoming limits
  cases outcome with
  | error exception =>
    refine ⟨.error exception, middle, fun message_queue => ?_⟩
    rw [Method.bind_apply, same]
  | ok value =>
    obtain ⟨result, final, goesOn⟩ := after value middle.incoming middle.limits
    refine ⟨result, final, fun message_queue => ?_⟩
    rw [Method.bind_of_ok (same message_queue)]
    exact goesOn message_queue

/-- What appends at its end appends. -/
theorem Silent.bind_appends {α β : Type} {first : Method Reception Exn α}
    {next : α → Method Reception Exn β} (before : Silent first)
    (after : ∀ result, Appends (next result)) : Appends (first >>= next) := by
  intro incoming limits
  obtain ⟨outcome, middle, same⟩ := before incoming limits
  cases outcome with
  | error exception =>
    refine ⟨.error exception, middle, [], fun _ _ => rfl, fun message_queue => ?_⟩
    rw [Method.bind_apply, same, List.append_nil]
  | ok value =>
    obtain ⟨result, final, added, fruitless, goesOn⟩ := after value middle.incoming middle.limits
    refine ⟨result, final, added, fruitless, fun message_queue => ?_⟩
    rw [Method.bind_of_ok (same message_queue)]
    exact goesOn message_queue

theorem silent_raise {α : Type} (exception : Exn) :
    Silent (.raise exception : Method Reception Exn α) :=
  fun incoming limits => ⟨_, ⟨incoming, limits, []⟩, fun _ => rfl⟩

theorem silent_compute {α : Type} (value : Except Exn α) :
    Silent (liftM value : Method Reception Exn α) :=
  fun incoming limits => ⟨_, ⟨incoming, limits, []⟩, fun _ => rfl⟩

theorem silent_recv (count : Nat) : Silent (recv count) := by
  intro incoming limits
  cases limits with
  | nil => exact ⟨.ok (incoming.take count), ⟨incoming.drop count, [], []⟩, fun _ => rfl⟩
  | cons limit rest =>
    let size := min count (limit + 1)
    exact ⟨.ok (incoming.take size), ⟨incoming.drop size, rest, []⟩, fun _ => rfl⟩

theorem silent_receive_data (data_length reads : Nat) (message_data : Bytes) :
    Silent (receive_data data_length reads message_data) := by
  induction reads generalizing message_data with
  | zero => exact silent_compute (.ok message_data)
  | succ reads inductionHypothesis =>
    unfold receive_data
    split
    · refine (silent_recv 1024).bind fun data => ?_
      split
      · exact silent_raise _
      · exact inductionHypothesis (message_data ++ data)
    · exact silent_compute (.ok message_data)

/-- A handler appends at its end, if it comes to it, whatever is in the queue. -/
theorem appends_handle_connection (json : JsonCodec) : Appends (_handle_connection json) := by
  refine (silent_recv HEADER_LENGTH).bind_appends fun header => ?_
  split
  · exact (silent_raise _).appends
  refine (silent_recv MAX_SENDER_LENGTH).bind_appends fun padded_sender => ?_
  split
  · exact (silent_raise _).appends
  refine (silent_compute _).bind_appends fun sender => ?_
  split
  · exact (silent_raise _).appends
  refine (silent_recv PAYLOAD_SIZE).bind_appends fun size => ?_
  split
  · exact (silent_raise _).appends
  refine (silent_receive_data _ _ _).bind_appends fun message_data => ?_
  split
  · exact (silent_raise _).appends
  refine (silent_recv 1).bind_appends fun more => ?_
  split
  · exact (silent_raise _).appends
  refine (silent_compute _).bind_appends fun m => ?_
  intro incoming limits
  refine ⟨.ok (), ⟨incoming, limits, []⟩, [m], ?_, fun _ => rfl⟩
  intro exception never
  cases never

variable {json : JsonCodec} {stream : Bytes} {sender : String}

/-- What a read returns, and what it leaves. -/
theorem recv_taken (count : Nat) (incoming : Bytes) (limits : List Nat)
    (message_queue : List Message) :
    ∃ size ≤ count, (0 < count → 0 < size) ∧ (∀ limit ∈ limits.head?, size ≤ limit + 1) ∧
      recv count ⟨incoming, limits, message_queue⟩ =
        (.ok (incoming.take size), ⟨incoming.drop size, limits.tail, message_queue⟩) := by
  cases limits with
  | nil =>
    refine ⟨count, Nat.le_refl count, id, ?_, rfl⟩
    intro limit never
    cases never
  | cons limit others =>
    refine ⟨min count (limit + 1), Nat.min_le_left _ _, fun positive => by omega, ?_, rfl⟩
    intro other same
    cases same
    exact Nat.min_le_right _ _

/-- A field that has its width was read whole. -/
theorem recv_field {count : Nat} {incoming field : Bytes} {limits : List Nat}
    {message_queue : List Message} {after : Reception}
    (received : recv count ⟨incoming, limits, message_queue⟩ = (.ok field, after))
    (width : field.length = count) :
    ∃ rest, incoming = field ++ rest ∧ Allows count limits ∧
      after = ⟨rest, limits.tail, message_queue⟩ := by
  obtain ⟨size, bound, _, limited, taken⟩ := recv_taken count incoming limits message_queue
  rw [taken] at received
  obtain ⟨same, left⟩ := Prod.mk.inj received
  obtain rfl : incoming.take size = field := Except.ok.inj same
  refine ⟨incoming.drop size, (List.take_append_drop size incoming).symm, ?_, left.symm⟩
  intro limit first
  rw [List.length_take] at width
  exact (by omega : count ≤ size).trans (limited limit first)

/-- A probe finds nothing only at the end of the stream. -/
theorem probe_empty {incoming probe : Bytes} {limits : List Nat} {message_queue : List Message}
    {after : Reception}
    (probed : recv 1 ⟨incoming, limits, message_queue⟩ = (.ok probe, after)) (empty : probe = []) :
    incoming = [] ∧ after.message_queue = message_queue := by
  obtain ⟨size, bound, positive, _, taken⟩ := recv_taken 1 incoming limits message_queue
  rw [taken] at probed
  obtain ⟨same, left⟩ := Prod.mk.inj probed
  have one : size = 1 := by
    have least := positive Nat.one_pos
    omega
  rw [empty, one] at same
  refine ⟨?_, by rw [← left]⟩
  cases incoming with
  | nil => rfl
  | cons byte rest => cases same

/-- A message made from bytes holds what their text stands for. -/
theorem create_message_ok {cls : MessageClass} {payload : Bytes} {message : Message}
    (created : MessageFactory.create_message json cls.header sender (.bytes payload) =
      .ok message) :
    message.cls = cls ∧ message.sender = sender ∧
      ∃ text, Bytes.utf8Text payload = .ok text ∧ json.loads text = .ok message.data := by
  simp only [MessageFactory.create_message, MessageClass.ofHeader_header, ok_bind,
    Message.init] at created
  split at created
  · obtain ⟨data, unpacks, made⟩ := ok_of_bind created
    cases made
    refine ⟨rfl, rfl, ?_⟩
    simp only [Message.unpack_message_data] at unpacks
    cases unpacked : Bytes.utf8Text payload with
    | error exception => simp only [unpacked, error_bind] at unpacks; cases unpacks
    | ok text =>
      cases loaded : json.loads text with
      | error exception => simp only [unpacked, ok_bind, loaded] at unpacks; cases unpacks
      | ok value =>
        simp only [unpacked, ok_bind, loaded] at unpacks
        cases unpacks
        exact ⟨text, rfl, loaded⟩
  · cases created

/-- Where the payload loop returns, it has read as many bytes as were announced, or
more. -/
theorem receive_data_ok {data_length reads : Nat} {front message_data incoming : Bytes}
    {limits : List Nat} {message_queue : List Message} {after : Reception}
    (enough : data_length ≤ front.length + reads)
    (returned : receive_data data_length reads front ⟨incoming, limits, message_queue⟩ =
      (.ok message_data, after)) :
    data_length ≤ message_data.length ∧
      front ++ incoming = message_data ++ after.incoming ∧
      after.message_queue = message_queue := by
  induction reads generalizing front incoming limits with
  | zero =>
    cases returned
    exact ⟨enough, rfl, rfl⟩
  | succ reads inductionHypothesis =>
    unfold receive_data at returned
    split at returned
    · obtain ⟨data, middle, received, returned⟩ := Method.ok_of_bind returned
      obtain ⟨size, _, progress, _, taken⟩ := recv_taken 1024 incoming limits message_queue
      rw [taken] at received
      obtain ⟨same, rfl⟩ := Prod.mk.inj received
      obtain rfl : incoming.take size = data := Except.ok.inj same
      split at returned
      · cases returned
      · next some =>
        -- Something was read, so fewer reads are needed for the rest.
        have positive : 0 < (incoming.take size).length := by
          rw [List.length_pos_iff]
          simpa using some
        obtain ⟨long, split, queue⟩ := inductionHypothesis (by
          rw [List.length_append]
          omega) returned
        refine ⟨long, ?_, queue⟩
        rw [← split, List.append_assoc, List.take_append_drop]
    · next full =>
      cases returned
      exact ⟨by omega, rfl, rfl⟩

/-- A stream whose handler returns is one frame, whose first three fields were read
whole, and its message was appended. -/
theorem handle_connection_ok {limits : List Nat} {message_queue : List Message}
    {after : Reception}
    (returned : _handle_connection json ⟨stream, limits, message_queue⟩ = (.ok (), after)) :
    ∃ message, after.message_queue = message_queue ++ [message] ∧
      WellFormed json stream message.cls message.sender message.data ∧ Whole limits := by
  unfold _handle_connection at returned
  obtain ⟨header, _, first, readHeader⟩ := Method.ok_of_bind returned
  obtain ⟨known, knownHeader⟩ := Method.ok_of_guard readHeader
  obtain ⟨cls, listed, same⟩ := List.mem_map.mp (not_not.mp known)
  obtain ⟨afterHeader, startsWith, wholeHeader, rfl⟩ :=
    recv_field first (by rw [← same, cls.header_length])
  -- The sender.
  obtain ⟨padded_sender, _, second, readSender⟩ := Method.ok_of_bind knownHeader
  obtain ⟨width, wideSender⟩ := Method.ok_of_guard readSender
  obtain ⟨afterSender, goesOn, wholeSender, rfl⟩ := recv_field second (not_not.mp width)
  obtain ⟨sender, decoded, readName⟩ := Method.ok_of_compute wideSender
  obtain ⟨named, validName⟩ := Method.ok_of_guard readName
  -- The length.
  obtain ⟨size, _, third, readSize⟩ := Method.ok_of_bind validName
  obtain ⟨sized, wideSize⟩ := Method.ok_of_guard readSize
  obtain ⟨content, ends, wholeSize, rfl⟩ := recv_field third (not_not.mp sized)
  -- The payload, and what follows it.
  obtain ⟨payload, ⟨left, others, queue⟩, fourth, readPayload⟩ := Method.ok_of_bind wideSize
  obtain ⟨long, all, kept⟩ := receive_data_ok (by simp) fourth
  obtain ⟨short, fullPayload⟩ := Method.ok_of_guard readPayload
  obtain ⟨probe, final, fifth, readProbe⟩ := Method.ok_of_bind fullPayload
  obtain ⟨ended, finished⟩ := Method.ok_of_guard readProbe
  obtain ⟨nothing, finalQueue⟩ := probe_empty fifth (List.isEmpty_iff.mp (not_not.mp ended))
  obtain ⟨message, created, appended⟩ := Method.ok_of_compute finished
  rw [← same] at created
  obtain ⟨sameClass, sameSender, text, unpacked, loaded⟩ := create_message_ok created
  rw [nothing, List.append_nil, List.nil_append] at all
  refine ⟨message, ?_, ?_, wholeHeader, ?_, ?_⟩
  · rw [← (Prod.mk.inj appended).2]
    change final.message_queue ++ [message] = message_queue ++ [message]
    rw [finalQueue]
    exact congrArg (· ++ [message]) kept
  · rw [startsWith, goesOn, ends, all, ← same, ← sameClass]
    refine .frame (sameClass ▸ listed) (not_not.mp width) ?_ (sameSender ▸ decoded)
      (not_not.mp sized) (by omega) unpacked loaded
    intro empty
    rw [empty] at decoded
    cases decoded
    exact named rfl
  · rwa [List.drop_one]
  · rwa [← List.drop_one, ← List.drop_one, List.drop_drop] at wholeSize

/-- The handler appends the message. -/
def Appended (json : JsonCodec) (stream : Bytes) (limits : List Nat)
    (message_queue : List Message) (message : Message) : Prop :=
  ∃ after, _handle_connection json ⟨stream, limits, message_queue⟩ = (.ok (), after) ∧
    after.message_queue = message_queue ++ [message]

/-- The handler raises, and the queue is as it was. -/
def Refused (json : JsonCodec) (stream : Bytes) (limits : List Nat)
    (message_queue : List Message) : Prop :=
  ∃ exception after,
    _handle_connection json ⟨stream, limits, message_queue⟩ = (.error exception, after) ∧
      after.message_queue = message_queue

/-- The stream is one frame of some message. -/
def Accepted (json : JsonCodec) (stream : Bytes) : Prop :=
  ∃ cls sender data, WellFormed json stream cls sender data

theorem Accepted.message (accepted : Accepted json stream) :
    ∃ message : Message, WellFormed json stream message.cls message.sender message.data := by
  obtain ⟨cls, sender, data, frame⟩ := accepted
  exact ⟨⟨cls, sender, data, frame.short⟩, frame⟩

variable {limits : List Nat} {message_queue : List Message}

/-- A message is appended exactly if the stream is its frame and the first three fields
are read whole. -/
theorem appended_iff (message : Message) :
    Appended json stream limits message_queue message ↔
      WellFormed json stream message.cls message.sender message.data ∧ Whole limits := by
  constructor
  · rintro ⟨after, returned, appended⟩
    obtain ⟨other, grown, frame, whole⟩ := handle_connection_ok returned
    rw [appended, List.append_cancel_left_eq, List.cons.injEq] at grown
    rw [grown.1]
    exact ⟨frame, whole⟩
  · rintro ⟨frame, whole⟩
    obtain ⟨used, handled⟩ := handle_connection_accepts frame whole message_queue
    exact ⟨_, handled, rfl⟩

/-- Everything else is refused. -/
theorem refused_iff :
    Refused json stream limits message_queue ↔ ¬ (Accepted json stream ∧ Whole limits) := by
  constructor
  · rintro ⟨exception, after, raised, _⟩ ⟨accepted, whole⟩
    obtain ⟨message, frame⟩ := accepted.message
    obtain ⟨used, handled⟩ := handle_connection_accepts frame whole message_queue
    rw [handled] at raised
    cases raised
  · intro rejected
    obtain ⟨result, after, added, fruitless, handled⟩ := appends_handle_connection json stream limits
    cases result with
    | error exception =>
      refine ⟨exception, _, handled message_queue, ?_⟩
      rw [fruitless exception rfl, List.append_nil]
    | ok done =>
      obtain ⟨message, _, frame, whole⟩ := handle_connection_ok (handled message_queue)
      exact absurd ⟨⟨_, _, _, frame⟩, whole⟩ rejected

/-- The first three reads bring as many of the requested bytes as remain. -/
def Prompt (stream : Bytes) (limits : List Nat) : Prop :=
  Allows (min HEADER_LENGTH stream.length) limits ∧
    Allows (min MAX_SENDER_LENGTH (stream.drop HEADER_LENGTH).length) (limits.drop 1) ∧
    Allows (min PAYLOAD_SIZE (stream.drop (HEADER_LENGTH + MAX_SENDER_LENGTH)).length)
      (limits.drop 2)

/-- The fields of a frame are all there. -/
theorem Accepted.whole (accepted : Accepted json stream) (prompt : Prompt stream limits) :
    Whole limits := by
  obtain ⟨cls, sender, data, frame⟩ := accepted
  cases frame with
  | @frame _ _ _ _ padded_sender size payload known width named decoded sized data_length
      unpacked loaded =>
    obtain ⟨first, second, third⟩ := prompt
    have header := cls.header_length
    simp only [List.length_append, List.length_drop, header, width, sized] at first second third
    simp only [HEADER_LENGTH, MAX_SENDER_LENGTH, PAYLOAD_SIZE] at first second third
    refine ⟨fun limit here => ?_, fun limit here => ?_, fun limit here => ?_⟩
    · have enough := first limit here
      simp only [HEADER_LENGTH]
      omega
    · have enough := second limit here
      simp only [MAX_SENDER_LENGTH]
      omega
    · have enough := third limit here
      simp only [PAYLOAD_SIZE]
      omega

/-- Where the first three reads bring what there is, the handler appends exactly the message of
a frame, and refuses every other stream, however the payload is cut. The payload's text is any
that the reader of JSON takes. -/
theorem grammar_exact (stream : Bytes) (limits : List Nat) (prompt : Prompt stream limits)
    (message_queue : List Message) :
    (∀ message, Appended json stream limits message_queue message ↔
      WellFormed json stream message.cls message.sender message.data) ∧
    ((∃ message, Appended json stream limits message_queue message) ↔ Accepted json stream) ∧
    (¬ Accepted json stream → Refused json stream limits message_queue) := by
  have exactly (message : Message) : Appended json stream limits message_queue message ↔
      WellFormed json stream message.cls message.sender message.data := by
    rw [appended_iff]
    constructor
    · exact And.left
    · exact fun frame => ⟨frame, Accepted.whole ⟨_, _, _, frame⟩ prompt⟩
  refine ⟨exactly, ?_, ?_⟩
  · constructor
    · rintro ⟨message, appended⟩
      exact ⟨_, _, _, (exactly message).mp appended⟩
    · intro accepted
      obtain ⟨message, frame⟩ := accepted.message
      exact ⟨message, (exactly message).mpr frame⟩
  · intro rejected
    rw [refused_iff]
    exact fun both => rejected both.1

/-- Two ways to cut a stream into reads have one outcome: the handler appends the same
message both times, or raises both times and leaves the queue alone. -/
def SameOutcome (json : JsonCodec) (stream : Bytes) (one two : List Nat)
    (message_queue : List Message) : Prop :=
  (∃ message, Appended json stream one message_queue message ∧
      Appended json stream two message_queue message) ∨
    Refused json stream one message_queue ∧ Refused json stream two message_queue

/-- The outcomes are the same exactly if the stream is no frame, or both ways or neither read
the first three fields whole. The handler reads each of these once and takes what it gets; only
the payload is read in a loop. -/
theorem segmentation_independent (stream : Bytes) (one two : List Nat)
    (message_queue : List Message) :
    SameOutcome json stream one two message_queue ↔
      ¬ Accepted json stream ∨ (Whole one ↔ Whole two) := by
  constructor
  · rintro (⟨message, first, second⟩ | ⟨first, second⟩)
    · have wholeOne := ((appended_iff message).mp first).2
      have wholeTwo := ((appended_iff message).mp second).2
      exact Or.inr ⟨fun _ => wholeTwo, fun _ => wholeOne⟩
    · rw [refused_iff] at first second
      by_cases accepted : Accepted json stream
      · exact Or.inr ⟨fun whole => absurd ⟨accepted, whole⟩ first,
          fun whole => absurd ⟨accepted, whole⟩ second⟩
      · exact Or.inl accepted
  · intro condition
    by_cases both : Accepted json stream ∧ Whole one ∧ Whole two
    · obtain ⟨accepted, wholeOne, wholeTwo⟩ := both
      obtain ⟨message, frame⟩ := accepted.message
      exact Or.inl ⟨message, (appended_iff message).mpr ⟨frame, wholeOne⟩,
        (appended_iff message).mpr ⟨frame, wholeTwo⟩⟩
    · refine Or.inr ⟨refused_iff.mpr ?_, refused_iff.mpr ?_⟩
      · rintro ⟨accepted, wholeOne⟩
        rcases condition with rejected | same
        · exact rejected accepted
        · exact both ⟨accepted, wholeOne, same.mp wholeOne⟩
      · rintro ⟨accepted, wholeTwo⟩
        rcases condition with rejected | same
        · exact rejected accepted
        · exact both ⟨accepted, same.mpr wholeTwo, wholeTwo⟩

end Reception

namespace Json

def White (text : List Char) : Prop := ∀ char ∈ text, char ∈ [' ', '\t', '\n', '\r']

/-- The text of a number, with the exponent in either case. -/
def IsNumber (text : List Char) : Prop :=
  isNumberText (text.map fun char => if char = 'E' then 'e' else char) = true

/-- A text that goes on with the characters of a string, its closing quote, and then another
text. A character is itself or an escape, and control characters have to be escaped. -/
inductive StringText : List Char → List Char → Prop where
  | close (rest : List Char) : StringText ('"' :: rest) rest
  | plain (char : Char) {text rest : List Char} (visible : 32 ≤ char.toNat) (quote : char ≠ '"')
      (backslash : char ≠ '\\') (more : StringText text rest) : StringText (char :: text) rest
  | escape (char : Char) {text rest : List Char}
      (listed : char ∈ ['"', '\\', '/', 'b', 'f', 'n', 'r', 't']) (more : StringText text rest) :
      StringText ('\\' :: char :: text) rest
  | unit (one two three four : Char) {text rest : List Char}
      (hex : ∀ digit ∈ [one, two, three, four], (hexValue digit).isSome)
      (more : StringText text rest) :
      StringText ('\\' :: 'u' :: one :: two :: three :: four :: text) rest

mutual

/-- A text that starts with a value and goes on with another text. The value is what the text
stands for, so the relation is a grammar and its meaning in one. -/
inductive ValueText : List Char → List Char → Prop where
  | null (rest : List Char) : ValueText ('n' :: 'u' :: 'l' :: 'l' :: rest) rest
  | true (rest : List Char) : ValueText ('t' :: 'r' :: 'u' :: 'e' :: rest) rest
  | false (rest : List Char) : ValueText ('f' :: 'a' :: 'l' :: 's' :: 'e' :: rest) rest
  | number (digits rest : List Char) (number : IsNumber digits) : ValueText (digits ++ rest) rest
  | string {text rest : List Char} (string : StringText text rest) : ValueText ('"' :: text) rest
  | emptyArray (space rest : List Char) (white : White space) :
      ValueText ('[' :: (space ++ ']' :: rest)) rest
  | array {text rest : List Char} (items : ItemsText text rest) : ValueText ('[' :: text) rest
  | emptyObject (space rest : List Char) (white : White space) :
      ValueText ('{' :: (space ++ '}' :: rest)) rest
  | object {text rest : List Char} (members : MembersText text rest) :
      ValueText ('{' :: text) rest

/-- A value with white space around it, as it may stand anywhere in a text. -/
inductive ElementText : List Char → List Char → Prop where
  | element (before after : List Char) {text rest : List Char} (whiteBefore : White before)
      (whiteAfter : White after) (value : ValueText text (after ++ rest)) :
      ElementText (before ++ text) rest

/-- The items of a list and its closing bracket, with a comma between two items and none behind
the last. -/
inductive ItemsText : List Char → List Char → Prop where
  | last {text rest : List Char} (item : ElementText text (']' :: rest)) : ItemsText text rest
  | more {text middle rest : List Char} (item : ElementText text (',' :: middle))
      (items : ItemsText middle rest) : ItemsText text rest

/-- The members of an object and its closing brace, in their order. Where a key is there twice
the last value counts. -/
inductive MembersText : List Char → List Char → Prop where
  | last (before after : List Char) {key value rest : List Char} (whiteBefore : White before)
      (whiteAfter : White after) (name : StringText key (after ++ ':' :: value))
      (element : ElementText value ('}' :: rest)) : MembersText (before ++ '"' :: key) rest
  | more (before after : List Char) {key value middle rest : List Char}
      (whiteBefore : White before) (whiteAfter : White after)
      (name : StringText key (after ++ ':' :: value))
      (element : ElementText value (',' :: middle)) (members : MembersText middle rest) :
      MembersText (before ++ '"' :: key) rest

end

/-- A JSON text: one value with white space around it. -/
def IsText (text : List Char) : Prop := ElementText text []

/-- A number starts with its sign or with a digit. -/
theorem IsNumber.first {text : List Char} (number : IsNumber text) :
    ∃ first more, text = first :: more ∧ (first = '-' ∨ first.isDigit = true) := by
  cases text with
  | nil => cases number
  | cons first more =>
    refine ⟨first, more, rfl, ?_⟩
    by_cases exponent : first = 'E'
    · subst exponent
      simp [IsNumber, isNumberText, unsigned, isWhole, isDigits] at number
    · by_cases sign : first = '-'
      · exact Or.inl sign
      · refine Or.inr ?_
        by_contra letter
        simp [IsNumber, isNumberText, unsigned, isWhole, isDigits, exponent, sign, letter] at number

/-- A value starts with a character that is not `N`. -/
theorem ValueText.first {text rest : List Char} (value : ValueText text rest) :
    ∃ first more, text = first :: more ∧ first ≠ 'N' := by
  cases value with
  | number digits rest number =>
    obtain ⟨first, more, rfl, start⟩ := number.first
    refine ⟨first, more ++ rest, rfl, ?_⟩
    rintro rfl
    rcases start with sign | digit
    · cases sign
    · cases digit
  | _ => exact ⟨_, _, rfl, by decide⟩

theorem not_isText_NaN : ¬ IsText ['N', 'a', 'N'] := by
  intro grammatical
  generalize whole : ['N', 'a', 'N'] = text at grammatical
  cases grammatical with
  | element before after whiteBefore whiteAfter value =>
    obtain ⟨first, more, rfl, other⟩ := value.first
    cases before with
    | nil => exact other (List.cons.inj whole).1.symm
    | cons char before =>
      rw [← (List.cons.inj whole).1] at whiteBefore
      exact absurd (whiteBefore 'N' List.mem_cons_self) (by decide)

end Json

/-- A stream that is one frame whose payload is a JSON text. Its header is one of the known
headers, and its length is the one of the payload in bytes. -/
inductive Reception.JsonFrame : Bytes → Prop where
  | frame {cls : MessageClass} {sender text : String} {padded_sender size payload : Bytes}
      (known : cls ∈ MessageClass.known) (width : padded_sender.length = MAX_SENDER_LENGTH)
      (named : padded_sender.filter (· ≠ 0) ≠ [])
      (decoded : Bytes.utf8Text (padded_sender.filter (· ≠ 0)) = .ok sender)
      (sized : size.length = PAYLOAD_SIZE) (data_length : Bytes.toNat size = payload.length)
      (unpacked : Bytes.utf8Text payload = .ok text) (grammatical : Json.IsText text.toList) :
      JsonFrame (cls.header ++ (padded_sender ++ (size ++ payload)))

/-- A message without data from `alice`, and its frame. -/
def emptyMessage : Message := ⟨.Message, "alice", .obj [], alice_short⟩

def emptyFrame : Bytes :=
  [77, 83, 83, 71, 0, 0, 0, 0, 0, 0, 0, 0, 0, 0, 0, 97, 108, 105, 99, 101, 0, 0, 0, 2, 123, 125]

theorem emptyFrame_wellFormed : Reception.WellFormed json emptyFrame .Message "alice" (.obj []) := by
  have encoded : emptyMessage.encode_message json = .ok emptyFrame := rfl
  exact Message.wellFormed_encode json_faithful Value.isJson_nothing
    ⟨by decide, by decide, by decide⟩ encoded

/-- The frame is accepted in one piece, and refused if its first byte comes alone. -/
theorem first_byte_alone :
    Reception.Appended json emptyFrame [] [] emptyMessage ∧
      ¬ Reception.SameOutcome json emptyFrame [] [0] [] := by
  have appended : Reception.Appended json emptyFrame [] [] emptyMessage :=
    (Reception.appended_iff emptyMessage).mpr ⟨emptyFrame_wellFormed, Reception.whole_unlimited⟩
  refine ⟨appended, ?_⟩
  rintro (⟨message, _, second⟩ | ⟨first, _⟩)
  · have short := ((Reception.appended_iff message).mp second).2.1 0 rfl
    exact absurd short (by decide)
  · exact Reception.refused_iff.mp first
      ⟨⟨_, _, _, emptyFrame_wellFormed⟩, Reception.whole_unlimited⟩

theorem grammar_exact_empty : ∃ message, Reception.Appended json emptyFrame [] [] message :=
  (Reception.grammar_exact emptyFrame []
    ⟨Reception.allows_unlimited _, Reception.allows_unlimited _, Reception.allows_unlimited _⟩
    []).2.1.mpr ⟨_, _, _, emptyFrame_wellFormed⟩

/-- A message whose data is `nan`, and its frame. -/
def nanMessage : Message := ⟨.Message, "alice", .constant .NaN, alice_short⟩

def nanFrame : Bytes :=
  [77, 83, 83, 71, 0, 0, 0, 0, 0, 0, 0, 0, 0, 0, 0, 97, 108, 105, 99, 101, 0, 0, 0, 3, 78, 97, 78]

theorem nanFrame_wellFormed :
    Reception.WellFormed json nanFrame .Message "alice" (.constant .NaN) := by
  have encoded : nanMessage.encode_message json = .ok nanFrame := rfl
  exact Message.wellFormed_encode json_faithful (.constant .NaN)
    ⟨by decide, by decide, by decide⟩ encoded

/-- The payload `NaN` is accepted although it is no JSON text. -/
theorem nan_accepted :
    Reception.Appended json nanFrame [] [] nanMessage ∧ ¬ Reception.JsonFrame nanFrame := by
  refine ⟨(Reception.appended_iff nanMessage).mpr ⟨nanFrame_wellFormed, Reception.whole_unlimited⟩,
    fun grammatical => ?_⟩
  generalize whole : nanFrame = stream at grammatical
  cases grammatical with
  | @frame cls sender text padded_sender size payload known width named decoded sized data_length
      unpacked grammatical =>
    -- the fields of the frame have fixed lengths
    have behind : nanFrame.drop (HEADER_LENGTH + MAX_SENDER_LENGTH + PAYLOAD_SIZE) = payload := by
      rw [whole, ← List.append_assoc, ← List.append_assoc,
        List.drop_left' (by simp [cls.header_length, width, sized, Nat.add_assoc])]
    obtain rfl : [78, 97, 78] = payload := behind
    obtain rfl : "NaN" = text := Except.ok.inj unpacked
    exact Json.not_isText_NaN grammatical

end QChat
