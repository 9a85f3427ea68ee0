import QChat.Bytes

/-!
# Messages

The message classes with their headers and flags, the checks of the constructor,
the encoding of a message into the frame that is sent, and the factory that
chooses the class of a received frame by its header.

The `json` module is a parameter. What the development uses of it is stated in
`JsonCodec.Faithful`.
-/

namespace QChat

def HEADER_LENGTH : Nat := 4
def PAYLOAD_SIZE : Nat := 4
def MAX_SENDER_LENGTH : Nat := 16

/-- The functions of the `json` module the program calls. Most results take any such functions,
so that nothing but the properties they name is used of the module. -/
structure JsonCodec where
  dumps : Value → Except Exn String
  loads : String → Except Exn Value

/-- Loading undoes dumping, with the order of keys kept. This holds for values that a JSON text
can stand for; byte strings are refused by the module. -/
structure JsonCodec.Faithful (json : JsonCodec) : Prop where
  loads_dumps : ∀ value, value.IsJson → ∃ text, json.dumps value = .ok text ∧
    json.loads text = .ok value

/-- The message classes. Each has a header of four characters, and two flags that say whether a
signature is checked and whether it is taken out of the data. -/
inductive MessageClass where
  | Message
  | RGSTMessage
  | AUTHMessage
  | QCHTMessage
  | GETUMessage
  | PUTUMessage
  | PTCLMessage
  | RQQBMessage
  | BB84Message
  | DQKDMessage
  | SPDSMessage
deriving DecidableEq, Repr

namespace MessageClass

/-- The four bytes a frame of the class starts with. -/
def header : MessageClass → Bytes
  | .Message => Bytes.utf8 "MSSG"
  | .RGSTMessage => Bytes.utf8 "RGST"
  | .AUTHMessage => Bytes.utf8 "AUTH"
  | .QCHTMessage => Bytes.utf8 "QCHT"
  | .GETUMessage => Bytes.utf8 "GETU"
  | .PUTUMessage => Bytes.utf8 "PUTU"
  | .PTCLMessage => Bytes.utf8 "PTCL"
  | .RQQBMessage => Bytes.utf8 "RQQB"
  | .BB84Message => Bytes.utf8 "BB84"
  | .DQKDMessage => Bytes.utf8 "DQKD"
  | .SPDSMessage => Bytes.utf8 "SPDS"

/-- Whether a received message of the class must carry a valid signature. -/
def verify : MessageClass → Bool
  | .QCHTMessage | .PTCLMessage | .BB84Message | .DQKDMessage | .SPDSMessage => true
  | _ => false

/-- Whether the signature of a received message is removed before it is handled. -/
def strip : MessageClass → Bool
  | .QCHTMessage | .GETUMessage | .PUTUMessage | .PTCLMessage | .BB84Message | .DQKDMessage
  | .SPDSMessage => true
  | _ => false

/-- The classes `MessageFactory` knows, in the order of its mapping. -/
def known : List MessageClass :=
  [.Message, .RGSTMessage, .AUTHMessage, .PUTUMessage, .GETUMessage, .QCHTMessage, .BB84Message,
    .PTCLMessage, .RQQBMessage, .SPDSMessage, .DQKDMessage]

/-- The class `MessageFactory` maps a header to. -/
def ofHeader (header : Bytes) : Except Exn MessageClass :=
  match known.find? (fun cls => cls.header = header) with
  | some cls => .ok cls
  | none => .error (.KeyError (Bytes.latin1Text header))

/-- Every header has four characters. -/
@[simp] theorem header_length (cls : MessageClass) : cls.header.length = HEADER_LENGTH := by
  cases cls <;> rfl

/-- No two classes share a header, and the factory knows each of them. -/
@[simp] theorem ofHeader_header (cls : MessageClass) : ofHeader cls.header = .ok cls := by
  cases cls <;> decide

end MessageClass

/-- The data a message is constructed from: a dictionary as it is, or the bytes of a JSON text
that have been received. -/
inductive MessageData where
  | dict (entries : List (String × Value))
  | str (text : String)
  | bytes (content : Bytes)
  | other

/-- A message object. The constructor admits no sender of more than sixteen characters, so the
bound is part of the object. -/
structure Message where
  cls : MessageClass
  sender : String
  data : Value
  short : sender.length ≤ MAX_SENDER_LENGTH

theorem alice_short : "alice".length ≤ MAX_SENDER_LENGTH := by decide
theorem bob_short : "bob".length ≤ MAX_SENDER_LENGTH := by decide
theorem eve_short : "eve".length ≤ MAX_SENDER_LENGTH := by decide

namespace Message

/-- Transforms the message data into a value. Whatever goes wrong is a malformed
message. -/
def unpack_message_data (json : JsonCodec) (message_data : MessageData) : Except Exn Value :=
  let unpacked : Except Exn Value :=
    match message_data with
    | .dict entries => .ok (.obj entries)
    | .str text => json.loads text
    | .bytes content => do json.loads (← Bytes.utf8Text content)
    | .other => .error (.MalformedMessage "")
  match unpacked with
  | .ok data => .ok data
  | .error _ => .error (.MalformedMessage "")

/-- The constructor. -/
def init (json : JsonCodec) (cls : MessageClass) (sender : String) (message_data : MessageData) :
    Except Exn Message :=
  if short : sender.length ≤ MAX_SENDER_LENGTH then do
    let data ← unpack_message_data json message_data
    return ⟨cls, sender, data, short⟩
  else .error (.MalformedMessage "Length of sender too long")

/-- The constructor on a dictionary, which it keeps as it is. -/
def ofDict (cls : MessageClass) (sender : String) (entries : List (String × Value)) :
    Except Exn Message :=
  if short : sender.length ≤ MAX_SENDER_LENGTH then .ok ⟨cls, sender, .obj entries, short⟩
  else .error (.MalformedMessage "Length of sender too long")

/-- The sender's last sixteen bytes, behind zero bytes. -/
def padded_sender (sender : String) : Bytes :=
  let padded := List.replicate MAX_SENDER_LENGTH 0 ++ Bytes.utf8 sender
  padded.drop (padded.length - 16)

/-- Encodes the message into its frame: header, sender, payload size and payload. -/
def encode_message (json : JsonCodec) (self : Message) : Except Exn Bytes := do
  let text ← match json.dumps self.data with
    | .ok text => .ok text
    | .error _ => .error (.MalformedMessage "")
  let byte_data := Bytes.utf8 text
  let size ← Bytes.ofInt PAYLOAD_SIZE byte_data.length
  return self.cls.header ++ padded_sender self.sender ++ size ++ byte_data

/-- The message with other data. -/
def withData (self : Message) (data : Value) : Message := { self with data := data }

/-- A message with a short sender is built. -/
theorem ofDict_ok (cls : MessageClass) (sender : String) (entries : List (String × Value))
    (short : sender.length ≤ MAX_SENDER_LENGTH) :
    ofDict cls sender entries = .ok ⟨cls, sender, .obj entries, short⟩ := dif_pos short

/-- What is built has the given class, sender and data. -/
theorem of_ofDict {cls : MessageClass} {sender : String} {entries : List (String × Value)}
    {message : Message} (made : ofDict cls sender entries = .ok message) :
    message.cls = cls ∧ message.sender = sender ∧ message.data = .obj entries := by
  unfold ofDict at made
  split at made
  · cases made
    exact ⟨rfl, rfl, rfl⟩
  · cases made

end Message

/-- Creates a message of the class its header selects. -/
def MessageFactory.create_message (json : JsonCodec) (header : Bytes) (sender : String)
    (message_data : MessageData) : Except Exn Message := do
  let cls ← MessageClass.ofHeader header
  Message.init json cls sender message_data

end QChat
