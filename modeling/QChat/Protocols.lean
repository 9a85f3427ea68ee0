import QChat.Duet
import QChat.Messages

/-!
# Protocol objects

What the protocol classes share: the control messages of one party, the
handshake that starts a key protocol and the exchange that ends it. A method of
a protocol object is a process whose messages go to the peer.

The two halves of an entangled pair reach the parties on two ports, one for each
party. The result of measuring a half, and every random choice, is given by
`Chances`; a theorem about all `Chances` is about all outcomes and all choices.
Waiting has no time limit here.
-/

namespace QChat

open QChat.Process

def ROUND_SIZE : Nat := 100
def BYTE_LEN : Nat := 8

/-- A method of a protocol object. Ports are named by the party that takes from
them, and what arrives there is one half of a pair. -/
abbrev Program (α : Type) : Type := Process Message Side Unit Exn α

variable {Port Item : Type}

/-- The names of two clients. -/
theorem alice_bob_short (side : Side) :
    (Side.select "alice" "bob" side).length ≤ MAX_SENDER_LENGTH := by
  cases side with
  | lead => exact alice_short
  | follow => exact bob_short

/-- Two clients. Either of them may lead a session with the other. -/
inductive Client where
  | A
  | B
deriving DecidableEq

/-- The opposite client. -/
def Client.other : Client → Client
  | .A => .B
  | .B => .A

@[simp] theorem Client.other_other (client : Client) : client.other.other = client := by
  cases client <;> rfl

@[simp] theorem Client.other_ne (client : Client) : client.other ≠ client := by
  cases client <;> decide

/-- An ordinary computation inside a method. -/
def attempt {α : Type} : Except Exn α → Process Message Port Item Exn α
  | .ok result => .done result
  | .error exception => .raised exception

@[simp] theorem attempt_ok {α : Type} (result : α) :
    (attempt (.ok result) : Process Message Port Item Exn α) = .done result := (rfl)

@[simp] theorem attempt_error {α : Type} (exception : Exn) :
    (attempt (.error exception) : Process Message Port Item Exn α) = .raised exception := (rfl)

/-- The protocol classes, as the factory knows them by their names. -/
inductive ProtocolClass where
  | BB84_Purified
  | DIQKD
  | SuperDenseCoding
deriving DecidableEq, Repr

namespace ProtocolClass

def name : ProtocolClass → String
  | .BB84_Purified => "BB84_PURIFIED"
  | .DIQKD => "DIQKD"
  | .SuperDenseCoding => "SUPERDENSE"

/-- The class of the control messages. -/
def message_type : ProtocolClass → MessageClass
  | .BB84_Purified => .BB84Message
  | .DIQKD => .DQKDMessage
  | .SuperDenseCoding => .SPDSMessage

/-- Whether the class is a `QChatKeyProtocol`. -/
def isKeyProtocol : ProtocolClass → Bool
  | .BB84_Purified | .DIQKD => true
  | .SuperDenseCoding => false

/-- The class of a name, if the factory has one. -/
def createProtocol (name : String) : Option ProtocolClass :=
  [BB84_Purified, DIQKD, SuperDenseCoding].find? (fun protocol => protocol.name = name)

@[simp] theorem createProtocol_name (protocol : ProtocolClass) :
    createProtocol protocol.name = some protocol := by
  cases protocol <;> decide

end ProtocolClass

/-- The random choices and measurement outcomes of one party. Bases and outcomes
are numbered by the call of `distill_tested_data` and the position in it, test
indices likewise by the draw, and seeds by the call of `_amplify_privacy`. -/
structure Chances where
  basisflip : Nat → Nat → Bit
  measure : Nat → Nat → Bit
  index : Nat → Nat → Nat
  Y : Nat → UInt8

/-- The attributes of a protocol object: its class and role, the name of the own
connection and the peer's, and the key size, which the follower takes from a
message as it is. -/
structure Endpoint where
  protocol : ProtocolClass
  role : Side
  name : String
  user : String
  key_size : Value
  chances : Chances

/-- `random.randint(0, high)` from an unlimited random number. -/
def randint (high chance : Nat) : Nat := chance % (high + 1)

/-- Waits for a control message from our peer: takes the oldest one and verifies
that it is of the expected class. -/
def _wait_for_control_message (message_type : MessageClass) :
    Process Message Port Item Exn Message :=
  .receive fun message =>
    if message.cls = message_type ∨ message_type = .Message then .done message
    else .raised (.ProtocolException "Received incorrect control message")

namespace Endpoint

/-- Sends a control message to our peer. -/
def _send_control_message (self : Endpoint) (message_data : List (String × Value))
    (message_type : MessageClass) : Process Message Port Item Exn Unit := do
  let message ← attempt (Message.ofDict message_type self.name message_data)
  .send message (.done ())

/-- Exchanges messages with our peer: the leader speaks first. -/
def exchange_messages (self : Endpoint) (message_data : List (String × Value))
    (message_type : MessageClass) : Process Message Port Item Exn Message :=
  match self.role with
  | .lead => do
    self._send_control_message message_data message_type
    _wait_for_control_message message_type
  | .follow => do
    let m ← _wait_for_control_message message_type
    self._send_control_message message_data message_type
    return m

/-- Asks the source for a pair: each party will find its half on its port. -/
def requestEPR (self : Endpoint) : Program Unit :=
  .signal self.role () (.signal self.role.other () (.done ()))

/-- Takes our half of the next pair. -/
def receiveEPR (self : Endpoint) : Program Unit := .await self.role .done

/-- A field of a received message must be true. -/
def require (m : Message) (key : String) (failure : String) :
    Process Message Port Item Exn Unit := do
  let value ← attempt (m.data.item key)
  if value.truthy then .done () else .raised (.ProtocolException failure)

/-- Initiates a key generation protocol. -/
def _lead_protocol (self : Endpoint) : Process Message Port Item Exn Unit := do
  self._send_control_message [("name", .str self.protocol.name), ("key_size", self.key_size)]
    .PTCLMessage
  let response ← _wait_for_control_message self.protocol.message_type
  let answer ← attempt (response.data.item "ACK")
  match answer with
  | .str "ACK" => .done ()
  | _ => .raised (.ProtocolException "Failed to establish leader/role")

/-- Initiates the following of a key generation protocol. -/
def _follow_protocol (self : Endpoint) : Process Message Port Item Exn Unit :=
  self._send_control_message [("ACK", .str "ACK")] self.protocol.message_type

/-- Concludes a key generation protocol. -/
def _end_protocol (self : Endpoint) : Process Message Port Item Exn Unit := do
  let m ← self.exchange_messages [("FIN", .bool true)] self.protocol.message_type
  require m "FIN" ("Failed to terminate " ++ self.protocol.name ++ " protocol")

end Endpoint

/-- The protocol class and arguments of a received PTCL message. Its `name`
selects the class; what else it carries must be exactly the arguments of that
class: the key size for a key protocol, nothing for a message protocol. -/
def protocolRequest (data : Value) : Except Exn (ProtocolClass × Value) :=
  match data with
  | .obj entries =>
    match Dict.lookup "name" entries with
    | none => .error (.KeyError "name")
    | some (.str name) =>
      match ProtocolClass.createProtocol name with
      | none => .error .AttributeError
      | some protocol =>
        match protocol.isKeyProtocol, Dict.remove "name" entries with
        | true, [("key_size", key_size)] => .ok (protocol, key_size)
        | false, [] => .ok (protocol, .null)
        | _, _ => .error .TypeError
    | some (.arr _) | some (.obj _) => .error .TypeError
    | some _ => .error .AttributeError
  | _ => .error .AttributeError

/-- Assume the follower's role when a PTCL message arrives. Messages of other
classes have other handlers; none of them reaches this point. -/
def QChatClient._follow_protocol (name : String) (chances : Chances) :
    Process Message Port Item Exn Endpoint :=
  .receive fun message =>
    if message.cls = .PTCLMessage then do
      let (protocol, key_size) ← attempt (protocolRequest message.data)
      let p : Endpoint := ⟨protocol, .follow, name, message.sender, key_size, chances⟩
      p._follow_protocol
      return p
    else .raised (.ProtocolException "Received incorrect control message")

end QChat
