import QChat.Protocols
import QChat.Transcript
import QChat.Triple

/-!
# Peers

Two protocol objects of one class that talk to each other, and what the methods
all protocol classes share do on both sides at once.
-/

namespace QChat

open Process

/-- The connection names of a leader and a follower, and their random choices. The names are
short enough for the header of a message. -/
structure Peers where
  name : Side → String
  short : ∀ side, (name side).length ≤ MAX_SENDER_LENGTH
  chances : Side → Chances

/-- A control message on its way or in a queue, the session that sent it and the end of
this session it was sent to. -/
structure Envelope where
  session : Nat
  side : Side
  message : Message

namespace Peers

variable (peers : Peers)

/-- The protocol object of a party, as its constructor fills it from the role, the names and the
size of the key. -/
def endpoint (protocol : ProtocolClass) (key_size : Value) (side : Side) : Endpoint :=
  ⟨protocol, side, peers.name side, peers.name side.other, key_size, peers.chances side⟩

/-- A message of one party. Its sender is the name of the party's connection. -/
def message (side : Side) (message_type : MessageClass)
    (message_data : List (String × Value)) : Message :=
  ⟨message_type, peers.name side, .obj message_data, peers.short side⟩

variable {protocol : ProtocolClass} {key_size : Value}

@[simp] theorem message_data (side : Side) (message_type : MessageClass)
    (data : List (String × Value)) :
    (peers.message side message_type data).data = .obj data := rfl

@[simp] theorem message_cls (side : Side) (message_type : MessageClass)
    (data : List (String × Value)) :
    (peers.message side message_type data).cls = message_type := rfl

@[simp] theorem message_sender (side : Side) (message_type : MessageClass)
    (data : List (String × Value)) :
    (peers.message side message_type data).sender = peers.name side := rfl

@[simp] theorem endpoint_role (side : Side) :
    (peers.endpoint protocol key_size side).role = side := rfl

@[simp] theorem endpoint_protocol (side : Side) :
    (peers.endpoint protocol key_size side).protocol = protocol := rfl

@[simp] theorem endpoint_chances (side : Side) :
    (peers.endpoint protocol key_size side).chances = peers.chances side := rfl

variable {Port Item α : Type}

/-- Sending a control message is one action. -/
@[simp] theorem send_control_message (side : Side) (message_data : List (String × Value))
    (message_type : MessageClass) :
    ((peers.endpoint protocol key_size side)._send_control_message message_data message_type :
      Process Message Port Item Exn Unit) =
      .send (peers.message side message_type message_data) (.done ()) := by
  have built := Message.ofDict_ok message_type (peers.name side) message_data (peers.short side)
  simp only [Endpoint._send_control_message, endpoint, built, attempt_ok, done_bind, message]

/-- A required field that is true. -/
@[simp] theorem require_message (side : Side) (message_type : MessageClass)
    (key failure : String) :
    (Endpoint.require (peers.message side message_type [(key, .bool true)]) key failure :
      Process Message Port Item Exn Unit) = .done () := by
  simp only [Endpoint.require, message_data, Value.item_single, attempt_ok, done_bind,
    Value.truthy, ↓reduceIte]

/-- What waiting makes of a message before it goes on: a message of another class ends the
protocol with an exception. -/
def accept (message_type : MessageClass) (next : Message → Process Message Port Item Exn α)
    (m : Message) : Process Message Port Item Exn α :=
  (if m.cls = message_type ∨ message_type = .Message then .done m
    else .raised (.ProtocolException "Received incorrect control message") :
      Process Message Port Item Exn Message) >>= next

theorem wait_bind (message_type : MessageClass)
    (next : Message → Process Message Port Item Exn α) :
    (_wait_for_control_message message_type >>= next) = .receive (accept message_type next) := rfl

/-- Waiting ends with a message of the expected class. -/
@[simp] theorem accept_message (side : Side) (message_type : MessageClass)
    (data : List (String × Value)) (next : Message → Process Message Port Item Exn α) :
    accept message_type next (peers.message side message_type data) =
      next (peers.message side message_type data) := by
  rw [accept, message_cls, if_pos (Or.inl rfl), done_bind]

/-- The leader's half of an exchange: it speaks first and then listens. -/
theorem exchange_lead (data : List (String × Value)) (message_type : MessageClass) :
    ((peers.endpoint protocol key_size .lead).exchange_messages data message_type :
      Process Message Port Item Exn Message) =
      .send (peers.message .lead message_type data)
        (_wait_for_control_message message_type) := by
  simp only [Endpoint.exchange_messages, endpoint_role, send_control_message, send_bind, done_bind]

/-- The follower's half of an exchange: it listens first and then speaks. -/
theorem exchange_follow (data : List (String × Value)) (message_type : MessageClass) :
    ((peers.endpoint protocol key_size .follow).exchange_messages data message_type :
      Process Message Port Item Exn Message) =
      (_wait_for_control_message message_type >>= fun m =>
        .send (peers.message .follow message_type data) (.done m)) := by
  simp only [Endpoint.exchange_messages, endpoint_role, send_control_message, send_bind, done_bind,
    pure_eq]

/-- The leader speaks and waits for the answer. -/
theorem exchange_lead_bind (data : List (String × Value)) (message_type : MessageClass)
    (next : Message → Process Message Port Item Exn α) :
    ((peers.endpoint protocol key_size .lead).exchange_messages data message_type >>= next) =
      .send (peers.message .lead message_type data) (.receive (accept message_type next)) := by
  rw [exchange_lead, send_bind, wait_bind]

/-- The follower waits and answers. -/
theorem exchange_follow_bind (data : List (String × Value)) (message_type : MessageClass)
    (next : Message → Process Message Port Item Exn α) :
    ((peers.endpoint protocol key_size .follow).exchange_messages data message_type >>= next) =
      .receive (accept message_type fun m =>
        .send (peers.message .follow message_type data) (next m)) := by
  rw [exchange_follow, bind_assoc, wait_bind]
  simp only [send_bind, done_bind]

/-- Waiting for a message says nothing. -/
theorem wait_keeping (message_type : MessageClass)
    (next : Message → Process Message Port Item Exn α) (said : List Message) :
    (_wait_for_control_message message_type >>= next).keeping said =
      _wait_for_control_message message_type >>= fun m => (next m).keeping said := by
  simp only [_wait_for_control_message, receive_bind, keeping_receive]
  refine congrArg _ (funext fun m => ?_)
  split <;> rfl

/-- The messages of an exchange are kept with what was said before: one for each party. -/
theorem exchange_keeping (side : Side) (data : List (String × Value)) (message_type : MessageClass)
    (next : Message → Process Message Port Item Exn α) (said : List Message) :
    ((peers.endpoint protocol key_size side).exchange_messages data message_type >>= next).keeping
        said =
      (peers.endpoint protocol key_size side).exchange_messages data message_type >>=
        fun response => (next response).keeping (said ++ [peers.message side message_type data]) := by
  cases side with
  | lead =>
    rw [exchange_lead, send_bind, keeping_send, wait_keeping, send_bind]
  | follow =>
    simp only [exchange_follow, bind_assoc, send_bind, done_bind, wait_keeping, keeping_send]

/-- A party that waits for a message is calm. -/
theorem wait_calm (idle : α → Prop) (message_type : MessageClass)
    (next : Message → Process Message Port Item Exn α) :
    (_wait_for_control_message message_type >>= next).calm idle := trivial

theorem exchange_calm (idle : α → Prop) (data : List (String × Value))
    (message_type : MessageClass) (next : Message → Process Message Port Item Exn α) :
    ((peers.endpoint protocol key_size .follow).exchange_messages data message_type >>=
      next).calm idle := by
  rw [exchange_follow]
  trivial

end Peers

/-- Both parties exchange messages of one class and continue with the other's. -/
theorem Together.exchange_messages (peers : Peers) {protocol : ProtocolClass} {key_size : Value}
    {Port Item α : Type} [DecidableEq Port] {wiring : Wiring Port}
    (data : Side → List (String × Value)) (message_type : MessageClass)
    (next : Side → Message → Process Message Port Item Exn α) (post : (Side → α) → Prop)
    (rest : Together wiring
      (fun side => next side (peers.message side.other message_type (data side.other))) post) :
    Together wiring
      (fun side => (peers.endpoint protocol key_size side).exchange_messages (data side)
        message_type >>= next side)
      post := by
  refine Together.exchange _ _ (peers.exchange_lead_bind (data .lead) message_type (next .lead))
    (peers.exchange_follow_bind (data .follow) message_type (next .follow))
    (Peers.accept_message ..) fun ended leads follows => ?_
  rw [Peers.accept_message] at leads
  have both : ended =
      fun side => next side (peers.message side.other message_type (data side.other)) := by
    funext side
    cases side with
    | lead => exact leads
    | follow => exact follows
  rw [both]
  exact rest

namespace Triple

variable (peers : Peers) {protocol : ProtocolClass} {key_size : Value}
variable {Port Item α : Type} [DecidableEq Port]
variable {terms : Terms Message Port Item Exn} {ready : Side → Port → Item → Prop}
variable {returns : α → Prop}

/-- Both parties exchange messages of one class and continue with the other's. -/
theorem exchange_messages (data : Side → List (String × Value)) (message_type : MessageClass)
    (next : Side → Message → Process Message Port Item Exn α) (post : (Side → α) → Prop)
    (calm : (next .follow (peers.message .lead message_type (data .lead))).calm returns)
    (rest : Triple terms ready returns
      (fun side => next side (peers.message side.other message_type (data side.other))) post) :
    Triple terms ready returns
      (fun side => (peers.endpoint protocol key_size side).exchange_messages (data side)
        message_type >>= next side)
      post := by
  refine exchange _ _ (peers.exchange_lead_bind (data .lead) message_type (next .lead))
    (peers.exchange_follow_bind (data .follow) message_type (next .follow))
    (Peers.accept_message ..) calm fun ended leads follows => ?_
  rw [Peers.accept_message] at leads
  have both : ended =
      fun side => next side (peers.message side.other message_type (data side.other)) := by
    funext side
    cases side with
    | lead => exact leads
    | follow => exact follows
  rw [both]
  exact rest

/-- The handshake: the leader asks with data that stands for the protocol, and the
follower makes its protocol object from it. Both `_lead_protocol` methods are
this one with their own data. -/
theorem handshake {asks : Process Message Port Item Exn Unit} (data : List (String × Value))
    (request : protocolRequest (.obj data) = .ok (protocol, key_size))
    (asked : asks = do
      (peers.endpoint protocol key_size .lead)._send_control_message data .PTCLMessage
      let response ← _wait_for_control_message protocol.message_type
      let answer ← attempt (response.data.item "ACK")
      match answer with
      | .str "ACK" => .done ()
      | _ => .raised (.ProtocolException "Failed to establish leader/role"))
    (leads : Process Message Port Item Exn α)
    (follows : Endpoint → Process Message Port Item Exn α) {post : (Side → α) → Prop}
    (calm : (follows (peers.endpoint protocol key_size .follow)).calm returns)
    (rest : Triple terms ready returns
      (Side.select leads (follows (peers.endpoint protocol key_size .follow))) post) :
    Triple terms ready returns
      (Side.select (asks >>= fun _ => leads)
        (QChatClient._follow_protocol (peers.name .follow) (peers.chances .follow) >>= follows))
      post := by
  have acknowledged : (peers.message .follow protocol.message_type [("ACK", .str "ACK")]).data.item
      "ACK" = .ok (.str "ACK") := by simp
  have replied : ((peers.endpoint protocol key_size .follow)._follow_protocol :
      Process Message Port Item Exn Unit) =
      .send (peers.message .follow protocol.message_type [("ACK", .str "ACK")]) (.done ()) :=
    peers.send_control_message .follow _ _
  subst asked
  refine exchange (peers.message .lead .PTCLMessage data)
    (peers.message .follow protocol.message_type [("ACK", .str "ACK")]) (by
      simp only [Side.select_lead, Peers.send_control_message, send_bind, done_bind,
        _wait_for_control_message, receive_bind]
      rfl) (by
      simp only [Side.select_follow, QChatClient._follow_protocol, receive_bind]
      rfl)
    ((by
      simp only [Peers.message_cls, ↓reduceIte, Peers.message_data, request, attempt_ok, done_bind]
      change (((peers.endpoint protocol key_size .follow)._follow_protocol >>= fun _ =>
        pure (peers.endpoint protocol key_size .follow)) >>= follows) = _
      rw [replied]
      rfl) : _ = Process.send _ (follows (peers.endpoint protocol key_size .follow)))
    calm fun ended leadEnds followEnds => ?_
  have both : ended = Side.select leads (follows (peers.endpoint protocol key_size .follow)) := by
    funext side
    cases side with
    | lead =>
      rw [leadEnds]
      simp only [Peers.message_cls, true_or, ↓reduceIte, done_bind, acknowledged, attempt_ok]
      rfl
    | follow => exact followEnds
  rw [both]
  exact rest

end Triple

end QChat
