import QChat.Replication
import QChat.Signing
import QChat.Wire

/-!
# A network of nodes

Servers and clients that run the same program and exchange frames. A node acts when one
of its events happens, when it registers with the root registry, when it sends a message
of its own or asks for qubits, and when a frame reaches it. Frames may overtake each
other and may be lost.
-/

namespace QChat

/-- Equality of two host names or two ports. -/
def sameAddress (one two : Value) : Bool :=
  match UserKey.ofValue one, UserKey.ofValue two with
  | .ok one, .ok two => decide (one = two)
  | _, _ => false

/-- A `try` whose `except` does no more than log. -/
def Method.guarded {State Error : Type} (method : Method State Error Unit) :
    Method State Error Unit :=
  fun state => (.ok (), (method state).2)

namespace QChatCore

variable (self : QChatCore)

/-- Internal method for constructing this server's registration data. -/
def _get_registration_data (userDB : UserDB) : Except Exn (List (String × Value)) := do
  let pub ← userDB.getPublicKey (.str self.name)
  let decoded ← UserDB.decodePub pub
  return [("user", .str self.name), ("pub", decoded)] ++ self.get_connection_info

/-- Sends this server's registration to the specified host and port. -/
def sendRegistration (host port : Value) : Method Node Exn Unit := do
  let data ← self._get_registration_data (← .get).userDB
  let message ← Message.ofDict .RGSTMessage self.name data
  let frame ← message.encode_message self.json
  send_message host port frame

/-- Registers our application server with the root registry server. -/
def _register_with_root_server : Method Node Exn Unit :=
  .guarded do
    let root_host ← self.root_config.item "host"
    let root_port ← self.root_config.item "port"
    if sameAddress self.host root_host && sameAddress self.port root_port then return ()
    else self.sendRegistration root_host root_port

/-- Sends a request for EPR pairs to the source. -/
def requestEPR (user : String) : Method Node Exn Unit := do
  let m ← Message.ofDict .RQQBMessage self.name [("user", .str user)]
  let host ← self.root_config.item "host"
  let port ← self.root_config.item "port"
  let frame ← m.encode_message self.json
  send_message host port frame

/-- The messages a node hands to `sendMessage`, chat messages and control messages of its
sessions: in its own name, of a class that is verified, and not signed yet. -/
structure Outgoing (core : QChatCore) (message : Message) : Prop where
  verified : message.cls.verify = true
  sender : message.sender = core.name
  valid : message.data.IsJson
  fresh : ∃ entries, message.data = .obj entries ∧ Dict.lookup "sig" entries = none

variable {self} in
theorem resolveUser_sameMessages (user : String) (node : Node) :
    SameMessages node (self.resolveUser id user node).2 := by
  simp only [resolveUser, Method.get_bind]
  split
  · exact SameMessages.refl node
  · refine Method.bind_relates _ SameMessages.trans
      (self.requestUserInfo_untouched node user).sameMessages fun _ after _ => ?_
    simp only [Method.modify_bind, Method.get_bind]
    split
    · exact SameMessages.refl after
    · exact SameMessages.refl after

variable {self} in
/-- Sending a message leaves the messages of the sender where they are. -/
theorem sendMessage_sameMessages (user : String) (node : Node) (message : Message) :
    SameMessages node (self.sendMessage id user (node, message)).2.1 := by
  let related (one two : Node × Message) : Prop := SameMessages one.1 two.1
  have composes : ∀ one two three, related one two → related two three → related one three :=
    fun _ _ _ first second => first.trans _ _ _ second
  suffices whole : related (node, message) (self.sendMessage id user (node, message)).2 from whole
  refine Method.bind_relates related composes (resolveUser_sameMessages user node)
    fun _ resolved _ => ?_
  simp only [Method.get_bind, Method.compute_bind]
  repeat' split
  all_goals try exact SameMessages.refl resolved.1
  rw [Method.bind_apply, signObject_apply]
  cases self._sign_message resolved.2 with
  | error exception => exact SameMessages.refl resolved.1
  | ok signed =>
    simp only [Method.get_bind, Method.compute_bind]
    split
    · exact ⟨rfl, rfl, rfl, rfl⟩
    · exact SameMessages.refl resolved.1

end QChatCore

/-- Nodes that use the same `json` module and are configured by one JSON file, in which each
name stands once. Every node has its own keys, host and port. -/
structure Network (Name : Type) where
  core : Name → QChatCore
  distinct : ∀ one two, (core one).name = (core two).name → one = two
  json : JsonCodec
  faithful : json.Faithful
  shared : ∀ name, (core name).json = json
  host : ∀ name, (core name).host.IsJson
  port : ∀ name, (core name).port.IsJson

/-- The nodes of a network and the frames between them. A frame is on its way from the moment it
is sent to the one at which it is delivered or lost, and any of them may be next. -/
structure Traffic (Name : Type) where
  node : Name → Node
  travelling : List Frame

variable {Name : Type} [DecidableEq Name]

/-- A node has changed; what it has sent since is on its way. -/
def Traffic.advance (state : Traffic Name) (name : Name) (after : Node) : Traffic Name where
  node := Function.update state.node name after
  travelling := state.travelling ++ after.sent.drop (state.node name).sent.length

namespace Network

variable (network : Network Name)

/-- Every node knows itself, and nothing is on its way. -/
def start : Traffic Name where
  node := fun name => (network.core name).boot
  travelling := []

/-- One step of a node or of the network. A call of `sendMessage` for an unknown user
ends at its timeout here; where the registry answers in time, the request is an event and
the call comes after it. -/
inductive Step : Traffic Name → Traffic Name → Prop where
  | event (state : Traffic Name) (name : Name) (event : Event) (after : Node)
      (own : ∀ message, event ≠ .inbound message)
      (stepped : (network.core name).Step (state.node name) event after) :
      Step state (state.advance name after)
  | register (state : Traffic Name) (name : Name) :
      Step state (state.advance name
        ((network.core name)._register_with_root_server (state.node name)).2)
  | send (state : Traffic Name) (name : Name) (user : String) (message : Message)
      (outgoing : (network.core name).Outgoing message) :
      Step state (state.advance name
        ((network.core name).sendMessage id user (state.node name, message)).2.1)
  | requestEPR (state : Traffic Name) (name : Name) (user : String) :
      Step state (state.advance name
        ((network.core name).requestEPR user (state.node name)).2)
  | deliver (state : Traffic Name) (name : Name) (frame : Frame) (before later : List Frame)
      (limits : List Nat) (message : Message)
      (flying : state.travelling = before ++ frame :: later)
      (host : frame.host = (network.core name).host) (port : frame.port = (network.core name).port)
      (received : Reception.Appended network.json frame.frame limits [] message) :
      Step state (({ state with travelling := before ++ later } : Traffic Name).advance name
        ((network.core name).process_message message (state.node name)).2)
  | lose (state : Traffic Name) (frame : Frame) (before later : List Frame)
      (flying : state.travelling = before ++ frame :: later) :
      Step state { state with travelling := before ++ later }

/-- The states of the network, after any steps in any order. -/
def Reachable (state : Traffic Name) : Prop :=
  Relation.ReflTransGen network.Step network.start state

end Network

end QChat
