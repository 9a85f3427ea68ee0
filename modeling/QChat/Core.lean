import QChat.Methods
import QChat.Protocols
import QChat.Runs
import QChat.UserDB

/-!
# Nodes

A node of the network, a server or a client, and how it processes inbound
messages. The steps of a node are taken where the source can be interrupted: at
the arrival of a message, at the end of the wait for the registry, at the start
and the end of a protocol session, and when a session takes a control message.
Between these points a call runs to its end.

What a running session does is not described here; any message it takes and any
key or text it ends with is a possible step. The signature scheme and the `json`
module are parameters. Writing to a socket always succeeds.
-/

namespace QChat

/-- The two kinds of node. They differ in the handlers of their messages. -/
inductive Role where
  | QChatServer
  | QChatClient
deriving DecidableEq, Repr

/-- What a node has from its construction on: its configuration, its own key and
the libraries it calls. `verify` is given a public key as it is stored. -/
structure QChatCore where
  role : Role
  name : String
  host : Value
  port : Value
  root_config : Value
  allow_invalid_signatures : Bool
  pub : Bytes
  json : JsonCodec
  sign : Bytes → Bytes
  verify : Value → Bytes → Bytes → Except Exn Bool

/-- A frame on its way to a host and port. The host and the port are values, as they come from a
configuration or from a message and are never checked. -/
structure Frame where
  host : Value
  port : Value
  frame : Bytes

/-- A running protocol session: the user whose control queue and database entry it uses, and the
protocol object's attributes. What the protocol does in between is modelled on its own; at the
node a session takes messages, and ends with a key or with a message. -/
structure Session where
  user : String
  peer_info : Dict UserKey Value
  role : Side
  protocol : ProtocolClass
  key_size : Value

/-- What changes in a node. `resolving` are the messages whose sender the
registry has been asked about; `qubits` are the users to whom halves of pairs have been
sent, in this order. -/
structure Node where
  userDB : UserDB
  control_message_queue : Dict String (List Message)
  mailbox : List Message
  resolving : List Message
  sessions : List Session
  sent : List Frame
  qubits : List Value

/-- The control messages of a user, none at first. -/
def Node.queue (node : Node) (user : String) : List Message :=
  (node.control_message_queue.get? user).getD []

/-- What handles a message: the methods that the table of a node names for the headers of its
messages, and the one that takes all the others. -/
inductive Handler where
  | registerUser
  | sendUserInfo
  | addUserInfo
  | _distribute_qubits
  | storeMessage
  | _follow_protocol
  | _store_control_message
deriving DecidableEq, Repr

/-- The handlers a node has for message classes. -/
def proc_map : Role → MessageClass → Option Handler
  | .QChatServer, .RGSTMessage => some .registerUser
  | .QChatServer, .GETUMessage => some .sendUserInfo
  | .QChatServer, .PUTUMessage => some .addUserInfo
  | .QChatServer, .RQQBMessage => some ._distribute_qubits
  | .QChatClient, .QCHTMessage => some .storeMessage
  | .QChatClient, .GETUMessage => some .sendUserInfo
  | .QChatClient, .PUTUMessage => some .addUserInfo
  | .QChatClient, .PTCLMessage => some ._follow_protocol
  | _, _ => none

/-- The handler of a message: classes without one go to the control queue. -/
def handlerOf (role : Role) (cls : MessageClass) : Handler :=
  (proc_map role cls).getD ._store_control_message

/-- The arguments of a call that passes a dictionary for exactly these
parameters. -/
def arguments (parameters : List String) (data : Value) : Except Exn (List Value) :=
  match data with
  | .obj entries =>
    if entries.length = parameters.length then
      parameters.mapM fun parameter =>
        match Dict.lookup parameter entries with
        | some value => .ok value
        | none => .error .TypeError
    else .error .TypeError
  | _ => .error .TypeError

/-- The arguments of a call that passes a dictionary to a method with a parameter
`user` and keyword arguments. -/
def userArguments (data : Value) : Except Exn (Value × UserInfo) :=
  match data with
  | .obj entries =>
    match Dict.lookup "user" entries, Dict.lookup "self" entries with
    | some user, none => .ok (user, Dict.ofList (Dict.remove "user" entries))
    | _, _ => .error .TypeError
  | _ => .error .TypeError

/-- Internal method for stripping signature data from a message. -/
def _strip_signature (message : Message) : Except Exn (Message × Bytes) := do
  let (sig, data) ← message.data.pop "sig"
  let signature ← sig.encode
  return (message.withData data, signature)

namespace QChatCore

variable (self : QChatCore)

def get_connection_info : List (String × Value) :=
  [("connection", .obj [("host", self.host), ("port", self.port)])]

/-- The node when it starts: it knows itself. -/
def boot : Node where
  userDB := UserDB.init.addUser (.str self.name)
    (Dict.ofList (("pub", .bytes self.pub) :: self.get_connection_info))
  control_message_queue := Dict.empty
  mailbox := []
  resolving := []
  sessions := []
  sent := []
  qubits := []

/-- Connects and sends a message. -/
def send_message (host port : Value) (frame : Bytes) : Method Node Exn Unit :=
  .modify fun node => { node with sent := node.sent ++ [⟨host, port, frame⟩] }

/-- Internal method for signing outbound messages to assure authentication. -/
def _sign_message (message : Message) : Except Exn Message := do
  let frame ← message.encode_message self.json
  let sig := self.sign frame
  match message.data with
  | .obj entries =>
    return message.withData (.obj (Dict.assign "sig" (.str (Bytes.latin1Text sig)) entries))
  | _ => .error .TypeError

/-- Internal method for verifying the signature provided with a message. -/
def _verify_message (userDB : UserDB) (message : Message) (signature : Bytes) :
    Except Exn Unit := do
  let data ← message.encode_message self.json
  let pub ← userDB.getPublicKey (.str message.sender)
  if ← self.verify pub data signature then return ()
  else .error (.Exception "Obtained message with incorrect signature")

/-- Signs a message for a host and port and sends it. -/
def signAndSend (message : Message) (host port : Except Exn Value) : Method Node Exn Unit := do
  let message ← self._sign_message message
  let host ← host
  let port ← port
  let frame ← message.encode_message self.json
  send_message host port frame

/-- Requests the specified user's information from the root registry. The wait
for the answer is a step of its own. -/
def requestUserInfo (user : String) : Method Node Exn Unit := do
  let m ← Message.ofDict .GETUMessage self.name (("user", .str user) :: self.get_connection_info)
  self.signAndSend m (self.root_config.item "host") (self.root_config.item "port")

/-- Sends the specified user's information to the given connection. -/
def sendUserInfo (user connection : Value) : Method Node Exn Unit := do
  let key ← UserKey.ofValue user
  let public_info ← (← .get).userDB.getPublicUserInfo key
  let message ← Message.ofDict .PUTUMessage self.name public_info
  self.signAndSend message (connection.item "host") (connection.item "port")

/-- Adds the information of one user of a bulk answer, unless the user is known. -/
def addBulkInfo (info : Value) : Method Node Exn Unit := do
  let (user_name, rest) ← info.pop "user"
  let key ← UserKey.ofValue user_name
  if (← .get).userDB.hasUser key then return ()
  else
    match rest with
    | .obj entries =>
      if (Dict.lookup "self" entries).isSome then .raise .TypeError
      else .modify fun node =>
        { node with userDB := node.userDB.addUser key (Dict.ofList entries) }
    | _ => .raise .TypeError

def addAllInfo : List Value → Method Node Exn Unit
  | [] => return ()
  | info :: rest => do
    addBulkInfo info
    addAllInfo rest

/-- Adds arbitrary information to the user database for a user; `*` brings the
information of many users. -/
def addUserInfo (user : Value) (kwargs : UserInfo) : Method Node Exn Unit := do
  if user.isText "*" then
    match kwargs.get? "info" with
    | some info => addAllInfo (← info.iterate)
    | none => .raise (.KeyError "info")
  else
    let key ← UserKey.ofValue user
    .modify fun node => { node with userDB := node.userDB.addUser key kwargs }

/-- Registers a new user to our server. -/
def registerUser (user connection pub : Value) : Method Node Exn Unit := do
  let key ← UserKey.ofValue user
  if (← .get).userDB.hasUser key then
    .raise (.Exception ("User " ++ key.text ++ " already registered"))
  else
    let pub ← pub.encode
    addUserInfo user (Dict.ofList [("pub", .bytes pub), ("connection", connection)])

/-- Acts as an EPR source between the sender and the user it names. The first half is on
its way before the name of the other user is read. -/
def _distribute_qubits (message : Message) : Method Node Exn Unit := do
  .modify fun node => { node with qubits := node.qubits ++ [.str message.sender] }
  let peer ← message.data.item "user"
  .modify fun node => { node with qubits := node.qubits ++ [peer] }

/-- Stores a message into the mailbox. -/
def storeMessage (message : Message) : Method Node Exn Unit :=
  .modify fun node => { node with mailbox := node.mailbox ++ [message] }

/-- Internal method for handling messages that do not have specific handlers. -/
def _store_control_message (message : Message) : Method Node Exn Unit :=
  .modify fun node =>
    let queue := node.queue message.sender ++ [message]
    { node with control_message_queue := node.control_message_queue.set message.sender queue }

/-- The peer's information for a protocol: its name, overlaid with its
connection information. -/
def peer_info (userDB : UserDB) (user : String) : Except Exn (Dict UserKey Value) := do
  let connection ← userDB.getConnectionInfo (.str user)
  let pairs ← connection.pairs
  return (Dict.single (.str "user") (.str user)).update (Dict.ofList pairs)

/-- Starts the session a PTCL message asks for, in the follower's role. -/
def _follow_protocol (message : Message) : Method Node Exn Unit := do
  let peer_info ← peer_info (← .get).userDB message.sender
  let (protocol, key_size) ← protocolRequest message.data
  .modify fun node =>
    { node with sessions :=
        node.sessions ++ [⟨message.sender, peer_info, .follow, protocol, key_size⟩] }

/-- Starts a session in the leader's role with a known user. -/
def lead (user : String) (protocol : ProtocolClass) (key_size : Value) :
    Method Node Exn Unit := do
  if (← .get).userDB.hasUser (.str user) then
    let peer_info ← peer_info (← .get).userDB user
    .modify fun node =>
      { node with sessions := node.sessions ++ [⟨user, peer_info, .lead, protocol, key_size⟩] }
  else .raise (.Exception ("No known user " ++ user))

/-- Runs a handler on a message. -/
def handle (handler : Handler) (message : Message) : Method Node Exn Unit := do
  match handler with
  | .registerUser =>
    match ← arguments ["user", "connection", "pub"] message.data with
    | [user, connection, pub] => registerUser user connection pub
    | _ => .raise .TypeError
  | .sendUserInfo =>
    match ← arguments ["user", "connection"] message.data with
    | [user, connection] => self.sendUserInfo user connection
    | _ => .raise .TypeError
  | .addUserInfo =>
    let (user, kwargs) ← userArguments message.data
    addUserInfo user kwargs
  | ._distribute_qubits => _distribute_qubits message
  | .storeMessage => storeMessage message
  | ._follow_protocol => _follow_protocol message
  | ._store_control_message => _store_control_message message

/-- Verifies and strips the signature, as the message's class asks for. -/
def authenticate (userDB : UserDB) (message : Message) : Except Exn Message := do
  if message.cls.verify then
    let (message, signature) ← _strip_signature message
    if self.allow_invalid_signatures then return message
    else
      self._verify_message userDB message signature
      return message
  else if message.cls.strip then
    let (message, _) ← _strip_signature message
    return message
  else return message

/-- The part of `process_message` behind the registry lookup. -/
def process_known (message : Message) : Method Node Exn Unit := do
  let admitted ← self.authenticate (← .get).userDB message
  self.handle (handlerOf self.role admitted.cls) admitted

/-- The primary message handling entrypoint. A message that must be verified and
whose sender is unknown waits for the registry's answer. -/
def process_message (message : Message) : Method Node Exn Unit := do
  if message.cls.verify ∧ ¬ (← .get).userDB.hasUser (.str message.sender) then
    self.requestUserInfo message.sender
    if message.sender = "*" then self.process_known message
    else .modify fun node => { node with resolving := node.resolving ++ [message] }
  else self.process_known message

end QChatCore

/-- What can happen at a node. Positions count the waiting messages and the running sessions.
The threads of a node are not in it: an event is what one of them does between two waits. -/
inductive Event where
  | inbound (message : Message)
  | resume (position : Nat)
  | expire (position : Nat)
  | request (user : String)
  | lead (user : String) (protocol : ProtocolClass) (key_size : Value)
  | take (user : String)
  | keyed (position : Nat) (key : Bytes)
  | received (position : Nat) (plaintext : Bytes)
  | closed (position : Nat)
  | popMessages

namespace QChatCore

variable (self : QChatCore)

/-- The end of a session: a key protocol stores its key, a follower's message
protocol puts what it received into the mailbox. -/
def conclude (session : Session) (content : Bytes) : Method Node Exn Unit := do
  if session.protocol.isKeyProtocol then
    .modify fun node =>
      let kwargs := Dict.single "message_key" (.bytes content)
      { node with userDB := node.userDB.changeUserInfo (.str session.user) kwargs }
  else
    let message ← Message.ofDict .SPDSMessage session.user [("plaintext", .bytes content)]
    storeMessage message

/-- One step of a node. Events that cannot happen have no step: a message is resumed only when
its sender is known, and a session ends only where one is running. -/
inductive Step (node : Node) : Event → Node → Prop where
  | inbound (message : Message) :
      Step node (.inbound message) (self.process_message message node).2
  | resume (position : Nat) (message : Message) (waiting : node.resolving[position]? = some message)
      (known : node.userDB.hasUser (.str message.sender) = true) :
      Step node (.resume position) (self.process_known message
        { node with resolving := node.resolving.eraseIdx position }).2
  | expire (position : Nat) (waiting : position < node.resolving.length) :
      Step node (.expire position) { node with resolving := node.resolving.eraseIdx position }
  | request (user : String) : Step node (.request user) (self.requestUserInfo user node).2
  | lead (user : String) (protocol : ProtocolClass) (key_size : Value) :
      Step node (.lead user protocol key_size) (lead user protocol key_size node).2
  | take (user : String) (message : Message) (rest : List Message)
      (running : ∃ session ∈ node.sessions, session.user = user)
      (queued : node.queue user = message :: rest) :
      Step node (.take user)
        { node with control_message_queue := node.control_message_queue.set user rest }
  | keyed (position : Nat) (session : Session) (key : Bytes)
      (running : node.sessions[position]? = some session)
      (keys : session.protocol.isKeyProtocol = true) :
      Step node (.keyed position key) (conclude session key
        { node with sessions := node.sessions.eraseIdx position }).2
  | received (position : Nat) (session : Session) (plaintext : Bytes)
      (running : node.sessions[position]? = some session)
      (follows : session.role = .follow) (carries : session.protocol.isKeyProtocol = false) :
      Step node (.received position plaintext) (conclude session plaintext
        { node with sessions := node.sessions.eraseIdx position }).2
  | closed (position : Nat) (running : position < node.sessions.length) :
      Step node (.closed position) { node with sessions := node.sessions.eraseIdx position }
  | popMessages : Step node .popMessages { node with mailbox := [] }

/-- A run of the node from its start. -/
abbrev Runs (steps : List (Node × Event)) (node : Node) : Prop :=
  Run self.Step self.boot steps node

end QChatCore

end QChat
