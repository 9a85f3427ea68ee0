import QChat.Acceptance
import QChat.TwoRuns

/-!
# Message keys stay where they are

The keys that key protocols establish are stored in the user database, beside what is
sent to anyone who asks. Two nodes that differ only in stored keys send the same frames,
whatever happens to them: nothing but a chat message depends on a key.
-/

namespace QChat

/-- Two values of a field, which may differ if the field is the message key. -/
def SameButKey (field : String) (one two : Value) : Prop := field ≠ "message_key" → one = two

/-- The same users with the same information, apart from message keys. The order of the users
and of their fields is the same as well, since an answer about all users lists them in this
order. -/
def UserDB.Alike (one two : UserDB) : Prop :=
  one.db.Alike (fun _ => Dict.Alike SameButKey) two.db

/-- Everything but message keys is the same. In particular the same frames have been sent: this
is what makes the relation say something to an observer of the network. -/
structure Node.Alike (one two : Node) : Prop where
  userDB : one.userDB.Alike two.userDB
  control_message_queue : one.control_message_queue = two.control_message_queue
  mailbox : one.mailbox = two.mailbox
  resolving : one.resolving = two.resolving
  sessions : one.sessions = two.sessions
  sent : one.sent = two.sent
  qubits : one.qubits = two.qubits

namespace UserDB.Alike

/-- The information of a user is alike to itself. -/
theorem info_refl (info : UserInfo) : info.Alike SameButKey info :=
  Dict.Alike.refl (fun _ _ _ => rfl) info

/-- A database is alike to itself. -/
theorem refl (db : UserDB) : db.Alike db := Dict.Alike.refl (fun _ info => info_refl info) db.db

variable {one two : UserDB}

/-- The same users are known. -/
theorem hasUser (alike : one.Alike two) (user : UserKey) : one.hasUser user = two.hasUser user := by
  simp only [UserDB.hasUser, UserDB._get_user]
  obtain ⟨first, second⟩ | ⟨_, _, first, second, -⟩ := Dict.Alike.get? alike user
  · rw [first, second]
  · rw [first, second]
    rfl

/-- Every other field reads the same. The getters also ask whether the user has any field at
all, which depends on the names of the fields and not on their values. -/
theorem getField (alike : one.Alike two) (user : UserKey) (field : String)
    (other : field ≠ "message_key") : one.getField user field = two.getField user field := by
  simp only [UserDB.getField, UserDB.info, UserDB._get_user]
  obtain ⟨first, second⟩ | ⟨info, found, first, second, infos⟩ := Dict.Alike.get? alike user
  · rw [first, second]
  · have filled : info.entries.isEmpty = found.entries.isEmpty := by
      have keys : info.entries.map Prod.fst = found.entries.map Prod.fst := infos.keys
      rw [Bool.eq_iff_iff, List.isEmpty_iff, List.isEmpty_iff, ← List.map_eq_nil_iff, keys,
        List.map_eq_nil_iff]
    have values : info.get? field = found.get? field := by
      obtain ⟨absent, missing⟩ | ⟨_, _, stored, kept, same⟩ := infos.get? field
      · rw [absent, missing]
      · rw [stored, kept, same other]
    simp only [first, second, filled]
    split
    · rfl
    · simp only [ok_bind, values]

/-- The public information of a user is made of the other fields. -/
theorem publicInfo (alike : one.Alike two) (user : UserKey) : one.publicInfo user = two.publicInfo user := by
  simp only [UserDB.publicInfo, UserDB.getConnectionInfo, UserDB.getPublicKey,
    getField alike user "connection" (by decide), getField alike user "pub" (by decide)]

/-- An answer about one user, or about all of them, is the same: it never shows a message key.
-/
theorem getPublicUserInfo (alike : one.Alike two) (user : UserKey) :
    one.getPublicUserInfo user = two.getPublicUserInfo user := by
  have infos : one.publicInfo = two.publicInfo := funext fun user => publicInfo alike user
  simp only [UserDB.getPublicUserInfo, Dict.Alike.keys alike, infos]

/-- Adding the same fields to a user, up to the key, leaves the databases alike. -/
theorem addUser (alike : one.Alike two) (user : UserKey) {kwargs others : UserInfo}
    (changes : kwargs.Alike SameButKey others) :
    (one.addUser user kwargs).Alike (two.addUser user others) := by
  refine Dict.Alike.set alike user ?_
  simp only [UserDB._get_user]
  obtain ⟨first, second⟩ | ⟨_, _, first, second, infos⟩ := Dict.Alike.get? alike user
  · rw [first, second]
    exact (info_refl Dict.empty).update changes
  · rw [first, second]
    exact infos.update changes

/-- Changing the same fields of a user, up to the key, leaves the databases alike. -/
theorem changeUserInfo (alike : one.Alike two) (user : UserKey) {kwargs others : UserInfo}
    (changes : kwargs.Alike SameButKey others) :
    (one.changeUserInfo user kwargs).Alike (two.changeUserInfo user others) := by
  simp only [UserDB.changeUserInfo, UserDB._get_user]
  obtain ⟨first, second⟩ | ⟨_, _, first, second, infos⟩ := Dict.Alike.get? alike user
  · rw [first, second]
    exact alike
  · rw [first, second]
    exact Dict.Alike.set alike user (infos.update changes)

end UserDB.Alike

namespace Node.Alike

/-- A node is alike to itself. -/
theorem refl (node : Node) : node.Alike node :=
  ⟨UserDB.Alike.refl node.userDB, rfl, rfl, rfl, rfl, rfl, rfl⟩

end Node.Alike

namespace QChatCore

open Method.Blind

variable (self : QChatCore)

/-- A method of a node that cannot tell message keys apart: from nodes that are alike it returns
the same, or raises the same, and leaves nodes that are alike. -/
abbrev KeyBlind {α : Type} (method : Method Node Exn α) : Prop := method.Blind Node.Alike

/-- The frames sent are compared as they are, and a new one is the same for both. -/
theorem send_message_blind (host port : Value) (frame : Bytes) :
    KeyBlind (send_message host port frame) :=
  .modify fun _ _ alike => { alike with sent := by rw [alike.sent] }

/-- Signing uses the node's own private key, which no database holds. -/
theorem signAndSend_blind (message : Message) (host port : Except Exn Value) :
    KeyBlind (self.signAndSend message host port) := by
  refine .bind (.compute _) fun message => .bind (.compute _) fun host => ?_
  refine .bind (.compute _) fun port => .bind (.compute _) fun frame => ?_
  exact send_message_blind host port frame

/-- A question to the registry only names the user. -/
theorem requestUserInfo_blind (user : String) : KeyBlind (self.requestUserInfo user) :=
  .bind (.compute _) fun m => self.signAndSend_blind m _ _

/-- An answer of the registry is public information. -/
theorem sendUserInfo_blind (user connection : Value) :
    KeyBlind (self.sendUserInfo user connection) := by
  refine .bind (.compute _) fun key => .get_bind ?_ fun node => ?_
  · intro one two alike
    rw [alike.userDB.getPublicUserInfo key]
  · refine .bind (.compute _) fun public_info => .bind (.compute _) fun message => ?_
    exact self.signAndSend_blind message _ _

/-- Storing the same fields for a user. -/
theorem addUser_blind (user : UserKey) (kwargs : UserInfo) :
    KeyBlind (.modify fun node => { node with userDB := node.userDB.addUser user kwargs }) :=
  .modify fun _ _ alike =>
    { alike with userDB := alike.userDB.addUser user (UserDB.Alike.info_refl kwargs) }

/-- Storing one entry of an answer about all users. -/
theorem addBulkInfo_blind (info : Value) : KeyBlind (addBulkInfo info) := by
  refine .bind (.compute _) fun popped => .bind (.compute _) fun key => .get_bind ?_ fun node => ?_
  · intro one two alike
    rw [alike.userDB.hasUser key]
  · split
    · exact .pure ()
    · split
      · split
        · exact .raise _
        · exact addUser_blind key _
      · exact .raise _

/-- Storing all entries of an answer, up to the first that cannot be stored. -/
theorem addAllInfo_blind (infos : List Value) : KeyBlind (addAllInfo infos) := by
  induction infos with
  | nil => exact .pure ()
  | cons info rest inductionHypothesis =>
    exact .bind (addBulkInfo_blind info) fun _ => inductionHypothesis

/-- Storing an answer, whether it is about one user or about all. -/
theorem addUserInfo_blind (user : Value) (kwargs : UserInfo) :
    KeyBlind (addUserInfo user kwargs) := by
  unfold addUserInfo
  split
  · split
    · exact .bind (.compute _) fun infos => addAllInfo_blind infos
    · exact .raise _
  · exact .bind (.compute _) fun key => addUser_blind key kwargs

/-- A registration stores the same for both and refuses the same users. -/
theorem registerUser_blind (user connection pub : Value) :
    KeyBlind (registerUser user connection pub) := by
  refine .bind (.compute _) fun key => .get_bind ?_ fun node => ?_
  · intro one two alike
    rw [alike.userDB.hasUser key]
  · split
    · exact .raise _
    · exact .bind (.compute _) fun pub => addUserInfo_blind user _

/-- The source of the pairs sends its halves without a look at its database. -/
theorem distribute_qubits_blind (message : Message) : KeyBlind (_distribute_qubits message) :=
  .bind (.modify fun _ _ alike => { alike with qubits := by rw [alike.qubits] }) fun _ =>
    .bind (.compute _) fun peer =>
      .modify fun _ _ alike => { alike with qubits := by rw [alike.qubits] }

/-- The mailbox takes a message as it is. It is opened with the key only when it is read. -/
theorem storeMessage_blind (message : Message) : KeyBlind (storeMessage message) :=
  .modify fun _ _ alike => { alike with mailbox := by rw [alike.mailbox] }

/-- So do the control queues. -/
theorem store_control_message_blind (message : Message) :
    KeyBlind (_store_control_message message) :=
  .modify fun _ _ alike =>
    { alike with control_message_queue := by simp only [Node.queue, alike.control_message_queue] }

/-- What a protocol learns of a peer. -/
theorem peer_info_alike {one two : UserDB} (alike : one.Alike two) (user : String) :
    peer_info one user = peer_info two user := by
  simp only [peer_info, UserDB.getConnectionInfo,
    alike.getField (.str user) "connection" (by decide)]

/-- A session is started with the connection information of the other user. -/
theorem follow_protocol_blind (message : Message) : KeyBlind (_follow_protocol message) := by
  refine .get_bind ?_ fun node => ?_
  · intro one two alike
    rw [peer_info_alike alike.userDB]
  · refine .bind (.compute _) fun peer_info => .bind (.compute _) fun request => ?_
    exact .modify fun _ _ alike => { alike with sessions := by rw [alike.sessions] }

/-- The same holds on the side that starts it. -/
theorem lead_blind (user : String) (protocol : ProtocolClass) (key_size : Value) :
    KeyBlind (lead user protocol key_size) := by
  refine .get_bind ?_ fun node => ?_
  · intro one two alike
    rw [alike.userDB.hasUser]
  · split
    · refine .get_bind ?_ fun node => ?_
      · intro one two alike
        rw [peer_info_alike alike.userDB]
      · refine .bind (.compute _) fun peer_info => ?_
        exact .modify fun _ _ alike => { alike with sessions := by rw [alike.sessions] }
    · exact .raise _

/-- None of the handlers can tell message keys apart, one case for each of them. -/
theorem handle_blind (handler : Handler) (message : Message) :
    KeyBlind (self.handle handler message) := by
  cases handler with
  | registerUser =>
    refine .bind (.compute _) fun values => ?_
    split
    · exact registerUser_blind _ _ _
    · exact .raise _
  | sendUserInfo =>
    refine .bind (.compute _) fun values => ?_
    split
    · exact self.sendUserInfo_blind _ _
    · exact .raise _
  | addUserInfo => exact .bind (.compute _) fun arguments => addUserInfo_blind _ _
  | _distribute_qubits => exact distribute_qubits_blind message
  | storeMessage => exact storeMessage_blind message
  | _follow_protocol => exact follow_protocol_blind message
  | _store_control_message => exact store_control_message_blind message

/-- Nothing but public keys is needed to check a signature. -/
theorem authenticate_alike {one two : UserDB} (alike : one.Alike two) (message : Message) :
    self.authenticate one message = self.authenticate two message := by
  simp only [authenticate, _verify_message, UserDB.getPublicKey,
    alike.getField _ "pub" (by decide)]

/-- A message whose sender is known is checked with a public key and handed to its handler. -/
theorem process_known_blind (message : Message) : KeyBlind (self.process_known message) := by
  refine .get_bind ?_ fun node => ?_
  · intro one two alike
    rw [self.authenticate_alike alike.userDB]
  · exact .bind (.compute _) fun admitted => self.handle_blind _ admitted

/-- Whatever message arrives, what the node does with it does not depend on a message key. This
covers the question to the registry about an unknown sender. -/
theorem process_message_blind (message : Message) : KeyBlind (self.process_message message) := by
  refine .get_bind ?_ fun node => ?_
  · intro one two alike
    simp only [alike.userDB.hasUser]
  · split
    · refine .bind (self.requestUserInfo_blind _) fun _ => ?_
      split
      · exact self.process_known_blind message
      · exact .modify fun _ _ alike => { alike with resolving := by rw [alike.resolving] }
    · exact self.process_known_blind message

/-- A registration holds the node's own public information. -/
theorem sendRegistration_blind (host port : Value) :
    KeyBlind (self.sendRegistration host port) := by
  refine .get_bind ?_ fun node => ?_
  · intro one two alike
    simp only [_get_registration_data, UserDB.getPublicKey,
      alike.userDB.getField _ "pub" (by decide)]
  · refine .bind (.compute _) fun data => .bind (.compute _) fun message => ?_
    exact .bind (.compute _) fun frame => send_message_blind host port frame

/-- The registration with the registry, which swallows every exception. -/
theorem register_blind : KeyBlind self._register_with_root_server := by
  have tried : KeyBlind (do
      let root_host ← self.root_config.item "host"
      let root_port ← self.root_config.item "port"
      if sameAddress self.host root_host && sameAddress self.port root_port then return ()
      else self.sendRegistration root_host root_port) := by
    refine .bind (.compute _) fun root_host => .bind (.compute _) fun root_port => ?_
    split
    · exact .pure ()
    · exact self.sendRegistration_blind root_host root_port
  intro one two alike
  exact ⟨rfl, (tried one two alike).2⟩

/-- A request for a pair names the other user and is not signed. -/
theorem requestEPR_blind (user : String) : KeyBlind (self.requestEPR user) := by
  refine .bind (.compute _) fun m => .bind (.compute _) fun host => .bind (.compute _) fun port => ?_
  exact .bind (.compute _) fun frame => send_message_blind host port frame

/-- Looking for a user, with a question to the registry if need be. -/
theorem resolveUser_blind (user : String) : KeyBlind (self.resolveUser id user) := by
  refine .get_bind ?_ fun node => ?_
  · intro one two alike
    rw [alike.userDB.hasUser]
  · split
    · exact .pure ()
    · refine .bind (self.requestUserInfo_blind user) fun _ => ?_
      refine .bind (.modify fun _ _ alike => alike) fun _ => .get_bind ?_ fun node => ?_
      · intro one two alike
        rw [alike.userDB.hasUser]
      · split
        · exact .pure ()
        · exact .raise _

/-- Nodes that differ only in message keys, with one message object. -/
def AlikeObjects (one two : Node × Message) : Prop := one.1.Alike two.1 ∧ one.2 = two.2

/-- Signing changes the message object in the same way. -/
theorem signObject_blind : self.signObject.Blind AlikeObjects := by
  refine .get_bind ?_ fun state => ?_
  · rintro ⟨one, object⟩ ⟨two, _⟩ ⟨alike, rfl⟩
    rfl
  · refine .bind (.compute _) fun signed => .modify fun one two alike => ?_
    exact ⟨alike.1, rfl⟩

/-- Sending a given message. For a chat message this is the step behind its encryption: the
ciphertext is part of the message. -/
theorem sendMessage_blind (user : String) : (self.sendMessage id user).Blind AlikeObjects := by
  refine .bind (self.resolveUser_blind user).onFirst fun _ => .get_bind ?_ fun state => ?_
  · rintro ⟨one, object⟩ ⟨two, _⟩ ⟨alike, rfl⟩
    simp only [UserDB.getConnectionInfo, alike.userDB.getField _ "connection" (by decide)]
  · refine .bind (.compute _) fun connection_info => .bind (.compute _) fun host => ?_
    refine .bind (.compute _) fun port => .bind self.signObject_blind fun _ => .get_bind ?_ ?_
    · rintro ⟨one, object⟩ ⟨two, _⟩ ⟨alike, rfl⟩
      rfl
    · intro state
      exact .bind (.compute _) fun frame => (send_message_blind host port frame).onFirst

/-- At the end of a session with the same outcome the databases stay alike. -/
theorem conclude_blind (session : Session) (content : Bytes) :
    KeyBlind (conclude session content) := by
  unfold conclude
  split
  · exact .modify fun _ _ alike =>
      { alike with userDB := alike.userDB.changeUserInfo _ (UserDB.Alike.info_refl _) }
  · exact .bind (.compute _) fun message => storeMessage_blind message

/-- At the end of a key protocol the nodes may get different keys. -/
theorem conclude_keys {one two : Node} (alike : one.Alike two) (session : Session)
    (keys : session.protocol.isKeyProtocol = true) (key other : Bytes) :
    (conclude session key one).2.Alike (conclude session other two).2 := by
  have differ : (Dict.single "message_key" (.bytes key) : UserInfo).Alike SameButKey
      (Dict.single "message_key" (.bytes other)) :=
    .cons ⟨rfl, fun apart => absurd rfl apart⟩ .nil
  simp only [conclude, keys, ↓reduceIte, Method.modify_apply]
  exact { alike with userDB := alike.userDB.changeUserInfo _ differ }

end QChatCore

/-- The same event, but for the key with which a key protocol ends. All other events are
compared as they are, with the messages and plaintexts they hold. -/
inductive Event.SameButKey : Event → Event → Prop where
  | same (event : Event) : SameButKey event event
  | keyed (position : Nat) (key other : Bytes) :
      SameButKey (.keyed position key) (.keyed position other)

namespace QChatCore

variable {self : QChatCore}

/-- What happens at a node can happen at one with other keys, and gives it other keys. -/
theorem step_alike {one two : Node} {event other : Event} {next : Node} (alike : one.Alike two)
    (fits : event.SameButKey other) (stepped : self.Step one event next) :
    ∃ after, self.Step two other after ∧ next.Alike after := by
  cases fits with
  | keyed position key other =>
    cases stepped with
    | keyed _ session _ running keys =>
      refine ⟨_, .keyed position session other (alike.sessions ▸ running) keys, ?_⟩
      refine conclude_keys ?_ session keys key other
      exact { alike with sessions := by rw [alike.sessions] }
  | same =>
    cases stepped with
    | inbound message =>
      exact ⟨_, .inbound message, (self.process_message_blind message one two alike).2⟩
    | resume position message waiting known =>
      refine ⟨_, .resume position message (alike.resolving ▸ waiting)
        (alike.userDB.hasUser _ ▸ known), ?_⟩
      refine (self.process_known_blind message _ _ ?_).2
      exact { alike with resolving := by rw [alike.resolving] }
    | expire position waiting =>
      refine ⟨_, .expire position (alike.resolving ▸ waiting), ?_⟩
      exact { alike with resolving := by rw [alike.resolving] }
    | request user =>
      exact ⟨_, .request user, (self.requestUserInfo_blind user one two alike).2⟩
    | lead user protocol key_size =>
      exact ⟨_, .lead user protocol key_size, (lead_blind user protocol key_size one two alike).2⟩
    | take user message rest running queued =>
      have queue : two.queue user = one.queue user := by
        simp only [Node.queue, alike.control_message_queue]
      refine ⟨_, .take user message rest (alike.sessions ▸ running) (queue.trans queued), ?_⟩
      exact { alike with control_message_queue := by rw [alike.control_message_queue] }
    | keyed position session key running keys =>
      refine ⟨_, .keyed position session key (alike.sessions ▸ running) keys, ?_⟩
      refine conclude_keys ?_ session keys key key
      exact { alike with sessions := by rw [alike.sessions] }
    | received position session plaintext running follows carries =>
      refine ⟨_, .received position session plaintext (alike.sessions ▸ running) follows carries, ?_⟩
      refine (conclude_blind session plaintext _ _ ?_).2
      exact { alike with sessions := by rw [alike.sessions] }
    | closed position running =>
      refine ⟨_, .closed position (alike.sessions ▸ running), ?_⟩
      exact { alike with sessions := by rw [alike.sessions] }
    | popMessages => exact ⟨_, .popMessages, { alike with mailbox := rfl }⟩

/-- Whatever keys the key protocols of a run end with: with any other keys the same events can
happen, and the node sends the same frames, has the same messages and the same sessions at every
point. Only the stored keys are others.

Proof: by induction over the run, in which the event that stores a key is matched by one with
the other key, and each other event by itself. -/
theorem other_keys (steps : List (Node × Event)) (node : Node) (run : self.Runs steps node)
    (events : List Event)
    (matching : List.Forall₂ Event.SameButKey (steps.map Prod.snd) events) :
    ∃ others last, self.Runs others last ∧ others.map Prod.snd = events ∧ node.Alike last ∧
      List.Forall₂ Node.Alike (steps.map Prod.fst) (others.map Prod.fst) :=
  Run.matched step_alike run (Node.Alike.refl _) matching

end QChatCore

/-- A session of a client with itself, of which the key is stored at its end. -/
theorem own_session (key : Bytes) : ∃ steps node,
    sampleClient.Runs steps node ∧ steps.map Prod.snd =
      [.lead "alice" .BB84_Purified (.num 16), .keyed 0 key] := by
  have started : sampleClient.Step sampleClient.boot _ _ :=
    .lead "alice" .BB84_Purified (.num 16)
  have running : ∃ session,
      (QChatCore.lead "alice" .BB84_Purified (.num 16) sampleClient.boot).2.sessions[0]? =
        some session ∧ session.protocol.isKeyProtocol = true := ⟨_, rfl, rfl⟩
  obtain ⟨session, running, keys⟩ := running
  exact ⟨_, _, .snoc (.snoc .nil started) (.keyed 0 session key running keys), rfl⟩

/-- The session ends with the key `[2]` in place of `[1]`, and the node is as before but for it.
-/
theorem other_keys_own_session : ∃ steps node others last,
    sampleClient.Runs steps node ∧ sampleClient.Runs others last ∧
      others.map Prod.snd = [.lead "alice" .BB84_Purified (.num 16), .keyed 0 [2]] ∧
      node.Alike last := by
  obtain ⟨steps, node, run, events⟩ := own_session [1]
  have matching : List.Forall₂ Event.SameButKey (steps.map Prod.snd)
      [.lead "alice" .BB84_Purified (.num 16), .keyed 0 [2]] := by
    rw [events]
    exact .cons (.same _) (.cons (.keyed 0 [1] [2]) .nil)
  obtain ⟨others, last, otherRun, same, alike, -⟩ :=
    QChatCore.other_keys steps node run _ matching
  exact ⟨steps, node, others, last, run, otherRun, same, alike⟩

/-- The same frames on the way, between nodes that differ only in message keys. An observer of
the network sees no difference. -/
structure Traffic.Alike {Name : Type} (one two : Traffic Name) : Prop where
  node : ∀ name, (one.node name).Alike (two.node name)
  travelling : one.travelling = two.travelling

namespace Network

variable {Name : Type} [DecidableEq Name]

/-- A node's next state and its new frames are alike if the node's are. -/
theorem advance_alike {one two : Traffic Name} (alike : one.Alike two) (name : Name)
    {after other : Node} (changed : after.Alike other) :
    (one.advance name after).Alike (two.advance name other) where
  node := by
    intro holder
    by_cases same : holder = name
    · subst same
      simpa only [Traffic.advance, Function.update_self] using changed
    · simpa only [Traffic.advance, Function.update_of_ne same] using alike.node holder
  travelling := by
    simp only [Traffic.advance, alike.travelling, changed.sent, (alike.node name).sent]

variable {network : Network Name}

/-- Every step of the network can be made between the other nodes as well. In the cases of a
send the message is the same on both sides, so a chat message has been encrypted before. -/
theorem step_alike {one two next : Traffic Name} (alike : one.Alike two)
    (stepped : network.Step one next) : ∃ after, network.Step two after ∧ next.Alike after := by
  cases stepped with
  | event name event after own stepped =>
    obtain ⟨other, taken, changed⟩ := QChatCore.step_alike (alike.node name) (.same event) stepped
    exact ⟨_, .event two name event other own taken, advance_alike alike name changed⟩
  | register name =>
    refine ⟨_, .register two name, advance_alike alike name ?_⟩
    exact ((network.core name).register_blind _ _ (alike.node name)).2
  | send name user message outgoing =>
    refine ⟨_, .send two name user message outgoing, advance_alike alike name ?_⟩
    exact ((network.core name).sendMessage_blind user (one.node name, message)
      (two.node name, message) ⟨alike.node name, rfl⟩).2.1
  | requestEPR name user =>
    refine ⟨_, .requestEPR two name user, advance_alike alike name ?_⟩
    exact ((network.core name).requestEPR_blind user _ _ (alike.node name)).2
  | deliver name frame before later limits message flying host port received =>
    refine ⟨_, .deliver two name frame before later limits message (alike.travelling ▸ flying) host
      port received, ?_⟩
    have rest : ({ one with travelling := before ++ later } : Traffic Name).Alike
        { two with travelling := before ++ later } := ⟨alike.node, rfl⟩
    refine advance_alike rest name ?_
    exact ((network.core name).process_message_blind message _ _ (alike.node name)).2
  | lose frame before later flying =>
    exact ⟨_, .lose two frame before later (alike.travelling ▸ flying), alike.node, rfl⟩

/-- From states of the network that differ only in stored message keys the same can be seen on
its way: every run from one is matched by a run from the other that has the same frames
travelling at every point.

Proof: the nodes stay alike under each step, and nodes that are alike have sent the same frames.
-/
theorem keys_confidential (one two : Traffic Name) (alike : one.Alike two)
    (states : List (Traffic Name)) (chain : List.IsChain network.Step (one :: states)) :
    ∃ others, List.IsChain network.Step (two :: others) ∧
      others.map Traffic.travelling = states.map Traffic.travelling := by
  obtain ⟨others, otherChain, alikes⟩ := matched_chain step_alike alike chain
  refine ⟨others, otherChain, ?_⟩
  clear * - alikes
  induction alikes with
  | nil => rfl
  | cons head _ inductionHypothesis =>
    rw [List.map_cons, List.map_cons, head.travelling, inductionHypothesis]

end Network

/-- The client alone, with a message key for itself. -/
def soloKeyed (key : Bytes) : Traffic Unit where
  node := fun _ => { soloNetwork.start.node () with
    userDB := (soloNetwork.start.node ()).userDB.changeUserInfo (.str "alice")
      (Dict.single "message_key" (.bytes key)) }
  travelling := []

/-- The two only differ in the key. -/
theorem soloKeyed_alike (key other : Bytes) : (soloKeyed key).Alike (soloKeyed other) where
  node := fun name => { Node.Alike.refl (soloNetwork.start.node name) with
    userDB := (UserDB.Alike.refl _).changeUserInfo _
      (.cons ⟨rfl, fun apart => absurd rfl apart⟩ .nil) }
  travelling := rfl

/-- The client finds itself in its database and sends a message: one frame, whatever its
key is. -/
theorem keys_confidential_sends : ∃ next others,
    List.IsChain soloNetwork.Step [soloKeyed [1], next] ∧ next.travelling.length = 1 ∧
      List.IsChain soloNetwork.Step (soloKeyed [2] :: others) ∧
      others.map Traffic.travelling = [next].map Traffic.travelling := by
  have sends : List.IsChain soloNetwork.Step [soloKeyed [1], _] :=
    .cons_cons (.send (soloKeyed [1]) () "alice" soloMessage soloMessage_outgoing) (.singleton _)
  obtain ⟨others, chain, same⟩ := Network.keys_confidential (soloKeyed [1]) (soloKeyed [2])
    (soloKeyed_alike [1] [2]) _ sends
  exact ⟨_, others, sends, rfl, chain, same⟩

end QChat
