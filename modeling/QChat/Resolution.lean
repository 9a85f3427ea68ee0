import QChat.Acceptance

/-!
# Messages that wait for the registry

A message whose sender is unknown waits until the registry has told who the sender is.
The question to the registry, its answer and the message itself go their ways between all
other steps of the network. No node forgets a user, so once the answer has arrived the
waiting messages of that sender can be handled, as their sender made them.
-/

namespace QChat

/-- Every user who was known still is. What is known about the user may have changed. -/
def Remembers (before after : Node) : Prop :=
  ∀ user, before.userDB.hasUser user = true → after.userDB.hasUser user = true

namespace Remembers

/-- Nothing is forgotten by doing nothing. -/
theorem refl (node : Node) : Remembers node node := fun _ known => known

/-- Two steps forget nobody if neither of them does. -/
theorem trans (one two three : Node) (first : Remembers one two) (second : Remembers two three) :
    Remembers one three := fun user known => second user (first user known)

/-- A step that leaves the database alone forgets nobody. -/
theorem of_same {before after : Node} (same : after.userDB = before.userDB) :
    Remembers before after := by
  intro user known
  rwa [same]

/-- Adding a user forgets nobody. -/
theorem addUser (node : Node) (key : UserKey) (kwargs : UserInfo) :
    Remembers node { node with userDB := node.userDB.addUser key kwargs } := by
  intro user known
  rw [UserDB.hasUser, UserDB.get_user_addUser]
  split
  · rfl
  · exact known

/-- Changing the fields of a user forgets nobody. -/
theorem changeUserInfo (node : Node) (key : UserKey) (kwargs : UserInfo) :
    Remembers node { node with userDB := node.userDB.changeUserInfo key kwargs } := by
  intro user known
  rw [UserDB.hasUser, UserDB.get_user_changeUserInfo]
  split
  · next same =>
    subst same
    rwa [Option.isSome_map]
  · exact known

/-- A computation changes nothing. -/
theorem compute {α β : Type} {value : Except Exn α} {next : α → Method Node Exn β} {node : Node}
    (goesOn : ∀ result, value = .ok result → Remembers node (next result node).2) :
    Remembers node (((liftM value : Method Node Exn α) >>= next) node).2 :=
  Method.compute_relates _ (.refl node) goesOn

end Remembers

namespace QChatCore

variable (self : QChatCore) (node : Node)

/-- An entry of an answer adds a user, or is passed over. -/
theorem addBulkInfo_remembers (info : Value) : Remembers node (addBulkInfo info node).2 := by
  refine .compute fun popped _ => .compute fun key _ => ?_
  rw [Method.get_bind]
  split
  · exact .refl node
  · cases popped.2 with
    | obj entries =>
      dsimp only
      split
      · exact .refl node
      · exact .addUser node key _
    | _ => exact .refl node

/-- So do all of its entries. -/
theorem addAllInfo_remembers (infos : List Value) : Remembers node (addAllInfo infos node).2 := by
  induction infos generalizing node with
  | nil => exact .refl node
  | cons info rest inductionHypothesis =>
    exact Method.bind_relates _ Remembers.trans (addBulkInfo_remembers node info)
      fun _ after _ => inductionHypothesis after

/-- An answer adds users and takes none away. -/
theorem addUserInfo_remembers (user : Value) (kwargs : UserInfo) :
    Remembers node (addUserInfo user kwargs node).2 := by
  unfold addUserInfo
  split
  · cases kwargs.get? "info" with
    | none => exact .refl node
    | some info => exact .compute fun infos _ => addAllInfo_remembers node infos
  · exact .compute fun key _ => .addUser node key kwargs

/-- A registration adds a user or is refused. -/
theorem registerUser_remembers (user connection pub : Value) :
    Remembers node (registerUser user connection pub node).2 := by
  refine .compute fun key _ => ?_
  rw [Method.get_bind]
  split
  · exact .refl node
  · exact .compute fun pub _ => addUserInfo_remembers node user _

/-- No handler takes a user out of the database, one case for each of them. -/
theorem handle_remembers (handler : Handler) (message : Message) :
    Remembers node (self.handle handler message node).2 := by
  cases handler with
  | registerUser =>
    refine .compute fun values _ => ?_
    split
    · exact registerUser_remembers node _ _ _
    · exact .refl node
  | sendUserInfo =>
    refine .compute fun values _ => ?_
    split
    · exact .of_same (self.sendUserInfo_untouched node _ _).userDB
    · exact .refl node
  | addUserInfo => exact .compute fun arguments _ => addUserInfo_remembers node _ _
  | _distribute_qubits => exact .of_same (distribute_qubits_untouched node message).userDB
  | storeMessage => exact .of_same rfl
  | _follow_protocol =>
    rcases follow_protocol_effect node message with same | ⟨_, _, _, started⟩
    · exact .of_same (congrArg Node.userDB same)
    · exact .of_same (congrArg Node.userDB started :)
  | _store_control_message => exact .of_same rfl

/-- The same holds of a whole message with a known sender. -/
theorem process_known_remembers (message : Message) :
    Remembers node (self.process_known message node).2 := by
  rw [process_known, Method.get_bind]
  exact .compute fun admitted _ => self.handle_remembers node _ admitted

/-- It holds of any message: one with an unknown sender waits, which changes no user. -/
theorem process_message_remembers (message : Message) :
    Remembers node (self.process_message message node).2 := by
  obtain ⟨asked, untouched, only | ⟨_, parked⟩ | ⟨_, went⟩⟩ :=
    self.process_message_effect node message
  · rw [only]
    exact .of_same untouched.userDB
  · rw [parked]
    exact .of_same untouched.userDB
  · rw [went]
    exact Remembers.trans node asked _ (.of_same untouched.userDB)
      (self.process_known_remembers asked message)

/-- No step of a node makes it forget a user. -/
theorem step_remembers {event : Event} {after : Node} (stepped : self.Step node event after) :
    Remembers node after := by
  cases stepped with
  | inbound message => exact self.process_message_remembers node message
  | resume position message waiting known =>
    let called : Node := { node with resolving := node.resolving.eraseIdx position }
    exact self.process_known_remembers called message
  | expire position waiting => exact .of_same rfl
  | request user => exact .of_same (self.requestUserInfo_untouched node user).userDB
  | lead user protocol key_size =>
    rcases lead_effect node user protocol key_size with same | ⟨_, started⟩
    · exact .of_same (congrArg Node.userDB same)
    · exact .of_same (congrArg Node.userDB started :)
  | take user message rest running queued => exact .of_same rfl
  | keyed position session key running keys =>
    let called : Node := { node with sessions := node.sessions.eraseIdx position }
    simp only [conclude, keys, ↓reduceIte, Method.modify_apply]
    exact Remembers.changeUserInfo called _ _
  | received position session plaintext running follows carries =>
    let called : Node := { node with sessions := node.sessions.eraseIdx position }
    simp only [conclude, carries, Bool.false_eq_true, ↓reduceIte]
    refine Remembers.trans node called _ (.of_same rfl) ?_
    exact .compute fun _ _ => .of_same rfl
  | closed position running => exact .of_same rfl
  | popMessages => exact .of_same rfl

/-- A registration at the registry changes nothing of the own database. -/
theorem register_remembers : Remembers node (self._register_with_root_server node).2 := by
  refine Remembers.compute fun root_host _ => .compute fun root_port _ => ?_
  split
  · exact .refl node
  · rw [sendRegistration, Method.get_bind]
    exact .compute fun _ _ => .compute fun _ _ => .compute fun _ _ => .of_same rfl

/-- Neither does a request for a pair. -/
theorem requestEPR_remembers (user : String) : Remembers node (self.requestEPR user node).2 :=
  .compute fun _ _ => .compute fun _ _ => .compute fun _ _ => .compute fun _ _ => .of_same rfl

/-- Sending a message may ask the registry for its receiver, but forgets nobody. -/
theorem sendMessage_remembers (user : String) (message : Message) :
    Remembers node (self.sendMessage id user (node, message)).2.1 := by
  let related (one two : Node × Message) : Prop := Remembers one.1 two.1
  have composes : ∀ one two three, related one two → related two three → related one three :=
    fun _ _ _ first second => Remembers.trans _ _ _ first second
  have resolves : Remembers node (self.resolveUser id user node).2 := by
    rw [resolveUser, Method.get_bind]
    split
    · exact .refl node
    · refine Method.bind_relates _ Remembers.trans
        (.of_same (self.requestUserInfo_untouched node user).userDB) fun _ after _ => ?_
      rw [Method.modify_bind, Method.get_bind]
      split
      · exact .refl after
      · exact .refl after
  suffices whole : related (node, message) (self.sendMessage id user (node, message)).2 from whole
  refine Method.bind_relates related composes resolves fun _ resolved _ => ?_
  simp only [Method.get_bind, Method.compute_bind]
  repeat' split
  all_goals try exact Remembers.refl resolved.1
  rw [Method.bind_apply, signObject_apply]
  cases self._sign_message resolved.2 with
  | error exception => exact Remembers.refl resolved.1
  | ok signed =>
    simp only [Method.get_bind, Method.compute_bind]
    split
    · exact Remembers.of_same rfl
    · exact Remembers.refl resolved.1

section Sending

variable {self node} {message : Message} {entries : List (String × Value)}

/-- What is sent is the message with a signature. -/
theorem signAndSend_sent (dictionary : message.data = .obj entries) {host port : Except Exn Value}
    {frame : Frame} (sent : (self.signAndSend message host port node).2.sent = node.sent ++ [frame]) :
    ∃ unsigned, (message.withData (.obj (self.withSig unsigned entries))).encode_message self.json =
        .ok frame.frame := by
  have nothing : node.sent ≠ node.sent ++ [frame] := by simp
  simp only [signAndSend, Method.compute_bind] at sent
  cases encoded : message.encode_message self.json with
  | error exception =>
    rw [_sign_message, encoded] at sent
    exact absurd sent nothing
  | ok unsigned =>
    rw [self.sign_message_ok dictionary encoded] at sent
    cases host with
    | error exception => exact absurd sent nothing
    | ok host =>
      cases port with
      | error exception => exact absurd sent nothing
      | ok port =>
        dsimp only at sent
        cases signed : (message.withData (.obj (self.withSig unsigned entries))).encode_message
            self.json with
        | error exception =>
          rw [signed] at sent
          exact absurd sent nothing
        | ok bytes =>
          rw [signed] at sent
          refine ⟨unsigned, ?_⟩
          rw [signed, ← (List.singleton_inj.mp (List.append_cancel_left sent))]

/-- A message that can be signed and sent is sent. -/
theorem signAndSend_sendable (faithful : self.json.Faithful) (dictionary : message.data = .obj entries)
    (valid : (Value.obj entries).IsJson) (sendable : self.Sendable message entries)
    (host port : Value) (node : Node) :
    ∃ unsigned frame,
      (message.withData (.obj (self.withSig unsigned entries))).encode_message self.json = .ok frame ∧
      self.signAndSend message (.ok host) (.ok port) node =
        (.ok (), { node with sent := node.sent ++ [⟨host, port, frame⟩] }) := by
  obtain ⟨-, fits, signedFits⟩ := sendable
  obtain ⟨text, dumped, -⟩ := faithful.loads_dumps _ valid
  obtain ⟨unsigned, encoded⟩ : ∃ unsigned, message.encode_message self.json = .ok unsigned :=
    ⟨_, message.encode_message_ok (dictionary ▸ dumped) (fits text dumped)⟩
  have whole := self.isJson_withSig valid unsigned
  obtain ⟨signedText, signedDumped, -⟩ := faithful.loads_dumps _ whole
  obtain ⟨frame, signed⟩ : ∃ frame, (message.withData (.obj (self.withSig unsigned
      entries))).encode_message self.json = .ok frame :=
    ⟨_, Message.encode_message_ok _ signedDumped (signedFits unsigned encoded signedText signedDumped)⟩
  refine ⟨unsigned, frame, signed, ?_⟩
  simp only [signAndSend, Method.compute_bind, self.sign_message_ok dictionary encoded, signed]
  rfl

/-- A message that need not be verified is handled without its signature. -/
theorem process_message_stripped {admitted : Message} {signature : Bytes}
    (unverified : message.cls.verify = false) (strips : message.cls.strip = true)
    (stripped : _strip_signature message = .ok (admitted, signature)) :
    self.process_message message node =
      self.handle (handlerOf self.role admitted.cls) admitted node := by
  simp only [process_message, process_known, authenticate, Method.get_bind, Method.compute_bind,
    unverified, strips, stripped, Bool.false_eq_true, false_and, ↓reduceIte, ok_bind, pure_ok]

end Sending

end QChatCore

namespace Network

variable {Name : Type} {network : Network Name}

section Question

variable (network)

/-- The frame is the question for a user with which a node turns to its registry: what
`requestUserInfo` sends in some state of the node. -/
def Asks (asker : Name) (user : String) (question : Frame) : Prop :=
  ∃ node, ((network.core asker).requestUserInfo user node).2.sent = node.sent ++ [question]

/-- The frame is a registry's answer about a user, on its way to a node: the public information
that all nodes agree on, signed by the registry and addressed to the host and port the question
gave. -/
def Replies (registry asker other : Name) (reply : Frame) : Prop :=
  reply.host = (network.core asker).host ∧ reply.port = (network.core asker).port ∧
    ∃ answer unsigned,
      Message.ofDict .PUTUMessage (network.core registry).name (network.publicInfo other) =
        .ok answer ∧
      (answer.withData (.obj ((network.core registry).withSig unsigned
        (network.publicInfo other)))).encode_message network.json = .ok reply.frame

/-- The frame is the one of a message that can be read again: its data is JSON and its sender's
name fits into the header. -/
structure Framed (message : Message) (frame : Frame) : Prop where
  valid : message.data.IsJson
  carried : Message.Carried message.sender
  encoded : message.encode_message network.json = .ok frame.frame

variable {network}

/-- A question is a message that `sendUserInfo` handles, at whatever node it arrives. Its
signature is taken off without a check, so it makes no difference whether the registry knows the
asking node. -/
theorem Asks.handled (carried : ∀ name, Message.Carried (network.core name).name) {asker : Name}
    {user : String} {question : Frame} (asks : network.Asks asker user question) :
    ∃ message, network.Framed message question ∧
      ∀ registry node, (network.core registry).process_message message node =
        (network.core registry).sendUserInfo (.str user) (network.connection asker) node := by
  obtain ⟨node, sent⟩ := asks
  let entries := ("user", Value.str user) :: (network.core asker).get_connection_info
  have valid : (Value.obj entries).IsJson := network.question_isJson asker user
  simp only [QChatCore.requestUserInfo, Method.compute_bind] at sent
  cases made : Message.ofDict .GETUMessage (network.core asker).name entries with
  | error exception =>
    rw [made] at sent
    simp at sent
  | ok m =>
    rw [made] at sent
    obtain ⟨cls, sender, data⟩ := Message.of_ofDict made
    obtain ⟨unsigned, signed⟩ := QChatCore.signAndSend_sent data sent
    rw [network.shared asker] at signed
    refine ⟨_, ⟨(network.core asker).isJson_withSig valid unsigned, sender ▸ carried asker, signed⟩,
      fun registry node => ?_⟩
    have stripped := (network.core asker).strip_signed m unsigned entries
    have removed : Dict.remove "sig" entries = entries :=
      Dict.remove_absent _ _ (by simp [entries, QChatCore.get_connection_info])
    rw [removed] at stripped
    have getu : (m.withData (.obj entries)).cls = .GETUMessage := cls
    have handler : handlerOf (network.core registry).role .GETUMessage = .sendUserInfo := by
      cases (network.core registry).role with
      | QChatServer => rfl
      | QChatClient => rfl
    have given : arguments ["user", "connection"] (m.withData (.obj entries)).data =
        .ok [.str user, network.connection asker] := rfl
    rw [(network.core registry).process_message_stripped (by rw [Message.withData, cls]; rfl)
      (by rw [Message.withData, cls]; rfl) stripped, getu, handler]
    simp only [QChatCore.handle, Method.compute_bind, given]

/-- A registry with the user's key in bytes lists the user's information. -/
theorem Genuine.publicInfo {userDB : UserDB} (genuine : network.Genuine userDB) {other : Name}
    (held : userDB.getPublicKey (.str (network.core other).name) =
      .ok (.bytes (network.core other).pub)) :
    userDB.publicInfo (.str (network.core other).name) = .ok (network.publicInfo other) := by
  obtain ⟨info, entry⟩ := Option.isSome_iff_exists.mp (UserDB.hasUser_of_getField held)
  obtain ⟨name, named, connected, -⟩ := genuine _ info entry
  obtain rfl := network.distinct other name (UserKey.str.inj named)
  have connection : userDB.getConnectionInfo (.str (network.core other).name) =
      .ok (network.connection other) := UserDB.getField_entry entry connected
  simp only [UserDB.publicInfo, connection, held, ok_bind, UserDB.decodePub]
  rfl

/-- A registry that has the user's key in bytes answers a question, if there is room for the
answer. Its database is genuine, so that the answer is the information that the network has
about the user. -/
theorem Replies.of_sendUserInfo (asker : Name) {registry other : Name}
    (carried : ∀ name, Message.Carried (network.core name).name)
    (single : (network.core other).name ≠ "*")
    (room : ∀ answer, Message.ofDict .PUTUMessage (network.core registry).name
      (network.publicInfo other) = .ok answer →
        (network.core registry).Sendable answer (network.publicInfo other))
    {node : Node} (genuine : network.Genuine node.userDB)
    (held : node.userDB.getPublicKey (.str (network.core other).name) =
      .ok (.bytes (network.core other).pub)) :
    ∃ reply, network.Replies registry asker other reply ∧
      (network.core registry).sendUserInfo (.str (network.core other).name)
        (network.connection asker) node = (.ok (), { node with sent := node.sent ++ [reply] }) := by
  have listed : node.userDB.getPublicUserInfo (.str (network.core other).name) =
      .ok (network.publicInfo other) := by
    rw [UserDB.getPublicUserInfo, if_neg (by simpa using single), genuine.publicInfo held]
  have short : (network.core registry).name.length ≤ MAX_SENDER_LENGTH :=
    (Bytes.length_le_utf8 _).trans (carried registry).short
  have made := Message.ofDict_ok .PUTUMessage (network.core registry).name
    (network.publicInfo other) short
  have faithful : (network.core registry).json.Faithful := by
    rw [network.shared registry]
    exact network.faithful
  obtain ⟨unsigned, frame, signed, sent⟩ := QChatCore.signAndSend_sendable faithful rfl
    (publicInfo_isJson other) (room _ made) (network.core asker).host (network.core asker).port node
  rw [network.shared registry] at signed
  refine ⟨⟨_, _, frame⟩, ⟨rfl, rfl, _, unsigned, made, signed⟩, ?_⟩
  have host : (network.connection asker).item "host" = .ok (network.core asker).host := rfl
  have port : (network.connection asker).item "port" = .ok (network.core asker).port := rfl
  simp only [QChatCore.sendUserInfo, UserKey.ofValue, Method.compute_bind, Method.get_bind, listed,
    made, host, port, sent]

/-- A reply makes the user known: it is handled without a check of its signature, and its
entries are stored under the name of the user. -/
theorem Replies.handled (carried : ∀ name, Message.Carried (network.core name).name)
    {registry asker other : Name} (single : (network.core other).name ≠ "*") {reply : Frame}
    (replies : network.Replies registry asker other reply) :
    ∃ message, network.Framed message reply ∧
      ∀ node, ∃ kwargs, (network.core asker).process_message message node = (.ok (),
        { node with userDB := node.userDB.addUser (.str (network.core other).name) kwargs }) := by
  obtain ⟨-, -, answer, unsigned, made, signed⟩ := replies
  obtain ⟨cls, sender, data⟩ := Message.of_ofDict made
  refine ⟨_, ⟨(network.core registry).isJson_withSig (publicInfo_isJson other) unsigned,
    sender ▸ carried registry, signed⟩, fun node => ?_⟩
  have stripped := (network.core registry).strip_signed answer unsigned (network.publicInfo other)
  have truth : network.Answer (network.publicInfo other) := .inl ⟨other, rfl⟩
  have unsignedInfo : Dict.remove "sig" (network.publicInfo other) = network.publicInfo other :=
    Answer.unsigned truth
  rw [unsignedInfo] at stripped
  have putu : (answer.withData (.obj (network.publicInfo other))).cls = .PUTUMessage := cls
  have given : userArguments (.obj (network.publicInfo other)) = .ok
      (.str (network.core other).name,
        QChatCore.importedInfo (network.connection other) (network.core other).pub) := by
    have receiver : Dict.lookup "self" (network.publicInfo other) = none := by
      simp [publicInfo, QChatCore.publicEntries, Dict.lookup]
    rw [publicInfo] at receiver ⊢
    simp only [userArguments, QChatCore.lookup_user, receiver, QChatCore.remove_user]
    rfl
  have named : (Value.str (network.core other).name).isText "*" = false := by
    simpa [Value.isText] using single
  refine ⟨QChatCore.importedInfo (network.connection other) (network.core other).pub, ?_⟩
  rw [(network.core asker).process_message_stripped (by rw [Message.withData, cls]; rfl)
    (by rw [Message.withData, cls]; rfl) stripped, putu, QChatCore.handlerOf_putu]
  simp only [QChatCore.handle, Message.withData, Method.compute_bind, given,
    QChatCore.addUserInfo_single node _ _ named, UserKey.ofValue]

end Question

section Delivery

variable [DecidableEq Name]

variable (network) in
/-- The step in which one frame is delivered to a node, which handles what it receives. The
limits say how many bytes each read takes; the other frames stay on their way. -/
inductive Delivers (state : Traffic Name) (name : Name) (frame : Frame) : Traffic Name → Prop where
  | intro (before later : List Frame) (limits : List Nat) (message : Message)
      (flying : state.travelling = before ++ frame :: later)
      (host : frame.host = (network.core name).host) (port : frame.port = (network.core name).port)
      (received : Reception.Appended network.json frame.frame limits [] message) :
      Delivers state name frame (({ state with travelling := before ++ later } :
        Traffic Name).advance name ((network.core name).process_message message (state.node name)).2)

variable {state next : Traffic Name} {name : Name} {frame : Frame} {message : Message}

/-- A delivery is a step of the network. -/
theorem Delivers.step (delivers : network.Delivers state name frame next) :
    network.Step state next := by
  obtain ⟨before, later, limits, message, flying, host, port, received⟩ := delivers
  exact .deliver state name frame before later limits message flying host port received

/-- No other node changes. -/
theorem Delivers.elsewhere (delivers : network.Delivers state name frame next) {other : Name}
    (apart : other ≠ name) : next.node other = state.node other := by
  obtain ⟨before, later, limits, message, flying, host, port, received⟩ := delivers
  exact Function.update_of_ne apart _ _

/-- A frame on its way to a node can be delivered: nothing has to happen before. -/
theorem Framed.delivered (framed : network.Framed message frame) (flying : frame ∈ state.travelling)
    (host : frame.host = (network.core name).host) (port : frame.port = (network.core name).port) :
    ∃ next, network.Delivers state name frame next := by
  obtain ⟨before, later, parts⟩ := List.append_of_mem flying
  exact ⟨_, .intro before later [] message parts host port ((Reception.appended_iff message).mpr
    ⟨Message.wellFormed_encode network.faithful framed.valid framed.carried framed.encoded,
      Reception.whole_unlimited⟩)⟩

/-- However it is read, it is the message it was made from that is handled. -/
theorem Delivers.handles (delivers : network.Delivers state name frame next)
    (framed : network.Framed message frame) :
    ∃ left, next = (⟨state.node, left⟩ : Traffic Name).advance name
      ((network.core name).process_message message (state.node name)).2 := by
  obtain ⟨before, later, limits, received, flying, host, port, appended⟩ := delivers
  obtain rfl := Message.parsed_carried network.faithful framed.encoded framed.valid framed.carried
    appended
  exact ⟨_, rfl⟩

end Delivery

section Run

variable [DecidableEq Name]

/-- A node that forgets nobody, in a network where the others do nothing. -/
theorem advance_remembers {state : Traffic Name} {actor : Name} {after : Node}
    (remembers : Remembers (state.node actor) after) (name : Name) :
    Remembers (state.node name) ((state.advance actor after).node name) := by
  by_cases same : name = actor
  · subst same
    simpa only [Traffic.advance, Function.update_self] using remembers
  · simpa only [Traffic.advance, Function.update_of_ne same] using Remembers.refl (state.node name)

/-- No step of the network makes any node forget a user. -/
theorem step_remembers {state next : Traffic Name} (stepped : network.Step state next)
    (name : Name) : Remembers (state.node name) (next.node name) := by
  cases stepped with
  | event actor event after own stepped =>
    exact advance_remembers ((network.core actor).step_remembers _ stepped) name
  | register actor => exact advance_remembers ((network.core actor).register_remembers _) name
  | send actor user message outgoing =>
    exact advance_remembers ((network.core actor).sendMessage_remembers _ user message) name
  | requestEPR actor user =>
    exact advance_remembers ((network.core actor).requestEPR_remembers _ user) name
  | deliver actor frame before later limits message flying host port received =>
    let left : Traffic Name := { state with travelling := before ++ later }
    have remembers : Remembers (left.node actor) _ :=
      (network.core actor).process_message_remembers (state.node actor) message
    exact advance_remembers remembers name
  | lose frame before later flying => exact .refl _

/-- Whatever happens, no node forgets a user. -/
theorem reaches_remembers {state later : Traffic Name}
    (reached : Relation.ReflTransGen network.Step state later) (name : Name) :
    Remembers (state.node name) (later.node name) := by
  induction reached with
  | refl => exact .refl _
  | tail _ stepped inductionHypothesis =>
    exact Remembers.trans _ _ _ inductionHypothesis (step_remembers stepped name)

variable (network) in
/-- Nodes have signed all messages that wait. -/
def WaitingSigned (state : Traffic Name) : Prop :=
  ∀ name, ∀ message ∈ (state.node name).resolving, network.Signed message

/-- If the messages that wait at the acting node are signed, all are. -/
theorem WaitingSigned.advance {state : Traffic Name} (signed : network.WaitingSigned state)
    {actor : Name} {after : Node} (here : ∀ message ∈ after.resolving, network.Signed message) :
    network.WaitingSigned (state.advance actor after) := by
  intro name message waits
  by_cases same : name = actor
  · subst same
    simp only [Traffic.advance, Function.update_self] at waits
    exact here message waits
  · simp only [Traffic.advance, Function.update_of_ne same] at waits
    exact signed name message waits

/-- Only messages of frames that nodes have signed are left waiting: what a node parks has just
arrived, and it was honest on its way. -/
theorem WaitingSigned.step (carried : ∀ name, Message.Carried (network.core name).name)
    {state next : Traffic Name} (sound : network.Sound state) (signed : network.WaitingSigned state)
    (stepped : network.Step state next) : network.WaitingSigned next := by
  cases stepped with
  | event actor event after own stepped =>
    refine signed.advance fun message waits => ?_
    rcases (network.core actor).step_resolving _ stepped message waits with earlier | ⟨inbound, -⟩
    · exact signed actor message earlier
    · exact absurd inbound (own message)
  | register actor =>
    refine signed.advance fun message waits => ?_
    rw [register_resolving] at waits
    exact signed actor message waits
  | send actor user message outgoing =>
    refine signed.advance fun other waits => ?_
    rw [(QChatCore.sendMessage_sameMessages user _ message).resolving] at waits
    exact signed actor other waits
  | requestEPR actor user =>
    refine signed.advance fun message waits => ?_
    rw [requestEPR_resolving] at waits
    exact signed actor message waits
  | deliver actor frame before later limits message flying host port received =>
    have left : network.WaitingSigned { state with travelling := before ++ later } := signed
    refine left.advance fun other waits => ?_
    rcases (network.core actor).step_resolving _ (.inbound message) other waits with
      earlier | ⟨inbound, verified⟩
    · exact signed actor other earlier
    · cases inbound
      exact (sound.honest frame (by simp [flying])).signed carried received verified
  | lose frame before later flying => exact signed

/-- In every reachable state the waiting messages have been signed by the nodes they name. At
the start no message waits. -/
theorem Reachable.waitingSigned (carried : ∀ name, Message.Carried (network.core name).name)
    {state : Traffic Name} (reached : network.Reachable state) : network.WaitingSigned state := by
  induction reached with
  | refl =>
    intro name message waits
    cases waits
  | tail earlier stepped inductionHypothesis =>
    have before : network.Reachable _ := earlier
    exact inductionHypothesis.step carried before.sound stepped

/-- A waiting message of a known sender is handled as the sender made it. -/
theorem Reachable.resumes (verifies : network.Verifies)
    (carried : ∀ name, Message.Carried (network.core name).name) {state : Traffic Name}
    (reached : network.Reachable state) (holder : Name) {position : Nat} {message : Message}
    (waiting : (state.node holder).resolving[position]? = some message)
    (known : (state.node holder).userDB.hasUser (.str message.sender) = true) :
    ∃ name original, (network.core name).Outgoing original ∧
      (network.core name)._sign_message original = .ok message ∧
      network.Step state (state.advance holder ((network.core holder).handle
        (handlerOf (network.core holder).role original.cls) original
        { state.node holder with resolving := (state.node holder).resolving.eraseIdx position }).2) := by
  have signed := reached.waitingSigned carried holder message (List.mem_of_getElem? waiting)
  obtain ⟨name, original, outgoing, signing, admitted⟩ :=
    signed.admitted verifies (reached.sound.genuine holder) holder known
  refine ⟨name, original, outgoing, signing, ?_⟩
  have resumed : network.Step state _ :=
    .event state holder (.resume position) _ nofun (.resume position message waiting known)
  simp only [QChatCore.process_known, Method.get_bind, Method.compute_bind, admitted] at resumed
  exact resumed

end Run

variable [DecidableEq Name] (network)

/-- Whatever else happens in between: a question that reaches a registry with the user's key
brings an answer on its way; and once the answer has reached the asker, every message of the
user that waits there can be handled, and is handled as the user made it.

Proof: an answer is sent in the step that delivers the question, and makes the user known in the
step that delivers it. No node forgets a user, and what waits was signed by the node it names,
so its signature is accepted whenever its turn comes. -/
theorem waiting_resolved (verifies : network.Verifies)
    (carried : ∀ name, Message.Carried (network.core name).name) (asker registry other : Name)
    (single : (network.core other).name ≠ "*")
    (room : ∀ answer, Message.ofDict .PUTUMessage (network.core registry).name
      (network.publicInfo other) = .ok answer →
        (network.core registry).Sendable answer (network.publicInfo other))
    (state : Traffic Name) (reached : network.Reachable state) (question : Frame)
    (flying : question ∈ state.travelling)
    (asks : network.Asks asker (network.core other).name question)
    (host : question.host = (network.core registry).host)
    (port : question.port = (network.core registry).port)
    (held : (state.node registry).userDB.getPublicKey (.str (network.core other).name) =
      .ok (.bytes (network.core other).pub)) :
    (∃ answered, network.Delivers state registry question answered) ∧
    ∃ reply, network.Replies registry asker other reply ∧
      ∀ answered, network.Delivers state registry question answered →
        reply ∈ answered.travelling ∧
        ∀ waiting, Relation.ReflTransGen network.Step answered waiting →
          (reply ∈ waiting.travelling → ∃ told, network.Delivers waiting asker reply told) ∧
          ∀ told, network.Delivers waiting asker reply told →
            ∀ last, Relation.ReflTransGen network.Step told last →
              ∀ position message, (last.node asker).resolving[position]? = some message →
                message.sender = (network.core other).name →
                ∃ original, (network.core other).Outgoing original ∧
                  (network.core other)._sign_message original = .ok message ∧
                  network.Step last (last.advance asker ((network.core asker).handle
                    (handlerOf (network.core asker).role original.cls) original
                    { last.node asker with
                      resolving := (last.node asker).resolving.eraseIdx position }).2) := by
  obtain ⟨asked, framed, handled⟩ := asks.handled carried
  have genuine := reached.sound.genuine registry
  obtain ⟨reply, replies, sends⟩ := Replies.of_sendUserInfo asker carried single room genuine held
  obtain ⟨answer, answerFramed, handles⟩ := replies.handled carried single
  refine ⟨framed.delivered flying host port, reply, replies, fun answered delivers => ?_⟩
  obtain ⟨left, rfl⟩ := delivers.handles framed
  rw [handled registry, sends] at delivers ⊢
  refine ⟨by simp [Traffic.advance], fun waiting onward => ?_⟩
  have reachedWaiting : network.Reachable waiting := (reached.tail delivers.step).trans onward
  refine ⟨fun flies => answerFramed.delivered flies replies.1 replies.2.1, fun told tells => ?_⟩
  obtain ⟨_, rfl⟩ := tells.handles answerFramed
  obtain ⟨kwargs, adds⟩ := handles (waiting.node asker)
  rw [adds] at tells ⊢
  intro last further position message waits sender
  have reachedLast : network.Reachable last := (reachedWaiting.tail tells.step).trans further
  have known : (last.node asker).userDB.hasUser (.str message.sender) = true := by
    rw [sender]
    refine reaches_remembers further asker _ ?_
    simp [Traffic.advance, UserDB.hasUser, UserDB.get_user_addUser]
  obtain ⟨name, original, outgoing, signing, resumes⟩ :=
    reachedLast.resumes verifies carried asker waits known
  obtain ⟨entries, dictionary, -⟩ := outgoing.fresh
  obtain ⟨_, rfl⟩ := of_sign_message dictionary signing
  obtain rfl := network.distinct name other (outgoing.sender.symm.trans sender)
  exact ⟨original, outgoing, signing, resumes⟩

end Network

/-- Data with a short text has room in a frame. -/
theorem fits_of_text {data : Value} {text : String} (dumped : json.dumps data = .ok text)
    (short : (Bytes.utf8 text).length < 2 ^ 32) : QChatCore.Fits json data := by
  intro other again
  cases dumped.symm.trans again
  exact short

/-- The answer about bob fits into a frame. -/
theorem town_room (answer : Message)
    (_made : Message.ofDict .PUTUMessage (townNetwork.core .root).name (townNetwork.publicInfo .bob) =
      .ok answer) : (townNetwork.core .root).Sendable answer (townNetwork.publicInfo .bob) :=
  ⟨rfl, fits_of_text rfl (by decide +kernel), fun _ _ =>
    show QChatCore.Fits json
      (.obj ((townNetwork.core .root).withSig [] (townNetwork.publicInfo .bob)))
      from fits_of_text rfl (by decide +kernel)⟩

/-- What bob writes to alice, and what is sent. -/
def townMessage : Message := Town.bob.message .QCHTMessage []

/-- Bob's message with its signature. -/
def townSigned : Message := Town.bob.message .QCHTMessage [("sig", .str (Bytes.latin1Text [0]))]

/-- It is a message that bob may send. -/
theorem townMessage_outgoing : (townNetwork.core .bob).Outgoing townMessage where
  verified := rfl
  sender := rfl
  valid := Value.isJson_nothing
  fresh := ⟨[], rfl, rfl⟩

/-- A message of a user whom alice does not know waits, and the registry is asked. -/
theorem town_asks (node : Node) (unknown : node.userDB.hasUser (.str "bob") = false) :
    ∃ question, question.host = (townNetwork.core .root).host ∧
      question.port = (townNetwork.core .root).port ∧
      ((townNetwork.core .alice).requestUserInfo "bob" node).2.sent = node.sent ++ [question] ∧
      ((townNetwork.core .alice).process_message townSigned node).2 =
        { node with
          sent := node.sent ++ [question]
          resolving := node.resolving ++ [townSigned] } := by
  refine ⟨_, rfl, rfl, rfl, ?_⟩
  have verified : townSigned.cls.verify = true ∧
      ¬ node.userDB.hasUser (.str townSigned.sender) = true := ⟨rfl, by
      rw [show townSigned.sender = "bob" from rfl, unknown]
      decide⟩
  simp only [QChatCore.process_message, Method.get_bind]
  rw [if_pos verified]
  rfl

/-- bob has written to alice, who does not know him. -/
theorem town_waits : ∃ state question, townNetwork.Reachable state ∧
    question ∈ state.travelling ∧ townNetwork.Asks .alice "bob" question ∧
    question.host = (townNetwork.core .root).host ∧ question.port = (townNetwork.core .root).port ∧
    (state.node .alice).resolving = [townSigned] ∧
    (state.node .root).userDB.getPublicKey (.str "bob") = .ok (.bytes [2]) := by
  obtain ⟨state, reached, quiet, unknown, nobody, stored, known, held⟩ := town_introduced
  have addressed : QChatCore.Addressed (state.node .bob) "alice" (.str "localhost") (.num 8000) :=
    ⟨known, _, stored, rfl, rfl⟩
  obtain ⟨frame, encoded⟩ : ∃ frame, townSigned.encode_message json = .ok frame := ⟨_, rfl⟩
  have signing : (townNetwork.core .bob)._sign_message townMessage = .ok townSigned := rfl
  have sends := (townNetwork.core .bob).sendMessage_resolved (addressed.resolves id) townMessage
  simp only [signing, show (townNetwork.core .bob).json = json from rfl, encoded] at sends
  obtain ⟨question, host, port, asked, waits⟩ := town_asks _ unknown
  have valid : townSigned.data.IsJson := by
    refine .obj _ (by simp) fun entry member => ?_
    rw [List.mem_singleton.mp member]
    exact .str _
  have delivered := reached.handed quiet .bob .alice (by decide)
    (.send state .bob "alice" townMessage townMessage_outgoing) townSigned valid (town_carried .bob)
    ⟨frame, encoded, by rw [sends]; rfl⟩
  refine ⟨_, question, delivered, ?_, ⟨_, asked⟩, host, port, ?_, ?_⟩
  · rw [waits]
    simp [Traffic.advance]
  · rw [waits]
    simp [Traffic.advance, nobody]
  · simpa [Traffic.advance] using held

/-- Once the registry has told alice who bob is, his message can be handled. -/
theorem waiting_resolved_town : ∃ (waiting told : Traffic Town) (reply : Frame)
    (original : Message), townNetwork.Reachable waiting ∧
    (waiting.node .alice).resolving = [townSigned] ∧
    townNetwork.Replies .root .alice .bob reply ∧
    townNetwork.Delivers waiting .alice reply told ∧ (told.node .alice).resolving = [townSigned] ∧
    (townNetwork.core .bob)._sign_message original = .ok townSigned ∧
    townNetwork.Step told (told.advance .alice ((townNetwork.core .alice).handle
      (handlerOf (townNetwork.core .alice).role original.cls) original
      { told.node .alice with resolving := (told.node .alice).resolving.eraseIdx 0 }).2) := by
  obtain ⟨state, question, reached, flying, asks, host, port, waits, held⟩ := town_waits
  obtain ⟨⟨answered, answers⟩, reply, replies, resolves⟩ := townNetwork.waiting_resolved
    (fun _ _ _ _ _ => rfl) town_carried .alice .root .bob (by decide) town_room state reached
    question flying asks host port held
  obtain ⟨flies, onward⟩ := resolves answered answers
  obtain ⟨deliverable, ready⟩ := onward answered .refl
  obtain ⟨told, tells⟩ := deliverable flies
  have still : (answered.node .alice).resolving = [townSigned] := by
    rw [answers.elsewhere (by decide), waits]
  have kept : (told.node .alice).resolving = [townSigned] := by
    obtain ⟨answer, framed, handles⟩ := replies.handled town_carried (by decide)
    obtain ⟨kwargs, adds⟩ := handles (answered.node .alice)
    obtain ⟨_, rfl⟩ := tells.handles framed
    simpa [Traffic.advance, adds] using still
  obtain ⟨original, -, signing, resumes⟩ := ready told tells told .refl 0 townSigned
    (by rw [kept]; rfl) rfl
  exact ⟨answered, told, reply, original, reached.tail answers.step, still, replies, tells, kept,
    signing, resumes⟩

end QChat
