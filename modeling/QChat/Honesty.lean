import QChat.Network

/-!
# What honest nodes know of each other

In a network without a forger the entries of every user database are true: each is about
a node of the network and has that node's connection and public key, whatever way it
came there. Registrations and answers are the only messages that write to a database;
what they bring is what their sender knew, so the invariant is about databases and frames
together.
-/

namespace QChat

open QChatCore (publicEntries importedInfo)

/-- A received frame brings the class and the data of the message it was made from, and what is
left of the sender's name: its last sixteen bytes, without the zero bytes of the padding. -/
theorem Message.parsed {json : JsonCodec} (faithful : json.Faithful) {message received : Message}
    {frame : Bytes} (encoded : message.encode_message json = .ok frame)
    (valid : message.data.IsJson) {limits : List Nat} {message_queue : List Message}
    (appended : Reception.Appended json frame limits message_queue received) :
    received.cls = message.cls ∧ received.data = message.data ∧
      Bytes.utf8Text ((padded_sender message.sender).filter (· ≠ 0)) = .ok received.sender := by
  obtain ⟨text, dumped, fits, parts⟩ := encode_message_parts encoded
  obtain ⟨written, dumpedWritten, loads⟩ := faithful.loads_dumps message.data valid
  obtain rfl : text = written := Except.ok.inj (dumped.symm.trans dumpedWritten)
  have wellFormed := ((Reception.appended_iff received).mp appended).1
  generalize received.cls = cls, received.sender = sender, received.data = data at wellFormed
  cases wellFormed with
  | @frame _ _ other _ sixteen size payload known width named decoded sized data_length unpacked
      loaded =>
    -- both ways to take the frame apart agree on each field
    rw [List.append_assoc, List.append_assoc] at parts
    obtain ⟨header, fields⟩ := List.append_inj parts (by
      rw [MessageClass.header_length, MessageClass.header_length])
    obtain ⟨rfl, sizes⟩ := List.append_inj fields (by rw [width, padded_sender_length])
    obtain ⟨-, rfl⟩ := List.append_inj sizes (by rw [sized, Bytes.bigEndian_length])
    refine ⟨?_, ?_, decoded⟩
    · have same := MessageClass.ofHeader_header cls
      rw [header, MessageClass.ofHeader_header] at same
      exact (Except.ok.inj same).symm
    · rw [Bytes.utf8Text_utf8] at unpacked
      cases unpacked
      exact Except.ok.inj (loaded.symm.trans loads)

/-- The message that was encoded is the one that is received. -/
theorem Message.parsed_carried {json : JsonCodec} (faithful : json.Faithful)
    {message received : Message} {frame : Bytes} {limits : List Nat} {message_queue : List Message}
    (encoded : message.encode_message json = .ok frame) (valid : message.data.IsJson)
    (carried : Carried message.sender)
    (appended : Reception.Appended json frame limits message_queue received) :
    received = message := by
  obtain ⟨cls, data, sender⟩ := Message.parsed faithful encoded valid appended
  rw [(padded_sender_carried carried).2, Bytes.utf8Text_utf8] at sender
  obtain ⟨_, _, _, _⟩ := received
  obtain ⟨_, _, _, _⟩ := message
  cases cls
  cases data
  cases sender
  rfl

/-- A listed field is read. -/
theorem UserDB.getField_entry {userDB : UserDB} {user : UserKey} {info : UserInfo}
    (entry : userDB._get_user user = some info) {field : String} {value : Value}
    (listed : info.get? field = some value) : userDB.getField user field = .ok value :=
  getField_stored (by rw [stored, entry, Option.bind_some, listed])

namespace Network

variable {Name : Type} (network : Network Name)

/-- Where a node can be reached. -/
def connection (name : Name) : Value :=
  .obj [("host", (network.core name).host), ("port", (network.core name).port)]

/-- A node's connection can be sent as it is. -/
theorem connection_isJson (name : Name) : (network.connection name).IsJson := by
  refine .obj _ (by simp) fun entry member => ?_
  rcases List.mem_pair.mp member with rfl | rfl
  · exact network.host name
  · exact network.port name

/-- The fields are those of a node: its connection, and its public key in bytes or as an
answer brings it. -/
def Describes (name : Name) (info : UserInfo) : Prop :=
  info.get? "connection" = some (network.connection name) ∧
    (info.get? "pub" = some (.bytes (network.core name).pub) ∨
      info.get? "pub" = some (pubText (network.core name).pub))

/-- Every entry is that of a node of the network: its user is the node's name, and its
connection and its public key are the node's own. Message keys and other fields may be anything.
-/
def Genuine (userDB : UserDB) : Prop :=
  ∀ user info, userDB._get_user user = some info →
    ∃ name, user = .str (network.core name).name ∧ network.Describes name info

/-- What an answer says of one user. -/
def publicInfo (name : Name) : List (String × Value) :=
  publicEntries (network.connection name) (network.core name).pub (.str (network.core name).name)

/-- The data of an answer, about one user or about many. -/
def Answer (entries : List (String × Value)) : Prop :=
  (∃ name, entries = network.publicInfo name) ∨
    ∃ names : List Name, entries =
      [("user", .str "*"), ("info", .arr (names.map fun name => .obj (network.publicInfo name)))]

/-- The data of a registration. -/
def registration (name : Name) : List (String × Value) :=
  [("user", .str (network.core name).name), ("pub", pubText (network.core name).pub),
    ("connection", network.connection name)]

/-- A registration is that of a node, and an answer is true. Messages of the other classes write
nothing to a database and may say what they like. -/
structure Honest (message : Message) : Prop where
  registration : message.cls = .RGSTMessage →
    ∃ name, message.data = .obj (network.registration name)
  answer : message.cls = .PUTUMessage → ∃ entries signature, network.Answer entries ∧
    message.data = .obj (Dict.assign "sig" (.str signature) entries)

/-- The message is one that a node has signed. -/
def Signed (message : Message) : Prop :=
  ∃ name original, (network.core name).Outgoing original ∧
    (network.core name)._sign_message original = .ok message

/-- The frame of an honest message, signed by a node if its class must be. This is what is known
of every frame on its way, whoever it is for. -/
def HonestFrame (frame : Bytes) : Prop :=
  ∃ message, network.Honest message ∧ (message.cls.verify = true → network.Signed message) ∧
    message.data.IsJson ∧ message.encode_message network.json = .ok frame

/-- From true entries a node gets to true entries, and all it has sent since is honest. The
relation composes, so that it is shown of a method part by part. -/
def Behaves (before after : Node) : Prop :=
  network.Genuine before.userDB → network.Genuine after.userDB ∧
    ∃ new, after.sent = before.sent ++ new ∧ ∀ frame ∈ new, network.HonestFrame frame.frame

variable {network}

/-- Doing nothing is honest. -/
theorem Behaves.refl (node : Node) : network.Behaves node node :=
  fun genuine => ⟨genuine, [], (List.append_nil _).symm, fun _ member => by cases member⟩

/-- What is sent by the second part is sent from true entries, as the first part has kept them.
-/
theorem Behaves.trans (one two three : Node) (first : network.Behaves one two)
    (second : network.Behaves two three) : network.Behaves one three := by
  intro genuine
  obtain ⟨genuine, new, sent, honest⟩ := first genuine
  obtain ⟨genuine, newer, sentLater, honestLater⟩ := second genuine
  refine ⟨genuine, new ++ newer, ?_, fun frame member => ?_⟩
  · rw [sentLater, sent, List.append_assoc]
  · rcases List.mem_append.mp member with earlier | later
    · exact honest frame earlier
    · exact honestLater frame later

/-- A computation changes nothing. -/
theorem Behaves.compute {α β : Type} {value : Except Exn α} {next : α → Method Node Exn β}
    {node : Node}
    (goesOn : ∀ result, value = .ok result → network.Behaves node (next result node).2) :
    network.Behaves node (((liftM value : Method Node Exn α) >>= next) node).2 :=
  Method.compute_relates _ (.refl node) goesOn

/-- Database and outbox are the same. -/
theorem Behaves.of_same {before after : Node} (userDB : after.userDB = before.userDB)
    (sent : after.sent = before.sent) : network.Behaves before after := by
  intro genuine
  refine ⟨userDB ▸ genuine, [], ?_, fun _ member => by cases member⟩
  rw [sent, List.append_nil]

/-- A frame is sent, if anything is. -/
theorem Behaves.of_sent {before after : Node} (userDB : after.userDB = before.userDB)
    (sent : after.sent = before.sent ∨ ∃ frame, after.sent = before.sent ++ [frame] ∧
      (network.Genuine before.userDB → network.HonestFrame frame.frame)) :
    network.Behaves before after := by
  rcases sent with same | ⟨frame, sent, honest⟩
  · exact .of_same userDB same
  · intro genuine
    refine ⟨userDB ▸ genuine, [frame], sent, fun other member => ?_⟩
    rw [List.mem_singleton.mp member]
    exact honest genuine

/-- Only the database differs. -/
theorem Behaves.of_userDB {before after : Node} (sent : after.sent = before.sent)
    (genuine : network.Genuine before.userDB → network.Genuine after.userDB) :
    network.Behaves before after :=
  fun before => ⟨genuine before, [], by rw [sent, List.append_nil], fun _ member => by cases member⟩

section Database

variable {userDB : UserDB} {name : Name}

/-- Describing fields win over what is there. -/
theorem Describes.update {info : UserInfo} (kwargs : UserInfo)
    (described : network.Describes name kwargs) : network.Describes name (info.update kwargs) := by
  obtain ⟨connected, keyed⟩ := described
  constructor
  · rw [Dict.get?_update, connected, Option.some_or]
  · rw [Dict.get?_update]
    exact keyed.imp (fun bytes => by rw [bytes, Option.some_or])
      fun text => by rw [text, Option.some_or]

/-- Adding a node's own fields to its entry keeps a database genuine. -/
theorem Genuine.addUser (genuine : network.Genuine userDB) {kwargs : UserInfo}
    (described : network.Describes name kwargs) :
    network.Genuine (userDB.addUser (.str (network.core name).name) kwargs) := by
  intro user info entry
  rw [UserDB.get_user_addUser] at entry
  split at entry
  · next same =>
    cases entry
    exact ⟨name, same, described.update kwargs⟩
  · exact genuine user info entry

/-- A key that a session has made is no field of the description. -/
theorem Genuine.changeUserInfo (genuine : network.Genuine userDB) (user : UserKey) (key : Value) :
    network.Genuine (userDB.changeUserInfo user (Dict.single "message_key" key)) := by
  intro other info entry
  rw [UserDB.get_user_changeUserInfo] at entry
  split at entry
  · next same =>
    obtain ⟨before, stored, rfl⟩ := Option.map_eq_some_iff.mp entry
    obtain ⟨name, named, connected, keyed⟩ := genuine user before stored
    refine ⟨name, same.trans named, ?_, ?_⟩
    · simpa [Dict.get?_update] using connected
    · simpa [Dict.get?_update] using keyed
  · exact genuine other info entry

/-- An import stores the fields that describe the node, with the key as a text. -/
theorem describes_importedInfo :
    network.Describes name (importedInfo (network.connection name) (network.core name).pub) :=
  ⟨QChatCore.importedInfo_connection _ _, .inr (QChatCore.importedInfo_pub _ _)⟩

/-- A node starts with one entry: its own. -/
theorem boot_genuine (name : Name) : network.Genuine (network.core name).boot.userDB := by
  have nobody : network.Genuine UserDB.init := fun _ _ entry => by cases entry
  refine nobody.addUser ⟨?_, .inl ?_⟩
  · simp [Dict.ofList, QChatCore.get_connection_info, connection]
  · simp [Dict.ofList, QChatCore.get_connection_info, Dict.get?_set]

end Database

section Data

/-- What an answer says of a user can be sent. -/
theorem publicInfo_isJson (name : Name) : (Value.obj (network.publicInfo name)).IsJson :=
  QChatCore.publicEntries_isJson _ _ (network.connection_isJson name) (.str _)

/-- So can a whole answer. -/
theorem Answer.isJson {entries : List (String × Value)} (answer : network.Answer entries) :
    (Value.obj entries).IsJson := by
  rcases answer with ⟨name, rfl⟩ | ⟨names, rfl⟩
  · exact publicInfo_isJson name
  · refine .obj _ (by simp) fun entry member => ?_
    rcases List.mem_pair.mp member with rfl | rfl
    · exact .str _
    · refine .arr _ fun item listed => ?_
      obtain ⟨name, -, rfl⟩ := List.mem_map.mp listed
      exact publicInfo_isJson name

/-- No answer has a field with the name of the signature, so taking the signature off gives it
back. -/
theorem Answer.unsigned {entries : List (String × Value)} (answer : network.Answer entries) :
    Dict.remove "sig" entries = entries := by
  rcases answer with ⟨name, rfl⟩ | ⟨names, rfl⟩
  · exact Dict.remove_absent _ _ (by simp [publicInfo, publicEntries])
  · exact Dict.remove_absent _ _ (by simp)

/-- A question for a user can be sent. -/
theorem question_isJson (name : Name) (user : String) :
    (Value.obj (("user", .str user) :: (network.core name).get_connection_info)).IsJson := by
  refine .obj _ (by simp [QChatCore.get_connection_info]) fun entry member => ?_
  rcases List.mem_pair.mp member with rfl | rfl
  · exact .str _
  · exact network.connection_isJson name

/-- A registration can be sent. -/
theorem registration_isJson (name : Name) : (Value.obj (network.registration name)).IsJson := by
  refine .obj _ (by simp [registration]) fun entry member => ?_
  simp only [registration, List.mem_cons, List.not_mem_nil, or_false] at member
  rcases member with rfl | rfl | rfl
  · exact .str _
  · exact .str _
  · exact network.connection_isJson name

variable {userDB : UserDB} (genuine : network.Genuine userDB)

include genuine in
/-- A key that can be decoded is the key of the node with the user's name. A key that came as a
text has no `decode`, so a node only hands on the keys that it has in bytes: its own, and at the
registry those of registrations. -/
theorem decodePub_genuine {user : UserKey} {pub decoded : Value}
    (held : userDB.getPublicKey user = .ok pub) (text : UserDB.decodePub pub = .ok decoded) :
    ∃ name, user = .str (network.core name).name ∧
      userDB.getConnectionInfo user = .ok (network.connection name) ∧
      decoded = pubText (network.core name).pub := by
  obtain ⟨info, entry⟩ := Option.isSome_iff_exists.mp (UserDB.hasUser_of_getField held)
  obtain ⟨name, named, connected, keyed⟩ := genuine user info entry
  refine ⟨name, named, UserDB.getField_entry entry connected, ?_⟩
  rcases keyed with bytes | asText
  · cases held.symm.trans (UserDB.getField_entry entry bytes)
    cases text
    rfl
  · cases held.symm.trans (UserDB.getField_entry entry asText)
    cases text

include genuine in
/-- What a node exports of a user is true. -/
theorem publicInfo_genuine {user : UserKey} {entries : List (String × Value)}
    (listed : userDB.publicInfo user = .ok entries) :
    ∃ name, entries = network.publicInfo name := by
  obtain ⟨connection, read, rest⟩ := ok_of_bind listed
  obtain ⟨pub, held, rest⟩ := ok_of_bind rest
  obtain ⟨decoded, text, rest⟩ := ok_of_bind rest
  obtain ⟨name, rfl, connected, rfl⟩ := decodePub_genuine genuine held text
  cases read.symm.trans connected
  cases rest
  exact ⟨name, rfl⟩

include genuine in
/-- What a node answers is true, whether it is asked for one user or for all. -/
theorem answer_genuine {user : UserKey} {entries : List (String × Value)}
    (listed : userDB.getPublicUserInfo user = .ok entries) : network.Answer entries := by
  rw [UserDB.getPublicUserInfo] at listed
  split at listed
  · obtain ⟨infos, each, rest⟩ := ok_of_bind listed
    cases rest
    suffices all : ∀ (keys : List UserKey) (infos : List (List (String × Value))),
        keys.mapM userDB.publicInfo = .ok infos →
          ∃ names : List Name, infos = names.map network.publicInfo by
      obtain ⟨names, rfl⟩ := all _ _ each
      refine .inr ⟨names, ?_⟩
      rw [List.map_map]
      rfl
    intro keys
    induction keys with
    | nil =>
      intro infos done
      cases done
      exact ⟨[], rfl⟩
    | cons key keys inductionHypothesis =>
      intro infos done
      rw [List.mapM_cons] at done
      obtain ⟨info, here, done⟩ := ok_of_bind done
      obtain ⟨others, later, done⟩ := ok_of_bind done
      cases done
      obtain ⟨name, rfl⟩ := publicInfo_genuine genuine here
      obtain ⟨names, rfl⟩ := inductionHypothesis others later
      exact ⟨name :: names, rfl⟩
  · exact .inl (publicInfo_genuine genuine listed)

include genuine in
/-- What a node registers with is true: the only entry with its name is its own. -/
theorem registration_genuine {name : Name} {data : List (String × Value)}
    (made : (network.core name)._get_registration_data userDB = .ok data) :
    data = network.registration name := by
  obtain ⟨pub, held, rest⟩ := ok_of_bind made
  obtain ⟨decoded, text, rest⟩ := ok_of_bind rest
  obtain ⟨other, named, -, rfl⟩ := decodePub_genuine genuine held text
  obtain rfl := network.distinct name other (UserKey.str.inj named)
  cases rest
  rfl

end Data

section Methods

variable {name : Name} (node : Node)

/-- The signed message is what is sent, if anything is. -/
theorem signAndSend_behaves (message : Message) (host port : Except Exn Value)
    (honest : network.Genuine node.userDB → ∀ signed frame,
      (network.core name)._sign_message message = .ok signed →
      signed.encode_message network.json = .ok frame → network.HonestFrame frame) :
    network.Behaves node ((network.core name).signAndSend message host port node).2 := by
  refine .compute fun signed signing => .compute fun host _ => .compute fun port _ => ?_
  refine .compute fun frame encoded => ?_
  rw [network.shared name] at encoded
  exact .of_sent rfl (.inr ⟨_, rfl, fun genuine => honest genuine _ _ signing encoded⟩)

/-- A message that neither writes to a database nor must be verified is honest. -/
theorem HonestFrame.ordinary {message : Message} {frame : Bytes}
    (registers : message.cls ≠ .RGSTMessage) (answers : message.cls ≠ .PUTUMessage)
    (unverified : message.cls.verify = false) (valid : message.data.IsJson)
    (encoded : message.encode_message network.json = .ok frame) : network.HonestFrame frame := by
  refine ⟨message, ⟨fun cls => absurd cls registers, fun cls => absurd cls answers⟩, ?_, valid,
    encoded⟩
  intro verified
  rw [unverified] at verified
  cases verified

/-- Signing adds the signature to the data. -/
theorem of_sign_message {message signed : Message} {entries : List (String × Value)}
    (dictionary : message.data = .obj entries)
    (signing : (network.core name)._sign_message message = .ok signed) :
    ∃ signature, signed = message.withData (.obj (Dict.assign "sig" (.str signature) entries)) := by
  obtain ⟨frame, encoded, -⟩ := ok_of_bind signing
  rw [(network.core name).sign_message_ok dictionary encoded] at signing
  cases signing
  exact ⟨_, rfl⟩

/-- A signed message can be sent if it could be without its signature. -/
theorem signed_isJson {message signed : Message} (valid : message.data.IsJson)
    {entries : List (String × Value)} (dictionary : message.data = .obj entries)
    (signing : (network.core name)._sign_message message = .ok signed) : signed.data.IsJson := by
  obtain ⟨frame, encoded, -⟩ := ok_of_bind signing
  rw [(network.core name).sign_message_ok dictionary encoded] at signing
  cases signing
  rw [dictionary] at valid
  exact (network.core name).isJson_withSig valid frame

/-- A question changes nothing and is honest. -/
theorem requestUserInfo_behaves (user : String) :
    network.Behaves node ((network.core name).requestUserInfo user node).2 := by
  refine .compute fun message made => ?_
  obtain ⟨cls, -, data⟩ := Message.of_ofDict made
  refine signAndSend_behaves node message _ _ fun _ signed frame signing encoded => ?_
  have valid : message.data.IsJson := by
    rw [data]
    refine .obj _ (by simp [QChatCore.get_connection_info]) fun entry member => ?_
    rcases List.mem_pair.mp member with rfl | rfl
    · exact .str _
    · exact network.connection_isJson name
  have json := signed_isJson valid data signing
  obtain ⟨signature, rfl⟩ := of_sign_message data signing
  have same : (message.withData (.obj (Dict.assign "sig" (.str signature)
      (("user", .str user) :: (network.core name).get_connection_info)))).cls = .GETUMessage := cls
  exact .ordinary (by rw [same]; decide) (by rw [same]; decide) (by rw [same]; rfl) json encoded

/-- An answer is made from the database, so it is honest if the database is genuine. -/
theorem sendUserInfo_behaves (user connection : Value) :
    network.Behaves node ((network.core name).sendUserInfo user connection node).2 := by
  refine .compute fun key _ => ?_
  rw [Method.get_bind]
  refine .compute fun public_info listed => .compute fun message made => ?_
  obtain ⟨cls, -, data⟩ := Message.of_ofDict made
  refine signAndSend_behaves node message _ _ fun genuine signed frame signing encoded => ?_
  have answer := answer_genuine genuine listed
  have valid : message.data.IsJson := data ▸ answer.isJson
  refine ⟨signed, ?_, ?_, signed_isJson valid data signing, encoded⟩
  · obtain ⟨signature, rfl⟩ := of_sign_message data signing
    constructor
    · intro other
      cases cls.symm.trans other
    · exact fun _ => ⟨public_info, signature, answer, rfl⟩
  · obtain ⟨signature, rfl⟩ := of_sign_message data signing
    intro verified
    rw [Message.withData, cls] at verified
    cases verified

/-- A registration says the node's own key and connection. -/
theorem sendRegistration_behaves (host port : Value) :
    network.Behaves node ((network.core name).sendRegistration host port node).2 := by
  rw [QChatCore.sendRegistration, Method.get_bind]
  refine .compute fun data made => .compute fun message created => .compute fun frame encoded => ?_
  rw [network.shared name] at encoded
  obtain ⟨cls, -, holds⟩ := Message.of_ofDict created
  refine .of_sent rfl (.inr ⟨_, rfl, fun genuine => ?_⟩)
  have own := registration_genuine genuine made
  refine ⟨message, ⟨?_, ?_⟩, ?_, ?_, encoded⟩
  · exact fun _ => ⟨name, by rw [holds, own]⟩
  · intro other
    cases cls.symm.trans other
  · intro verified
    rw [cls] at verified
    cases verified
  · rw [holds, own]
    exact registration_isJson name

/-- Registering at the registry is honest, whether anything is sent or not. -/
theorem register_behaves :
    network.Behaves node ((network.core name)._register_with_root_server node).2 := by
  refine Behaves.compute fun root_host _ => .compute fun root_port _ => ?_
  split
  · exact .refl node
  · exact sendRegistration_behaves node root_host root_port

/-- A request for a pair writes to no database. -/
theorem requestEPR_behaves (user : String) :
    network.Behaves node ((network.core name).requestEPR user node).2 := by
  refine .compute fun message made => .compute fun host _ => .compute fun port _ => ?_
  refine .compute fun frame encoded => ?_
  rw [network.shared name] at encoded
  obtain ⟨cls, -, data⟩ := Message.of_ofDict made
  have valid : message.data.IsJson := by
    rw [data]
    refine .obj _ (by simp) fun entry member => ?_
    rw [List.mem_singleton.mp member]
    exact .str _
  exact .of_sent rfl (.inr ⟨_, rfl, fun _ => .ordinary (by rw [cls]; decide)
    (by rw [cls]; decide) (by rw [cls]; rfl) valid encoded⟩)

end Methods

section Inbound

variable {name : Name} (node : Node)

/-- Storing the true information about one user of an answer. -/
theorem addBulkInfo_behaves (other : Name) :
    network.Behaves node (QChatCore.addBulkInfo (.obj (network.publicInfo other)) node).2 := by
  rw [publicInfo, QChatCore.addBulkInfo_imports _ _ node rfl]
  split
  · exact .refl node
  · exact .of_userDB rfl fun genuine => genuine.addUser describes_importedInfo

/-- Storing the true information about all its users, one after the other. -/
theorem addAllInfo_behaves (names : List Name) :
    network.Behaves node
      (QChatCore.addAllInfo (names.map fun name => .obj (network.publicInfo name)) node).2 := by
  induction names generalizing node with
  | nil => exact .refl node
  | cons other names inductionHypothesis =>
    exact Method.bind_relates _ Behaves.trans (addBulkInfo_behaves node other)
      fun _ after _ => inductionHypothesis after

/-- The entry of a single node is added. A node named `*` is taken for a bulk answer,
which has no entries here. -/
theorem addDescribed_behaves (other : Name) {kwargs : UserInfo}
    (described : network.Describes other kwargs) (single : kwargs.get? "info" = none) :
    network.Behaves node
      (QChatCore.addUserInfo (.str (network.core other).name) kwargs node).2 := by
  cases named : (Value.str (network.core other).name).isText "*" with
  | true =>
    simp only [QChatCore.addUserInfo, named, ↓reduceIte, single]
    exact .refl node
  | false =>
    rw [QChatCore.addUserInfo_single node _ _ named]
    exact .of_userDB rfl fun genuine => genuine.addUser described

/-- The import of an answer. -/
theorem addUserInfo_behaves {entries : List (String × Value)} (answer : network.Answer entries)
    {user : Value} {kwargs : UserInfo} (given : userArguments (.obj entries) = .ok (user, kwargs)) :
    network.Behaves node (QChatCore.addUserInfo user kwargs node).2 := by
  rcases answer with ⟨other, rfl⟩ | ⟨names, rfl⟩
  · have receiver : Dict.lookup "self" (network.publicInfo other) = none := by
      simp [publicInfo, publicEntries, Dict.lookup]
    rw [publicInfo] at given receiver
    simp only [userArguments, QChatCore.lookup_user, receiver, QChatCore.remove_user] at given
    cases given
    exact addDescribed_behaves node other describes_importedInfo
      (by simp [Dict.ofList, Dict.get?_set])
  · simp only [userArguments, Dict.lookup, Dict.remove, String.reduceEq, ↓reduceIte] at given
    cases given
    have bulk : (Value.str "*").isText "*" = true := by simp [Value.isText]
    have info : (Dict.ofList [("info", Value.arr (names.map fun name =>
        .obj (network.publicInfo name)))]).get? "info" =
          some (.arr (names.map fun name => .obj (network.publicInfo name))) := by
      simp [Dict.ofList]
    simp only [QChatCore.addUserInfo, bulk, ↓reduceIte, info, Method.compute_bind, Value.iterate]
    exact addAllInfo_behaves node names

/-- The registration of a node. -/
theorem registerUser_behaves (other : Name) :
    network.Behaves node (QChatCore.registerUser (.str (network.core other).name)
      (network.connection other) (pubText (network.core other).pub) node).2 := by
  have encoded : (pubText (network.core other).pub).encode = .ok (network.core other).pub :=
    Bytes.latin1_latin1Text _
  have described : network.Describes other (Dict.ofList [("pub", .bytes (network.core other).pub),
      ("connection", network.connection other)]) := by
    constructor
    · simp [Dict.ofList]
    · exact .inl (by simp [Dict.ofList, Dict.get?_set])
  simp only [QChatCore.registerUser, UserKey.ofValue, Method.compute_bind, Method.get_bind]
  split
  · exact .refl node
  · rw [Method.compute_bind, encoded]
    exact addDescribed_behaves node other described (by simp [Dict.ofList, Dict.get?_set])

/-- Only RGST messages reach `registerUser`. -/
theorem handlerOf_registerUser {role : Role} {cls : MessageClass}
    (chosen : handlerOf role cls = .registerUser) : cls = .RGSTMessage := by
  cases role <;> cases cls <;> first | rfl | cases chosen

/-- An honest message is handled. -/
theorem process_known_behaves {message : Message} (honest : network.Honest message) :
    network.Behaves node ((network.core name).process_known message node).2 := by
  simp only [QChatCore.process_known, Method.get_bind, Method.compute_bind]
  cases passed : (network.core name).authenticate node.userDB message with
  | error exception => exact .refl node
  | ok admitted =>
    have cls := ((network.core name).authenticate_cls passed).1
    dsimp only
    cases chosen : handlerOf (network.core name).role admitted.cls with
    | registerUser =>
      have registers : message.cls = .RGSTMessage := cls.symm.trans (handlerOf_registerUser chosen)
      obtain rfl := (network.core name).authenticate_plain (by rw [registers]; rfl)
        (by rw [registers]; rfl) passed
      obtain ⟨other, data⟩ := honest.registration registers
      have given : arguments ["user", "connection", "pub"] admitted.data =
          .ok [.str (network.core other).name, network.connection other,
            pubText (network.core other).pub] := by
        rw [data]
        rfl
      simp only [QChatCore.handle, Method.compute_bind, given]
      exact registerUser_behaves node other
    | sendUserInfo =>
      simp only [QChatCore.handle, Method.compute_bind]
      cases arguments ["user", "connection"] admitted.data with
      | error exception => exact .refl node
      | ok values =>
        dsimp only
        split
        · exact sendUserInfo_behaves node _ _
        · exact .refl node
    | addUserInfo =>
      have answers : message.cls = .PUTUMessage :=
        cls.symm.trans (QChatCore.handlerOf_addUserInfo chosen)
      obtain ⟨entries, signature, answer, data⟩ := honest.answer answers
      have stripped : admitted = message.withData (.obj entries) := by
        rw [(network.core name).authenticate_putu node.userDB message answers] at passed
        have popped := Value.pop_obj (Dict.lookup_assign_self "sig" (.str signature) entries)
        rw [Dict.remove_assign, answer.unsigned] at popped
        simp only [_strip_signature, data, popped, ok_bind, Value.encode] at passed
        cases encoded : Bytes.latin1 signature with
        | error exception =>
          rw [encoded] at passed
          cases passed
        | ok bytes =>
          rw [encoded] at passed
          cases passed
          rfl
      subst stripped
      simp only [QChatCore.handle, Method.compute_bind, Message.withData]
      cases given : userArguments (.obj entries) with
      | error exception => exact .refl node
      | ok values => exact addUserInfo_behaves node answer given
    | _distribute_qubits =>
      simp only [QChatCore.handle, QChatCore._distribute_qubits, Method.modify_bind,
        Method.compute_bind]
      cases admitted.data.item "user" with
      | error exception => exact .of_same rfl rfl
      | ok peer => exact .of_same rfl rfl
    | storeMessage => exact .of_same rfl rfl
    | _follow_protocol =>
      rcases QChatCore.follow_protocol_effect node admitted with same | ⟨_, _, _, started⟩
      · simp only [QChatCore.handle, same]
        exact .refl node
      · simp only [QChatCore.handle, started]
        exact .of_same rfl rfl
    | _store_control_message => exact .of_same rfl rfl

/-- Whatever honest message reaches a node, it stays honest: it handles the message, or asks the
registry for its sender and lets it wait. -/
theorem process_message_behaves {message : Message} (honest : network.Honest message) :
    network.Behaves node ((network.core name).process_message message node).2 := by
  simp only [QChatCore.process_message, Method.get_bind]
  split
  · refine Method.bind_relates _ Behaves.trans (requestUserInfo_behaves node message.sender)
      fun _ after _ => ?_
    split
    · exact process_known_behaves after honest
    · exact .of_same rfl rfl
  · exact process_known_behaves node honest

end Inbound

section Steps

variable {name : Name} (node : Node)

/-- What a call of `sendMessage` sends is a question to the registry or the message,
signed. -/
theorem sendMessage_behaves (user : String) {message : Message}
    (outgoing : (network.core name).Outgoing message) :
    network.Behaves node ((network.core name).sendMessage id user (node, message)).2.1 := by
  obtain ⟨entries, data, -⟩ := outgoing.fresh
  have computes {α β : Type} {value : Except Exn α} {next : α → Method (Node × Message) Exn β}
      (state : Node × Message)
      (goesOn : ∀ result, value = .ok result →
        network.Behaves state.1 (next result state).2.1) :
      network.Behaves state.1
        (((liftM value : Method (Node × Message) Exn α) >>= next) state).2.1 :=
    Method.compute_relates (fun one two : Node × Message => network.Behaves one.1 two.1)
      (Behaves.refl state.1) goesOn
  have resolves : network.Behaves node ((network.core name).resolveUser id user node).2 := by
    simp only [QChatCore.resolveUser, Method.get_bind]
    split
    · exact .refl node
    · refine Method.bind_relates _ Behaves.trans (requestUserInfo_behaves node user)
        fun _ after _ => ?_
      simp only [Method.modify_bind, Method.get_bind, id_eq]
      split <;> exact .refl after
  rw [QChatCore.sendMessage, Method.bind_apply]
  simp only [Method.onFirst]
  cases ((network.core name).resolveUser id user node).1 with
  | error exception => exact resolves
  | ok result =>
    refine Behaves.trans node _ _ resolves ?_
    generalize ((network.core name).resolveUser id user node).2 = resolved
    rw [Method.get_bind]
    refine computes (resolved, message) fun connection_info _ => ?_
    refine computes (resolved, message) fun host _ => computes (resolved, message) fun port _ => ?_
    rw [Method.bind_apply, QChatCore.signObject_apply]
    cases signing : (network.core name)._sign_message message with
    | error exception => exact Behaves.refl resolved
    | ok signed =>
      dsimp only
      rw [Method.get_bind, network.shared name]
      refine computes (resolved, signed) fun frame encoded => ?_
      have json := signed_isJson outgoing.valid data signing
      have signature : network.Signed signed := ⟨name, message, outgoing, signing⟩
      obtain ⟨_, rfl⟩ := of_sign_message data signing
      have verified : message.cls.verify = true := outgoing.verified
      refine Behaves.of_sent rfl (.inr ⟨_, rfl, fun _ => ⟨_, ⟨?_, ?_⟩, fun _ => signature, json,
        encoded⟩⟩)
      · intro cls
        rw [show message.cls = .RGSTMessage from cls] at verified
        cases verified
      · intro cls
        rw [show message.cls = .PUTUMessage from cls] at verified
        cases verified

/-- Whatever a node does on its own, it stays honest. -/
theorem step_behaves {event : Event} {after : Node} (own : ∀ message, event ≠ .inbound message)
    (waits : QChatCore.Waits node) (stepped : (network.core name).Step node event after) :
    network.Behaves node after := by
  cases stepped with
  | inbound message => exact absurd rfl (own message)
  | resume position message waiting known =>
    have verified := waits message (List.mem_of_getElem? waiting)
    have honest : network.Honest message := by
      constructor <;>
      · intro cls
        rw [cls] at verified
        cases verified
    exact Behaves.trans node { node with resolving := node.resolving.eraseIdx position } _
      (.of_same rfl rfl) (process_known_behaves _ honest)
  | expire position waiting => exact .of_same rfl rfl
  | request user => exact requestUserInfo_behaves node user
  | lead user protocol key_size =>
    rcases QChatCore.lead_effect node user protocol key_size with same | ⟨_, started⟩
    · rw [same]
      exact .refl node
    · rw [started]
      exact .of_same rfl rfl
  | take user message rest running queued => exact .of_same rfl rfl
  | keyed position session key running keys =>
    simp only [QChatCore.conclude, keys, ↓reduceIte, Method.modify_apply]
    exact .of_userDB rfl fun genuine => genuine.changeUserInfo _ _
  | received position session plaintext running follows carries =>
    simp only [QChatCore.conclude, carries, Bool.false_eq_true, ↓reduceIte, Method.compute_bind]
    cases Message.ofDict .SPDSMessage session.user [("plaintext", .bytes plaintext)] with
    | error exception => exact .of_same rfl rfl
    | ok message => exact .of_same rfl rfl
  | closed position running => exact .of_same rfl rfl
  | popMessages => exact .of_same rfl rfl

/-- Registering leaves the waiting messages alone. -/
theorem register_resolving :
    ((network.core name)._register_with_root_server node).2.resolving = node.resolving := by
  have sends (host port : Value) :
      ((network.core name).sendRegistration host port node).2.resolving = node.resolving := by
    simp only [QChatCore.sendRegistration, Method.compute_bind, Method.get_bind]
    repeat' split
    all_goals rfl
  simp only [QChatCore._register_with_root_server, Method.guarded, Method.compute_bind]
  repeat' split
  all_goals first
    | rfl
    | exact sends _ _

/-- So does a request for a pair. -/
theorem requestEPR_resolving (user : String) :
    ((network.core name).requestEPR user node).2.resolving = node.resolving := by
  simp only [QChatCore.requestEPR, Method.compute_bind]
  repeat' split
  all_goals rfl

end Steps

variable (network)

/-- All databases are genuine, only messages that must be verified wait for the registry, and
every frame on its way is honest. The three carry each other: answers are made from databases,
travel as frames, and are written to databases again. -/
structure Sound (state : Traffic Name) : Prop where
  genuine : ∀ name, network.Genuine (state.node name).userDB
  waits : ∀ name, QChatCore.Waits (state.node name)
  honest : ∀ frame ∈ state.travelling, network.HonestFrame frame.frame

/-- At the start every database holds its own node only, and nothing is on its way. -/
theorem start_sound : network.Sound network.start where
  genuine := boot_genuine
  waits := fun _ _ member => by cases member
  honest := fun _ member => by cases member

variable {network} [DecidableEq Name]

/-- A node that behaves keeps the network sound. -/
theorem Sound.advance {state : Traffic Name} (sound : network.Sound state) (name : Name)
    {after : Node} (behaves : network.Behaves (state.node name) after)
    (waits : QChatCore.Waits after) : network.Sound (state.advance name after) := by
  obtain ⟨genuine, new, sent, honest⟩ := behaves (sound.genuine name)
  refine ⟨fun other => ?_, fun other => ?_, fun frame member => ?_⟩
  · by_cases same : other = name
    · subst same
      simpa [Traffic.advance] using genuine
    · simpa [Traffic.advance, same] using sound.genuine other
  · by_cases same : other = name
    · subst same
      simpa [Traffic.advance] using waits
    · simpa [Traffic.advance, same] using sound.waits other
  · rcases List.mem_append.mp member with earlier | later
    · exact sound.honest frame earlier
    · rw [sent, List.drop_left] at later
      exact honest frame later

omit [DecidableEq Name] in
/-- A frame leaves the network. -/
theorem Sound.drop {state : Traffic Name} (sound : network.Sound state) {frame : Frame}
    {before later : List Frame} (flying : state.travelling = before ++ frame :: later) :
    network.Sound { state with travelling := before ++ later } := by
  refine ⟨sound.genuine, sound.waits, fun other member => sound.honest other ?_⟩
  rw [flying]
  rcases List.mem_append.mp member with front | back
  · exact List.mem_append_left _ front
  · exact List.mem_append_right _ (List.mem_cons_of_mem _ back)

omit [DecidableEq Name] in
/-- What is received from an honest frame is honest. -/
theorem HonestFrame.received {frame : Bytes} (honest : network.HonestFrame frame)
    {limits : List Nat} {message_queue : List Message} {message : Message}
    (appended : Reception.Appended network.json frame limits message_queue message) :
    network.Honest message := by
  obtain ⟨made, ⟨registers, answers⟩, -, valid, encoded⟩ := honest
  obtain ⟨cls, data, -⟩ := Message.parsed network.faithful encoded valid appended
  constructor
  · rw [cls, data]
    exact registers
  · rw [cls, data]
    exact answers

/-- Every step of the network keeps it sound: one case for each of them. A delivery needs that
the frame was honest, all others that the databases were genuine. -/
theorem Sound.step {state next : Traffic Name} (sound : network.Sound state)
    (stepped : network.Step state next) : network.Sound next := by
  cases stepped with
  | event name event after own stepped =>
    exact sound.advance name (step_behaves _ own (sound.waits name) stepped)
      ((network.core name).step_waits _ stepped (sound.waits name))
  | register name =>
    refine sound.advance name (register_behaves _) ?_
    rw [QChatCore.Waits, register_resolving]
    exact sound.waits name
  | send name user message outgoing =>
    refine sound.advance name (sendMessage_behaves _ user outgoing) ?_
    rw [QChatCore.Waits, (QChatCore.sendMessage_sameMessages user _ message).resolving]
    exact sound.waits name
  | requestEPR name user =>
    refine sound.advance name (requestEPR_behaves _ user) ?_
    rw [QChatCore.Waits, requestEPR_resolving]
    exact sound.waits name
  | deliver name frame before later limits message flying host port received =>
    have honest := (sound.honest frame (by simp [flying])).received received
    exact (sound.drop flying).advance name (process_message_behaves _ honest)
      ((network.core name).step_waits _ (.inbound message) (sound.waits name))
  | lose frame before later flying => exact sound.drop flying

/-- Every reachable state is sound. -/
theorem Reachable.sound {state : Traffic Name} (reached : network.Reachable state) :
    network.Sound state := by
  induction reached with
  | refl => exact network.start_sound
  | tail _ stepped inductionHypothesis => exact inductionHypothesis.step stepped

/-- The one frame on its way is delivered, and handled as the message it was made from. -/
theorem Reachable.delivered {state : Traffic Name} (reached : network.Reachable state) (name : Name)
    (message : Message) (valid : message.data.IsJson) (carried : Message.Carried message.sender)
    (flying : ∃ frame, message.encode_message network.json = .ok frame ∧
      state.travelling = [⟨(network.core name).host, (network.core name).port, frame⟩]) :
    network.Reachable (({ state with travelling := [] } : Traffic Name).advance name
      ((network.core name).process_message message (state.node name)).2) := by
  obtain ⟨frame, encoded, alone⟩ := flying
  exact reached.tail (.deliver state name _ [] [] [] message alone rfl rfl
    ((Reception.appended_iff message).mpr
      ⟨Message.wellFormed_encode network.faithful valid carried encoded, Reception.whole_unlimited⟩))

/-- A node sends one frame, which is delivered before anything else happens. -/
theorem Reachable.handed {state : Traffic Name} (reached : network.Reachable state)
    (quiet : state.travelling = []) (one two : Name) (apart : two ≠ one) {after : Node}
    (acts : network.Step state (state.advance one after)) (message : Message)
    (valid : message.data.IsJson) (carried : Message.Carried message.sender)
    (sends : ∃ frame, message.encode_message network.json = .ok frame ∧ after.sent =
      (state.node one).sent ++ [⟨(network.core two).host, (network.core two).port, frame⟩]) :
    network.Reachable ((⟨Function.update state.node one after, []⟩ : Traffic Name).advance two
      ((network.core two).process_message message (state.node two)).2) := by
  obtain ⟨frame, encoded, sent⟩ := sends
  have acted : network.Reachable (state.advance one after) := reached.tail acts
  have handled := acted.delivered two message valid carried ⟨frame, encoded, by
    rw [Traffic.advance, quiet, sent, List.drop_left]
    rfl⟩
  simp only [Traffic.advance, Function.update_of_ne apart] at handled ⊢
  exact handled

variable (network)

/-- In every reachable state of a network of honest nodes, what any node has stored for a user
is the connection and the public key of the node with that name.

Proof: the invariant is `Sound`, which speaks of the frames on their way as well. An entry is
written by a registration or an answer, and these are honest because they were made from
databases that were genuine before. -/
theorem databases_genuine (state : Traffic Name) (reached : network.Reachable state)
    (holder : Name) (user : UserKey) (known : (state.node holder).userDB.hasUser user = true) :
    ∃ name, user = .str (network.core name).name ∧
      (state.node holder).userDB.getConnectionInfo user = .ok (network.connection name) ∧
      ((state.node holder).userDB.getPublicKey user = .ok (.bytes (network.core name).pub) ∨
        (state.node holder).userDB.getPublicKey user = .ok (pubText (network.core name).pub)) := by
  obtain ⟨info, entry⟩ := Option.isSome_iff_exists.mp known
  obtain ⟨name, named, connected, keyed⟩ := reached.sound.genuine holder user info entry
  exact ⟨name, named, UserDB.getField_entry entry connected,
    keyed.imp (UserDB.getField_entry entry) (UserDB.getField_entry entry)⟩

end Network

/-- A client alone in its network. -/
def soloNetwork : Network Unit where
  core := fun _ => { sampleClient with json := json, verify := fun _ _ _ => .ok true }
  distinct := fun _ _ _ => rfl
  json := json
  faithful := json_faithful
  shared := fun _ => rfl
  host := fun _ => .str _
  port := fun _ => .num _

/-- The client knows itself from the start. -/
theorem solo_known : (soloNetwork.start.node ()).userDB.hasUser (.str "alice") = true := by
  decide +kernel

/-- Two users and the registry: the smallest network in which a user learns of another one. -/
inductive Town where
  | alice
  | bob
  | root
deriving DecidableEq

/-- Their names, under which they register. -/
def Town.name : Town → String
  | .alice => "alice"
  | .bob => "bob"
  | .root => "root"

/-- The ports at which they are reached. -/
def Town.port : Town → Int
  | .alice => 8000
  | .bob => 8001
  | .root => 8888

/-- Their public keys. -/
def Town.pub : Town → Bytes
  | .alice => [1]
  | .bob => [2]
  | .root => [3]

/-- Their nodes, with signatures that verify. -/
def townNetwork : Network Town where
  core := fun town => { sampleClient with
    role := if town = .root then .QChatServer else .QChatClient
    name := town.name
    port := .num town.port
    pub := town.pub
    json := json
    verify := fun _ _ _ => .ok true }
  distinct := by
    intro one two same
    cases one <;> cases two <;> first
      | rfl
      | exact absurd same (by decide)
  json := json
  faithful := json_faithful
  shared := fun _ => rfl
  host := fun _ => .str _
  port := fun _ => .num _

/-- Every name fits into the header of a frame. -/
theorem town_carried (town : Town) : Message.Carried (townNetwork.core town).name := by
  cases town <;> exact ⟨by decide, by decide, by decide⟩

/-- A message of one of them. -/
def Town.message (town : Town) (cls : MessageClass) (entries : List (String × Value)) : Message :=
  ⟨cls, town.name, .obj entries, by cases town <;> decide⟩

/-- Both users register, and bob asks the registry who alice is. -/
theorem town_introduced : ∃ state, townNetwork.Reachable state ∧ state.travelling = [] ∧
    (state.node .alice).userDB.hasUser (.str "bob") = false ∧
    (state.node .alice).resolving = [] ∧
    (state.node .bob).userDB.getConnectionInfo (.str "alice") = .ok (townNetwork.connection .alice) ∧
    (state.node .bob).userDB.hasUser (.str "alice") = true ∧
    (state.node .root).userDB.getPublicKey (.str "bob") = .ok (.bytes [2]) := by
  have start : townNetwork.Reachable townNetwork.start := .refl
  have bobRegistered := start.handed rfl .bob .root (by decide) (Network.Step.register _ Town.bob)
    (Town.bob.message .RGSTMessage (townNetwork.registration .bob))
    (townNetwork.registration_isJson .bob) (town_carried .bob) ⟨_, rfl, rfl⟩
  have aliceRegistered := bobRegistered.handed rfl .alice .root (by decide)
    (Network.Step.register _ Town.alice)
    (Town.alice.message .RGSTMessage (townNetwork.registration .alice))
    (townNetwork.registration_isJson .alice) (town_carried .alice) ⟨_, rfl, rfl⟩
  have asked := aliceRegistered.handed rfl .bob .root (by decide)
    (Network.Step.event _ Town.bob (.request "alice") _ nofun (.request "alice"))
    (Town.bob.message .GETUMessage ((townNetwork.core .bob).withSig []
      (("user", .str "alice") :: (townNetwork.core .bob).get_connection_info)))
    ((townNetwork.core .bob).isJson_withSig (townNetwork.question_isJson .bob "alice") [])
    (town_carried .bob) ⟨_, rfl, rfl⟩
  have told := asked.delivered .bob
    (Town.root.message .PUTUMessage
      ((townNetwork.core .root).withSig [] (townNetwork.publicInfo .alice)))
    ((townNetwork.core .root).isJson_withSig (Network.publicInfo_isJson Town.alice) [])
    (town_carried .root) ⟨_, rfl, rfl⟩
  exact ⟨_, told, rfl, rfl, rfl, rfl, rfl, rfl⟩

/-- bob has learnt from the registry who alice is, her key as a text. -/
theorem databases_genuine_town : ∃ state, townNetwork.Reachable state ∧
    (townNetwork.start.node .bob).userDB.hasUser (.str "alice") = false ∧
    (state.node .bob).userDB.hasUser (.str "alice") = true ∧
    ∃ name, UserKey.str "alice" = .str (townNetwork.core name).name ∧
      (state.node .bob).userDB.getConnectionInfo (.str "alice") = .ok (townNetwork.connection name) ∧
      ((state.node .bob).userDB.getPublicKey (.str "alice") = .ok (.bytes (townNetwork.core name).pub) ∨
        (state.node .bob).userDB.getPublicKey (.str "alice") =
          .ok (pubText (townNetwork.core name).pub)) := by
  obtain ⟨state, reached, -, -, -, -, known, -⟩ := town_introduced
  exact ⟨state, reached, by decide +kernel, known,
    townNetwork.databases_genuine state reached .bob (.str "alice") known⟩

end QChat
