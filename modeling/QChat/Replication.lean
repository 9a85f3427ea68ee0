import QChat.Json
import QChat.Registry

/-!
# Replicating the registry

What a client knows of a user after the registry has answered it: the export of the
registry's entry, its way through JSON, and the import at the client. The registry
stores public keys as byte strings and exports them as texts; the import stores the
text.
-/

namespace QChat

namespace UserKey

/-- A key is the key of the value it stands for. -/
theorem ofValue_toValue {value : Value} {key : UserKey} (named : ofValue value = .ok key) :
    ofValue key.toValue = .ok key := by
  cases value with
  | float number =>
    simp only [ofValue] at named
    cases named
    split
    · rfl
    · next fraction => simp only [toValue, ofValue, fraction, ↓reduceIte]
  | arr items => cases named
  | obj entries => cases named
  | _ => cases named; rfl

theorem isJson_toValue {value : Value} {key : UserKey} (named : ofValue value = .ok key)
    (valid : value.IsJson) : key.toValue.IsJson := by
  cases valid with
  | null => cases named; exact .null
  | bool value => cases named; exact .num _
  | num value => cases named; exact .num _
  | float number =>
    simp only [ofValue] at named
    cases named
    split
    · exact .num _
    · exact .float _
  | constant value => cases named; exact .constant _
  | str text => cases named; exact .str _
  | arr items each => cases named
  | obj entries distinct each => cases named

/-- Only the text itself is the key of the text `*`. -/
theorem isText_toValue (key : UserKey) : key.toValue.isText "*" = decide (key = .str "*") := by
  cases key <;> simp [toValue, Value.isText]

end UserKey

/-- A registration: the arguments of `registerUser`, in any form in which a message can bring
them. -/
structure Registration where
  user : Value
  connection : Value
  pub : Value

/-- The arguments come from a message, so they are JSON values: no byte string is among them. -/
structure Registration.IsJson (registration : Registration) : Prop where
  user : registration.user.IsJson
  connection : registration.connection.IsJson

/-- Every entry has a connection that JSON can write and a public key in bytes. -/
def Exportable (db : UserDB) : Prop :=
  ∀ key info, db._get_user key = some info →
    UserKey.ofValue key.toValue = .ok key ∧ key.toValue.IsJson ∧
    ∃ connection pub, info.get? "connection" = some connection ∧ connection.IsJson ∧
      info.get? "pub" = some (.bytes pub)

namespace QChatCore

variable (self : QChatCore)

/-- The server after a sequence of registrations. -/
def registered (registrations : List Registration) : Node :=
  registrations.foldl (fun node registration =>
    (registerUser registration.user registration.connection registration.pub node).2) self.boot

/-- A registration adds a new user with its connection and its key in bytes, or
changes nothing. -/
theorem registerUser_effect (node : Node) (user connection pub : Value) :
    (registerUser user connection pub node).2 = node ∨ ∃ key content,
      UserKey.ofValue user = .ok key ∧ node.userDB.hasUser key = false ∧
      (registerUser user connection pub node).2.userDB = node.userDB.addUser key
        (Dict.ofList [("pub", .bytes content), ("connection", connection)]) := by
  simp only [registerUser, Method.compute_bind, Method.get_bind]
  cases named : UserKey.ofValue user with
  | error exception => exact Or.inl rfl
  | ok key =>
    dsimp only
    by_cases known : node.userDB.hasUser key = true
    · rw [if_pos known]
      exact Or.inl rfl
    · rw [if_neg known, Method.compute_bind]
      cases pub.encode with
      | error exception => exact Or.inl rfl
      | ok content =>
        cases bulk : user.isText "*" with
        | true =>
          have missing : (Dict.ofList [("pub", Value.bytes content),
              ("connection", connection)]).get? "info" = none := by
            simp [Dict.ofList, Dict.get?_set]
          simp only [addUserInfo, bulk, ↓reduceIte, missing]
          exact Or.inl rfl
        | false =>
          simp only [addUserInfo_single node user _ bulk, named]
          exact Or.inr ⟨key, content, rfl, Bool.eq_false_iff.mpr known, rfl⟩

/-- A new user with a JSON connection and a key in bytes leaves the rest exportable. -/
theorem exportable_addUser {db : UserDB} (exportable : Exportable db) {value : Value}
    {key : UserKey} (named : UserKey.ofValue value = .ok key) (valid : value.IsJson)
    {info : UserInfo} {connection : Value} {content : Bytes} (json : connection.IsJson)
    (connected : info.get? "connection" = some connection)
    (keyed : info.get? "pub" = some (.bytes content)) : Exportable (db.addUser key info) := by
  intro other merged entry
  rw [UserDB.get_user_addUser] at entry
  split at entry
  · next same =>
    subst same
    cases entry
    refine ⟨UserKey.ofValue_toValue named, UserKey.isJson_toValue named valid, connection, content,
      ?_, json, ?_⟩
    · rw [Dict.get?_update, connected, Option.some_or]
    · rw [Dict.get?_update, keyed, Option.some_or]
  · exact exportable other merged entry

/-- Whatever is registered, the server can export every user it knows. -/
theorem registered_exportable (host : self.host.IsJson) (port : self.port.IsJson)
    (registrations : List Registration) (valid : ∀ registration ∈ registrations, registration.IsJson) :
    Exportable (self.registered registrations).userDB := by
  have connection : (Value.obj [("host", self.host), ("port", self.port)]).IsJson := by
    refine .obj _ (by simp) fun entry member => ?_
    rcases List.mem_pair.mp member with rfl | rfl
    · exact host
    · exact port
  induction registrations using List.reverseRecOn with
  | nil =>
    have nobody : Exportable UserDB.init := fun _ _ entry => by cases entry
    let info := Dict.ofList (("pub", .bytes self.pub) :: self.get_connection_info)
    have connected : info.get? "connection" = some (.obj [("host", self.host), ("port", self.port)]) := by
      simp [info, Dict.ofList, get_connection_info]
    have keyed : info.get? "pub" = some (.bytes self.pub) := by
      simp [info, Dict.ofList, get_connection_info, Dict.get?_set]
    exact exportable_addUser nobody (rfl : UserKey.ofValue (.str self.name) = _) (.str _) connection
      connected keyed
  | append_singleton earlier registration inductionHypothesis =>
    have before := inductionHypothesis fun other member => valid other (List.mem_append_left _ member)
    have last := valid registration (List.mem_append_right _ (List.mem_singleton_self _))
    rw [registered, List.foldl_append]
    change Exportable (registerUser registration.user registration.connection registration.pub
      (self.registered earlier)).2.userDB
    rcases registerUser_effect (self.registered earlier) registration.user registration.connection
      registration.pub with same | ⟨key, content, named, _, became⟩
    · rw [same]
      exact before
    · let info := Dict.ofList [("pub", .bytes content), ("connection", registration.connection)]
      have connected : info.get? "connection" = some registration.connection := by
        simp [info, Dict.ofList]
      have keyed : info.get? "pub" = some (.bytes content) := by
        simp [info, Dict.ofList, Dict.get?_set]
      rw [became]
      exact exportable_addUser before named last.user last.connection connected keyed

end QChatCore

section Import

/-- What the export lists for a user. -/
theorem publicInfo_exportable {db : UserDB} (exportable : Exportable db) {key : UserKey}
    (known : db.hasUser key = true) : ∃ connection pub,
      connection.IsJson ∧ db.stored key "connection" = some connection ∧
      db.stored key "pub" = some (.bytes pub) ∧
      db.publicInfo key = .ok [("connection", connection), ("pub", pubText pub),
        ("user", key.toValue)] := by
  obtain ⟨info, entry⟩ := Option.isSome_iff_exists.mp known
  obtain ⟨_, _, connection, pub, connected, json, keyed⟩ := exportable key info entry
  have connectionStored : db.stored key "connection" = some connection := by
    rw [UserDB.stored, entry, Option.bind_some, connected]
  have pubStored : db.stored key "pub" = some (.bytes pub) := by
    rw [UserDB.stored, entry, Option.bind_some, keyed]
  refine ⟨connection, pub, json, connectionStored, pubStored, ?_⟩
  simp only [UserDB.publicInfo, UserDB.getConnectionInfo, UserDB.getPublicKey,
    UserDB.getField_stored connectionStored, UserDB.getField_stored pubStored, ok_bind,
    UserDB.decodePub, pure_ok]
  rfl

end Import

namespace QChatCore

/-- The data of an export, sent as the data of a message and imported. -/
def importInfo (json : JsonCodec) (public_info : List (String × Value)) : Method Node Exn Unit := do
  let text ← json.dumps (.obj public_info)
  let data ← json.loads text
  let (user, kwargs) ← userArguments data
  addUserInfo user kwargs

/-- The registry answers a request for one user or, by `*`, for all, and the client
imports the answer. -/
def replicate (json : JsonCodec) (server : UserDB) (request : UserKey) : Method Node Exn Unit := do
  let public_info ← server.getPublicUserInfo request
  importInfo json public_info

variable (connection : Value) (pub : Bytes)

/-- The fields an answer brings for a user. -/
def importedInfo : UserInfo := Dict.ofList [("connection", connection), ("pub", pubText pub)]

@[simp] theorem importedInfo_connection :
    (importedInfo connection pub).get? "connection" = some connection := by
  simp [importedInfo, Dict.ofList, Dict.get?_set]

@[simp] theorem importedInfo_pub : (importedInfo connection pub).get? "pub" = some (pubText pub) := by
  simp [importedInfo, Dict.ofList]

/-- The entry of an answer for a user. -/
def publicEntries (key : UserKey) : List (String × Value) :=
  [("connection", connection), ("pub", pubText pub), ("user", key.toValue)]

theorem publicEntries_isJson {key : UserKey} (json : connection.IsJson) (named : key.toValue.IsJson) :
    (Value.obj (publicEntries connection pub key)).IsJson := by
  refine .obj _ (by simp [publicEntries]) fun entry member => ?_
  simp only [publicEntries, List.mem_cons, List.not_mem_nil, or_false] at member
  rcases member with rfl | rfl | rfl
  · exact json
  · exact .str _
  · exact named

theorem remove_user (key : UserKey) :
    Dict.remove "user" (publicEntries connection pub key) =
      [("connection", connection), ("pub", pubText pub)] := by
  simp [publicEntries, Dict.remove]

theorem lookup_user (key : UserKey) :
    Dict.lookup "user" (publicEntries connection pub key) = some key.toValue := by
  simp [publicEntries, Dict.lookup]

/-- An entry of a bulk answer is imported for a new user. -/
theorem addBulkInfo_imports (node : Node) {key : UserKey}
    (canonical : UserKey.ofValue key.toValue = .ok key) :
    addBulkInfo (.obj (publicEntries connection pub key)) node =
      if node.userDB.hasUser key = true then (.ok (), node)
      else (.ok (), { node with userDB := node.userDB.addUser key (importedInfo connection pub) }) := by
  have popped := Value.pop_obj (lookup_user connection pub key)
  simp only [addBulkInfo, Method.compute_bind, Method.get_bind, popped, canonical, remove_user]
  split
  · rfl
  · simp [Dict.lookup, importedInfo]

/-- A bulk answer is imported for the new users it lists. -/
theorem addAllInfo_imports (connection : UserKey → Value) (pub : UserKey → Bytes)
    (keys : List UserKey) (canonical : ∀ key ∈ keys, UserKey.ofValue key.toValue = .ok key)
    (node : Node) : ∃ after,
      addAllInfo (keys.map fun key => .obj (publicEntries (connection key) (pub key) key)) node =
        (.ok (), { node with userDB := after }) ∧
      ∀ other, after._get_user other =
        if other ∈ keys ∧ node.userDB.hasUser other = false then
          some (Dict.empty.update (importedInfo (connection other) (pub other)))
        else node.userDB._get_user other := by
  induction keys generalizing node with
  | nil => exact ⟨node.userDB, rfl, fun other => by simp⟩
  | cons key keys inductionHypothesis =>
    have first := addBulkInfo_imports (connection key) (pub key) node (canonical key List.mem_cons_self)
    have rest := fun node => inductionHypothesis
      (fun other member => canonical other (List.mem_cons_of_mem _ member)) node
    by_cases known : node.userDB.hasUser key = true
    · rw [if_pos known] at first
      obtain ⟨after, imports, entries⟩ := rest node
      refine ⟨after, ?_, fun other => ?_⟩
      · rw [List.map_cons, addAllInfo, Method.bind_of_ok first]
        exact imports
      · rw [entries]
        by_cases same : other = key
        · subst same
          simp [known]
        · simp [same]
    · rw [if_neg known] at first
      obtain ⟨after, imports, entries⟩ := rest
        { node with userDB := node.userDB.addUser key (importedInfo (connection key) (pub key)) }
      refine ⟨after, ?_, fun other => ?_⟩
      · rw [List.map_cons, addAllInfo, Method.bind_of_ok first]
        exact imports
      · rw [entries]
        by_cases same : other = key
        · subst same
          have absent : node.userDB._get_user other = none := by simpa [UserDB.hasUser] using known
          simp [UserDB.hasUser, UserDB.get_user_addUser, absent]
        · simp [UserDB.hasUser, UserDB.get_user_addUser, same]

/-- The users an answer to a request is about. -/
def exported (server : UserDB) (request : UserKey) : List UserKey :=
  if request = .str "*" then server.db.keys else [request]

/-- The import succeeds, copies the server's connection and public key to every new
user and leaves every other entry alone; and the client can answer a request for
these users as the server does. -/
structure Replicates (server : UserDB) (client : Node) (request : UserKey)
    (outcome : Except Exn Unit × Node) : Prop where
  succeeds : outcome.1 = .ok ()
  connection : ∀ key ∈ exported server request, client.userDB.hasUser key = false →
    outcome.2.userDB.stored key "connection" = server.stored key "connection"
  pub : ∀ key ∈ exported server request, client.userDB.hasUser key = false →
    outcome.2.userDB.stored key "pub" = server.stored key "pub"
  others : ∀ key, key ∉ exported server request ∨ client.userDB.hasUser key = true →
    outcome.2.userDB._get_user key = client.userDB._get_user key
  again : ∀ key ∈ exported server request, client.userDB.hasUser key = false →
    ∃ public_info, server.publicInfo key = .ok public_info ∧
      outcome.2.userDB.publicInfo key = .ok public_info

/-- The user's public key as an answer brings it. -/
def exportedPub (server : UserDB) (key : UserKey) : Option Value :=
  (server.stored key "pub").bind fun
    | .bytes pub => some (pubText pub)
    | _ => none

theorem mem_keys (server : UserDB) (key : UserKey) :
    key ∈ server.db.keys ↔ server.hasUser key = true := by
  rw [UserDB.hasUser, UserDB._get_user, Option.isSome_iff_ne_none, ne_eq, Dict.get?_eq_none, not_not]

variable {json : JsonCodec} (faithful : json.Faithful) {server : UserDB}
  (exportable : Exportable server) (client : Node)

include faithful in
/-- Data that JSON can write are imported as they are. -/
theorem importInfo_apply {public_info : List (String × Value)}
    (valid : (Value.obj public_info).IsJson) {user : Value} {kwargs : UserInfo}
    (given : userArguments (.obj public_info) = .ok (user, kwargs)) :
    importInfo json public_info client = addUserInfo user kwargs client := by
  obtain ⟨text, dumped, loaded⟩ := faithful.loads_dumps _ valid
  simp only [importInfo, Method.compute_bind, dumped, loaded, given]

include faithful exportable in
/-- An answer about one user is merged into the user's entry. -/
theorem replicate_single {key : UserKey} (single : key ≠ .str "*")
    (known : server.hasUser key = true) : ∃ connection pub,
      server.stored key "connection" = some connection ∧
      server.stored key "pub" = some (.bytes pub) ∧
      replicate json server key client = (.ok (), { client with
        userDB := client.userDB.addUser key (importedInfo connection pub) }) := by
  obtain ⟨connection, pub, valid, connected, keyed, listed⟩ := publicInfo_exportable exportable known
  obtain ⟨info, entry⟩ := Option.isSome_iff_exists.mp known
  obtain ⟨canonical, named, _⟩ := exportable key info entry
  have given : userArguments (.obj (publicEntries connection pub key)) =
      .ok (key.toValue, importedInfo connection pub) := by
    have receiver : Dict.lookup "self" (publicEntries connection pub key) = none := by
      simp [publicEntries, Dict.lookup]
    simp only [userArguments, lookup_user, receiver, remove_user]
    rfl
  have text : key.toValue.isText "*" = false := by
    rw [UserKey.isText_toValue]
    exact decide_eq_false single
  refine ⟨connection, pub, connected, keyed, ?_⟩
  have exports : server.getPublicUserInfo key = .ok (publicEntries connection pub key) := by
    rw [UserDB.getPublicUserInfo, if_neg single, listed]
    rfl
  simp only [replicate, Method.compute_bind, exports]
  rw [importInfo_apply faithful client (publicEntries_isJson connection pub valid named) given,
    addUserInfo_single client key.toValue _ text, canonical]

include faithful exportable in
/-- An answer about all users adds those who are new. -/
theorem replicate_all : ∃ (connection : UserKey → Value) (pub : UserKey → Bytes) (after : UserDB),
    (∀ key ∈ server.db.keys, server.stored key "connection" = some (connection key) ∧
      server.stored key "pub" = some (.bytes (pub key))) ∧
    replicate json server (.str "*") client = (.ok (), { client with userDB := after }) ∧
    ∀ key, after._get_user key =
      if key ∈ server.db.keys ∧ client.userDB.hasUser key = false then
        some (Dict.empty.update (importedInfo (connection key) (pub key)))
      else client.userDB._get_user key := by
  have : Nonempty Value := ⟨.null⟩
  have each : ∀ key, ∃ connection pub, key ∈ server.db.keys →
      (UserKey.ofValue key.toValue = .ok key ∧ key.toValue.IsJson) ∧ connection.IsJson ∧
      server.stored key "connection" = some connection ∧
      server.stored key "pub" = some (.bytes pub) ∧
      server.publicInfo key = .ok (publicEntries connection pub key) := by
    intro key
    by_cases member : key ∈ server.db.keys
    · have known := (mem_keys server key).mp member
      obtain ⟨connection, pub, valid, connected, keyed, listed⟩ :=
        publicInfo_exportable exportable known
      obtain ⟨info, entry⟩ := Option.isSome_iff_exists.mp known
      obtain ⟨canonical, named, _⟩ := exportable key info entry
      exact ⟨connection, pub, fun _ => ⟨⟨canonical, named⟩, valid, connected, keyed, listed⟩⟩
    · exact ⟨.null, [], fun listed => absurd listed member⟩
  choose connection pub facts using each
  obtain ⟨after, imports, entries⟩ := addAllInfo_imports connection pub server.db.keys
    (fun key member => (facts key member).1.1) client
  refine ⟨connection, pub, after,
    fun key member => ⟨(facts key member).2.2.1, (facts key member).2.2.2.1⟩, ?_, entries⟩
  let infos := server.db.keys.map fun key => publicEntries (connection key) (pub key) key
  have listing : server.db.keys.mapM server.publicInfo = .ok infos := by
    have steps (keys : List UserKey) (members : ∀ key ∈ keys, key ∈ server.db.keys) :
        keys.mapM server.publicInfo =
          .ok (keys.map fun key => publicEntries (connection key) (pub key) key) := by
      induction keys with
      | nil => rfl
      | cons key keys inductionHypothesis =>
        rw [List.mapM_cons, (facts key (members key List.mem_cons_self)).2.2.2.2,
          inductionHypothesis fun other member => members other (List.mem_cons_of_mem _ member)]
        rfl
    exact steps server.db.keys fun _ member => member
  have exports : server.getPublicUserInfo (.str "*") =
      .ok [("user", .str "*"), ("info", .arr (infos.map .obj))] := by
    rw [UserDB.getPublicUserInfo, if_pos rfl, listing]
    rfl
  have valid : (Value.obj [("user", .str "*"), ("info", .arr (infos.map .obj))]).IsJson := by
    refine .obj _ (by simp) fun entry member => ?_
    rcases List.mem_pair.mp member with rfl | rfl
    · exact .str _
    · refine .arr _ fun item listed => ?_
      obtain ⟨info, among, rfl⟩ := List.mem_map.mp listed
      obtain ⟨key, member, rfl⟩ := List.mem_map.mp among
      exact publicEntries_isJson _ _ (facts key member).2.1 (facts key member).1.2
  have given : userArguments (.obj [("user", .str "*"), ("info", .arr (infos.map .obj))]) =
      .ok (.str "*", Dict.ofList [("info", .arr (infos.map .obj))]) := by
    simp [userArguments, Dict.lookup, Dict.remove]
  have all : (Value.str "*").isText "*" = true := by simp [Value.isText]
  have info : (Dict.ofList [("info", Value.arr (infos.map .obj))]).get? "info" =
      some (.arr (infos.map .obj)) := by
    simp [Dict.ofList]
  simp only [replicate, Method.compute_bind, exports]
  rw [importInfo_apply faithful client valid given]
  simp only [addUserInfo, all, ↓reduceIte, info, Method.compute_bind, Value.iterate]
  rw [List.map_map]
  exact imports

include faithful exportable in
/-- A new user's public key arrives as a text. -/
theorem new_user_pub {request key : UserKey}
    (asked : request = .str "*" ∨ server.hasUser request = true)
    (listed : key ∈ exported server request) (unknown : client.userDB.hasUser key = false) :
    (replicate json server request client).2.userDB.stored key "pub" ≠ server.stored key "pub" := by
  by_cases bulk : request = .str "*"
  · subst bulk
    obtain ⟨connection, pub, after, server_stored, imports, entries⟩ :=
      replicate_all faithful exportable client
    rw [exported, if_pos rfl] at listed
    rw [imports, (server_stored key listed).2]
    simp [UserDB.stored, entries, listed, unknown, Dict.get?_update, pubText]
  · obtain rfl : key = request := by simpa [exported, bulk] using listed
    obtain ⟨connection, pub, _, keyed, imports⟩ :=
      replicate_single faithful exportable client bulk (asked.resolve_left bulk)
    rw [imports, keyed]
    simp [UserDB.stored_addUser, pubText]

include faithful exportable in
/-- A request is replicated exactly if it brings nothing new: no user who is not known
already and, for a single user, no other connection or public key than the client has. -/
theorem replicates_iff (request : UserKey)
    (asked : request = .str "*" ∨ server.hasUser request = true) :
    Replicates server client request (replicate json server request client) ↔
      (∀ key ∈ exported server request, client.userDB.hasUser key = true) ∧
      (request ≠ .str "*" →
        client.userDB.stored request "connection" = server.stored request "connection" ∧
        client.userDB.stored request "pub" = exportedPub server request) := by
  constructor
  · intro replicated
    have known : ∀ key ∈ exported server request, client.userDB.hasUser key = true := by
      intro key listed
      by_contra unknown
      rw [Bool.not_eq_true] at unknown
      exact new_user_pub faithful exportable client asked listed unknown
        (replicated.pub key listed unknown)
    refine ⟨known, fun single => ?_⟩
    have listed : request ∈ exported server request := by simp [exported, single]
    have same := replicated.others request (Or.inr (known request listed))
    obtain ⟨connection, pub, connected, keyed, imports⟩ :=
      replicate_single faithful exportable client single (asked.resolve_left single)
    rw [imports] at same
    have fields (field : String) := congrArg (fun entry => entry.bind (·.get? field)) same
    constructor
    · rw [connected]
      refine (fields "connection").symm.trans ?_
      simp [UserDB.get_user_addUser, Dict.get?_update]
    · refine (fields "pub").symm.trans ?_
      simp [UserDB.get_user_addUser, Dict.get?_update, exportedPub, keyed]
  · rintro ⟨known, kept⟩
    have nothing {key : UserKey} (listed : key ∈ exported server request)
        (unknown : client.userDB.hasUser key = false) : False := by
      rw [known key listed] at unknown
      cases unknown
    suffices unchanged : ∃ after, replicate json server request client =
        (.ok (), { client with userDB := after }) ∧
        ∀ key, after._get_user key = client.userDB._get_user key by
      obtain ⟨after, imports, entries⟩ := unchanged
      rw [imports]
      exact ⟨rfl, fun key listed unknown => (nothing listed unknown).elim,
        fun key listed unknown => (nothing listed unknown).elim, fun key _ => entries key,
        fun key listed unknown => (nothing listed unknown).elim⟩
    by_cases bulk : request = .str "*"
    · subst bulk
      obtain ⟨connection, pub, after, _, imports, entries⟩ :=
        replicate_all faithful exportable client
      refine ⟨after, imports, fun key => ?_⟩
      rw [entries, if_neg]
      rintro ⟨listed, unknown⟩
      exact nothing (by simpa [exported] using listed) unknown
    · obtain ⟨connection, pub, connected, keyed, imports⟩ :=
        replicate_single faithful exportable client bulk (asked.resolve_left bulk)
      obtain ⟨connectionKept, pubKept⟩ := kept bulk
      refine ⟨_, imports, fun key => ?_⟩
      rw [UserDB.get_user_addUser]
      split
      · next same =>
        subst same
        obtain ⟨info, entry⟩ := Option.isSome_iff_exists.mp (known key (by simp [exported, bulk]))
        change client.userDB._get_user key = some info at entry
        rw [entry, Option.getD_some, Dict.update_same]
        intro field value brought
        rw [connected] at connectionKept
        simp only [UserDB.stored, entry, Option.bind_some] at connectionKept pubKept
        simp only [importedInfo, Dict.ofList, List.foldl_cons, List.foldl_nil, Dict.get?_set,
          Dict.get?_empty] at brought
        split at brought
        · next isPub =>
          rw [isPub, pubKept, exportedPub, keyed, ← brought]
          rfl
        · split at brought
          · next isConnection => rw [isConnection, connectionKept, brought]
          · cases brought
      · rfl

/-- Whatever has been registered, a request is replicated exactly if it brings the client
nothing new. A client that has stored an entry of an answer has the key as a text, and cannot
answer a request for it. -/
theorem registry_replication (self : QChatCore) (host : self.host.IsJson) (port : self.port.IsJson)
    (registrations : List Registration) (valid : ∀ registration ∈ registrations, registration.IsJson)
    {json : JsonCodec} (faithful : json.Faithful) (client : Node) (request : UserKey)
    (asked : request = .str "*" ∨ (self.registered registrations).userDB.hasUser request = true) :
    Replicates (self.registered registrations).userDB client request
        (replicate json (self.registered registrations).userDB request client) ↔
      (∀ key ∈ exported (self.registered registrations).userDB request,
        client.userDB.hasUser key = true) ∧
      (request ≠ .str "*" →
        client.userDB.stored request "connection" =
          (self.registered registrations).userDB.stored request "connection" ∧
        client.userDB.stored request "pub" =
          exportedPub (self.registered registrations).userDB request) :=
  replicates_iff faithful (self.registered_exportable host port registrations valid) client request
    asked

end QChatCore

/-- A registry. -/
def sampleServer : QChatCore :=
  { sampleClient with role := .QChatServer, name := "registry" }

def bobRegistration : Registration where
  user := .str "bob"
  connection := .obj [("host", .str "localhost"), ("port", .num 8001)]
  pub := .str "key"

theorem bobRegistration_isJson : ∀ registration ∈ [bobRegistration], registration.IsJson := by
  intro registration member
  rw [List.mem_singleton.mp member]
  refine ⟨.str _, .obj _ (by simp) fun entry listed => ?_⟩
  rcases List.mem_pair.mp listed with rfl | rfl
  · exact .str _
  · exact .num _

theorem bob_registered :
    (sampleServer.registered [bobRegistration]).userDB.hasUser (.str "bob") = true := by
  decide +kernel

/-- A client that does not know the user: its entry for the user has another public
key than the registry's. -/
theorem registered_key_changed :
    sampleClient.boot.userDB.hasUser (.str "bob") = false ∧
      (QChatCore.replicate json (sampleServer.registered [bobRegistration]).userDB (.str "bob")
        sampleClient.boot).2.userDB.stored (.str "bob") "pub" ≠
        (sampleServer.registered [bobRegistration]).userDB.stored (.str "bob") "pub" := by
  have unknown : sampleClient.boot.userDB.hasUser (.str "bob") = false := by decide +kernel
  refine ⟨unknown, ?_⟩
  have single : UserKey.str "bob" ≠ .str "*" := by decide
  refine QChatCore.new_user_pub json_faithful ?_ sampleClient.boot (Or.inr bob_registered) ?_ unknown
  · exact sampleServer.registered_exportable (.str _) (.num _) [bobRegistration] bobRegistration_isJson
  · rw [QChatCore.exported, if_neg single]
    exact List.mem_singleton_self _

theorem registry_replication_bob :
    QChatCore.Replicates (sampleServer.registered [bobRegistration]).userDB sampleClient.boot
        (.str "bob") (QChatCore.replicate json (sampleServer.registered [bobRegistration]).userDB
          (.str "bob") sampleClient.boot) ↔
      (∀ key ∈ QChatCore.exported (sampleServer.registered [bobRegistration]).userDB (.str "bob"),
        sampleClient.boot.userDB.hasUser key = true) ∧
      (UserKey.str "bob" ≠ .str "*" →
        sampleClient.boot.userDB.stored (.str "bob") "connection" =
          (sampleServer.registered [bobRegistration]).userDB.stored (.str "bob") "connection" ∧
        sampleClient.boot.userDB.stored (.str "bob") "pub" =
          QChatCore.exportedPub (sampleServer.registered [bobRegistration]).userDB (.str "bob")) :=
  sampleServer.registry_replication (.str _) (.num _) [bobRegistration] bobRegistration_isJson
    json_faithful sampleClient.boot (.str "bob") (Or.inr bob_registered)

end QChat
