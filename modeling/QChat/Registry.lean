import QChat.Effects

/-!
# What inbound messages do to the user database

Three handlers write to the database. A registration and each entry of a bulk
answer add a user who is not there yet and leave everyone else alone. The import
of a single user merges what the message brings into the entry, whoever sent it:
PUTU messages are not verified. So the stored data of a user stay as they are in
every run in which no such import brings other values, and only then.
-/

namespace QChat

/-- The fields that authentication and encryption rest on. -/
def protectedFields : List String := ["pub", "connection", "message_key"]

/-- Once a public key is stored for the user, the protected fields stay. -/
def Keeps (user : UserKey) (before after : Node) : Prop :=
  before.userDB.stored user "pub" ≠ none →
    ∀ field ∈ protectedFields, after.userDB.stored user field = before.userDB.stored user field

/-- The message imports a single user's information: the user, and the fields it
brings. -/
def Imports (message : Message) (user : UserKey) (kwargs : UserInfo) : Prop :=
  message.cls = .PUTUMessage ∧ ∃ stripped signature name,
    _strip_signature message = .ok (stripped, signature) ∧
    userArguments stripped.data = .ok (name, kwargs) ∧
    name.isText "*" = false ∧ UserKey.ofValue name = .ok user

/-- The message imports, for a user whose public key is stored, a protected field
with another value than the stored one. -/
def Overwrites (node : Node) (message : Message) (user : UserKey) : Prop :=
  node.userDB.stored user "pub" ≠ none ∧ ∃ kwargs, Imports message user kwargs ∧
    ∃ field ∈ protectedFields, ∃ value, kwargs.get? field = some value ∧
      node.userDB.stored user field ≠ some value

/-- The event is the end of a key protocol with the user, and brings this key. -/
def Keyed (node : Node) (event : Event) (user : UserKey) (key : Bytes) : Prop :=
  ∃ position session, event = .keyed position key ∧ node.sessions[position]? = some session ∧
    session.protocol.isKeyProtocol = true ∧ UserKey.str session.user = user

variable {user : UserKey}

/-- What is stored for a user at the end of a run: what was stored before, or for
the message key the key of a key protocol with the user that ended in the run. -/
def Held (user : UserKey) (before : Node) (steps : List (Node × Event)) (after : Node) : Prop :=
  ∀ field ∈ protectedFields,
    after.userDB.stored user field = before.userDB.stored user field ∨
      field = "message_key" ∧ ∃ node event key, (node, event) ∈ steps ∧ Keyed node event user key ∧
        after.userDB.stored user field = some (.bytes key)

/-- A key that was stored at the start of such a run is stored at its end: no step takes it
away. -/
theorem Held.known {before after : Node} {steps : List (Node × Event)}
    (held : Held user before steps after) (known : before.userDB.stored user "pub" ≠ none) :
    after.userDB.stored user "pub" ≠ none := by
  rcases held "pub" (by simp [protectedFields]) with same | ⟨other, _⟩
  · rwa [same]
  · exact absurd other (by decide)

/-- A message imports for one user only. -/
theorem Imports.same_user {message : Message} {one two : UserKey} {kwargs others : UserInfo}
    (first : Imports message one kwargs) (second : Imports message two others) : one = two := by
  obtain ⟨_, stripped, signature, name, taken, given, _, named⟩ := first
  obtain ⟨_, stripped', signature', name', taken', given', _, named'⟩ := second
  cases taken.symm.trans taken'
  cases given.symm.trans given'
  exact Except.ok.inj (named.symm.trans named')

namespace Keeps

/-- Nothing is changed by doing nothing. -/
theorem refl (node : Node) : Keeps user node node := fun _ _ _ => rfl

/-- Two steps keep what both of them keep. -/
theorem trans (one two three : Node) (first : Keeps user one two) (second : Keeps user two three) :
    Keeps user one three := by
  intro known field listed
  have still : two.userDB.stored user "pub" ≠ none := by
    rwa [first known "pub" (by simp [protectedFields])]
  rw [second still field listed, first known field listed]

/-- A step that leaves the database alone keeps the user's fields. -/
theorem of_same {before after : Node} (same : after.userDB = before.userDB) :
    Keeps user before after := by
  intro _ _ _
  rw [same]

/-- A user who is not there yet can be added: nobody else's data change. -/
theorem addUser (node : Node) (key : UserKey) (kwargs : UserInfo)
    (unknown : node.userDB.hasUser key = false) :
    Keeps user node { node with userDB := node.userDB.addUser key kwargs } := by
  intro known field _
  have other : user ≠ key := by
    rintro rfl
    rw [UserDB.hasUser_of_stored known] at unknown
    cases unknown
  rw [UserDB.stored_addUser, if_neg other]

end Keeps

namespace QChatCore

variable (self : QChatCore) (node : Node)

/-- An entry of an answer about all users is passed over if its user is known already. -/
theorem addBulkInfo_keeps (info : Value) : Keeps user node (addBulkInfo info node).2 := by
  simp only [addBulkInfo, Method.compute_bind, Method.get_bind]
  cases info.pop "user" with
  | error exception => exact Keeps.refl node
  | ok popped =>
    obtain ⟨user_name, rest⟩ := popped
    dsimp only
    cases UserKey.ofValue user_name with
    | error exception => exact Keeps.refl node
    | ok key =>
      dsimp only
      by_cases known : node.userDB.hasUser key = true
      · rw [if_pos known]
        exact Keeps.refl node
      · rw [if_neg known]
        cases rest with
        | obj entries =>
          by_cases receiver : (Dict.lookup "self" entries).isSome = true
          · simp only [receiver, ↓reduceIte]
            exact Keeps.refl node
          · simp only [receiver]
            exact Keeps.addUser node key _ (Bool.eq_false_iff.mpr known)
        | _ => exact Keeps.refl node

/-- So are all entries of the answer for such users. -/
theorem addAllInfo_keeps (infos : List Value) : Keeps user node (addAllInfo infos node).2 := by
  induction infos generalizing node with
  | nil => exact Keeps.refl node
  | cons info rest inductionHypothesis =>
    exact Method.bind_relates _ Keeps.trans (addBulkInfo_keeps node info)
      fun _ after _ => inductionHypothesis after

/-- What `addUserInfo` does with the information of a single user. -/
theorem addUserInfo_single (name : Value) (kwargs : UserInfo) (single : name.isText "*" = false) :
    addUserInfo name kwargs node =
      match UserKey.ofValue name with
      | .ok key => (.ok (), { node with userDB := node.userDB.addUser key kwargs })
      | .error exception => (.error exception, node) := by
  simp only [addUserInfo, single, Bool.false_eq_true, ↓reduceIte, Method.compute_bind]
  cases UserKey.ofValue name <;> rfl

/-- An answer about all users keeps the fields of those who are known. -/
theorem addUserInfo_bulk_keeps (name : Value) (kwargs : UserInfo) (bulk : name.isText "*" = true) :
    Keeps user node (addUserInfo name kwargs node).2 := by
  simp only [addUserInfo, bulk, ↓reduceIte]
  cases kwargs.get? "info" with
  | none => exact Keeps.refl node
  | some info =>
    simp only [Method.compute_bind]
    cases info.iterate with
    | error exception => exact Keeps.refl node
    | ok infos => exact addAllInfo_keeps node infos

/-- A registration of a known user is refused, so it keeps what is stored. -/
theorem registerUser_keeps (name connection pub : Value) :
    Keeps user node (registerUser name connection pub node).2 := by
  simp only [registerUser, Method.compute_bind, Method.get_bind]
  cases named : UserKey.ofValue name with
  | error exception => exact Keeps.refl node
  | ok key =>
    dsimp only
    by_cases known : node.userDB.hasUser key = true
    · rw [if_pos known]
      exact Keeps.refl node
    · rw [if_neg known, Method.compute_bind]
      cases pub.encode with
      | error exception => exact Keeps.refl node
      | ok pub =>
        cases bulk : name.isText "*" with
        | true => exact addUserInfo_bulk_keeps node name _ bulk
        | false =>
          simp only [addUserInfo_single node name _ bulk, named]
          exact Keeps.addUser node key _ (Bool.eq_false_iff.mpr known)

/-- Every handler but the import of a single user keeps what is stored. -/
theorem handle_keeps (handler : Handler) (message : Message)
    (spared : handler = .addUserInfo → ∀ name kwargs,
      userArguments message.data = .ok (name, kwargs) → name.isText "*" = false →
      Keeps user node (addUserInfo name kwargs node).2) :
    Keeps user node (self.handle handler message node).2 := by
  cases handler with
  | registerUser =>
    simp only [handle, Method.compute_bind]
    cases arguments ["user", "connection", "pub"] message.data with
    | error exception => exact Keeps.refl node
    | ok values =>
      dsimp only
      split
      · exact registerUser_keeps node _ _ _
      · exact Keeps.refl node
  | sendUserInfo =>
    simp only [handle, Method.compute_bind]
    cases arguments ["user", "connection"] message.data with
    | error exception => exact Keeps.refl node
    | ok values =>
      dsimp only
      split
      · exact Keeps.of_same (self.sendUserInfo_untouched node _ _).userDB
      · exact Keeps.refl node
  | addUserInfo =>
    simp only [handle, Method.compute_bind]
    cases given : userArguments message.data with
    | error exception => exact Keeps.refl node
    | ok values =>
      obtain ⟨name, kwargs⟩ := values
      cases bulk : name.isText "*" with
      | true => exact addUserInfo_bulk_keeps node name kwargs bulk
      | false => exact spared rfl name kwargs given bulk
  | _distribute_qubits => exact Keeps.of_same (distribute_qubits_untouched node message).userDB
  | storeMessage => exact Keeps.of_same rfl
  | _follow_protocol =>
    change Keeps user node (_follow_protocol message node).2
    rcases follow_protocol_effect node message with same | ⟨_, _, _, started⟩
    · rw [same]
      exact Keeps.refl node
    · rw [started]
      exact Keeps.of_same rfl
  | _store_control_message => exact Keeps.of_same rfl

/-- A single user's import is what a PUTU message has left when its signature is
gone; the signature is not looked at. -/
theorem authenticate_putu (userDB : UserDB) (message : Message) (cls : message.cls = .PUTUMessage) :
    self.authenticate userDB message = (_strip_signature message).map Prod.fst := by
  simp only [authenticate, cls, MessageClass.verify, MessageClass.strip, Bool.false_eq_true, ↓reduceIte]
  cases _strip_signature message <;> rfl

/-- Only PUTU messages reach `addUserInfo`. -/
theorem handlerOf_addUserInfo {role : Role} {cls : MessageClass}
    (chosen : handlerOf role cls = .addUserInfo) : cls = .PUTUMessage := by
  cases role <;> cases cls <;> first | rfl | cases chosen

/-- Servers and clients take a PUTU message as an answer. -/
theorem handlerOf_putu (role : Role) : handlerOf role .PUTUMessage = .addUserInfo := by
  cases role <;> rfl

/-- A processed message keeps what is stored for a user unless it overwrites it. -/
theorem process_known_keeps (message : Message) (spared : ¬ Overwrites node message user) :
    Keeps user node (self.process_known message node).2 := by
  simp only [process_known, Method.get_bind, Method.compute_bind]
  cases passed : self.authenticate node.userDB message with
  | error exception => exact Keeps.refl node
  | ok admitted =>
    refine self.handle_keeps node _ admitted fun chosen name kwargs given single => ?_
    have cls : message.cls = .PUTUMessage :=
      (self.authenticate_cls passed).1.symm.trans (handlerOf_addUserInfo chosen)
    rw [self.authenticate_putu node.userDB message cls] at passed
    cases taken : _strip_signature message with
    | error exception => rw [taken] at passed; cases passed
    | ok values =>
      obtain ⟨stripped, signature⟩ := values
      rw [taken] at passed
      cases passed
      rw [addUserInfo_single node name kwargs single]
      cases named : UserKey.ofValue name with
      | error exception => exact Keeps.refl node
      | ok key =>
        intro known field listed
        dsimp only
        rw [UserDB.stored_addUser]
        split
        · next same =>
          subst same
          cases brought : kwargs.get? field with
          | none => rfl
          | some value =>
            by_contra changed
            exact spared ⟨known, kwargs,
              ⟨cls, stripped, signature, name, taken, given, single, named⟩,
              field, listed, value, brought, fun same => changed same.symm⟩
        · rfl

/-- An overwriting message is not spared: it changes what is stored. -/
theorem process_message_overwrites (message : Message) (overwrites : Overwrites node message user) :
    ¬ Keeps user node (self.process_message message node).2 := by
  obtain ⟨known, kwargs, ⟨cls, stripped, signature, name, taken, given, single, named⟩, field,
    listed, value, brought, differs⟩ := overwrites
  have unverified : message.cls.verify = false := by rw [cls]; rfl
  have target : handlerOf self.role stripped.cls = .addUserInfo := by
    rw [(strip_signature_cls taken).1, cls, handlerOf_putu]
  have processed : self.process_message message node =
      (.ok (), { node with userDB := node.userDB.addUser user kwargs }) := by
    simp only [process_message, Method.get_bind, unverified, Bool.false_eq_true, false_and,
      ↓reduceIte, process_known, Method.compute_bind, self.authenticate_putu node.userDB message cls,
      taken, Except.map, target, handle, given, addUserInfo_single node name kwargs single, named]
  intro kept
  have stored := kept known field listed
  rw [processed] at stored
  dsimp only at stored
  rw [UserDB.stored_addUser, if_pos rfl, brought, Option.some_or] at stored
  exact differs stored.symm

/-- A message that must be verified overwrites nothing. -/
theorem not_overwrites_of_verify {message : Message} (verified : message.cls.verify = true) :
    ¬ Overwrites node message user := by
  rintro ⟨_, _, ⟨cls, _⟩, _⟩
  rw [cls] at verified
  cases verified

/-- Whatever message arrives, a user's stored key stays what it is, unless the message is an
answer about this one user that names another key. -/
theorem process_message_keeps (message : Message) (spared : ¬ Overwrites node message user) :
    Keeps user node (self.process_message message node).2 := by
  obtain ⟨asked, untouched, only | ⟨_, parked⟩ | ⟨reason, went⟩⟩ :=
    self.process_message_effect node message
  · rw [only]
    exact Keeps.of_same untouched.userDB
  · rw [parked]
    exact Keeps.of_same untouched.userDB
  · rw [went]
    refine Keeps.trans node asked _ (Keeps.of_same untouched.userDB)
      (self.process_known_keeps asked message ?_)
    rcases reason with rfl | verified
    · exact spared
    · exact not_overwrites_of_verify asked verified

/-- A message of a known sender leaves the waiting messages alone. -/
theorem process_known_resolving (message : Message) :
    (self.process_known message node).2.resolving = node.resolving := by
  rcases self.process_known_effect node message with same | ⟨_, _, _, became⟩ | ⟨_, _, _, became⟩ |
    ⟨_, _, _, _, _, _, became⟩
  · exact same.resolving
  · rw [became]
    rfl
  · rw [became]
  · rw [became]

/-- Only an inbound message whose class must be verified is left waiting by a step. -/
theorem step_resolving {event : Event} {after : Node} (stepped : self.Step node event after)
    (message : Message) (waits : message ∈ after.resolving) :
    message ∈ node.resolving ∨ event = .inbound message ∧ message.cls.verify = true := by
  cases stepped with
  | inbound received =>
    obtain ⟨asked, untouched, only | ⟨verified, parked⟩ | ⟨_, went⟩⟩ :=
      self.process_message_effect node received
    · rw [only, untouched.resolving] at waits
      exact Or.inl waits
    · rw [parked] at waits
      rcases List.mem_append.mp waits with earlier | last
      · exact Or.inl (untouched.resolving ▸ earlier)
      · rw [List.mem_singleton.mp last]
        exact Or.inr ⟨rfl, verified⟩
    · rw [went, process_known_resolving, untouched.resolving] at waits
      exact Or.inl waits
  | resume position received waiting known =>
    rw [process_known_resolving] at waits
    exact Or.inl (List.mem_of_mem_eraseIdx waits)
  | expire position waiting => exact Or.inl (List.mem_of_mem_eraseIdx waits)
  | request user =>
    rw [(self.requestUserInfo_untouched node user).resolving] at waits
    exact Or.inl waits
  | lead user protocol key_size =>
    rcases lead_effect node user protocol key_size with same | ⟨_, started⟩
    · rw [same] at waits
      exact Or.inl waits
    · rw [started] at waits
      exact Or.inl waits
  | keyed position session key running keys =>
    simp only [conclude, keys, ↓reduceIte] at waits
    exact Or.inl waits
  | received position session plaintext running follows carries =>
    simp only [conclude, carries, Bool.false_eq_true, ↓reduceIte, Method.compute_bind] at waits
    cases made : Message.ofDict .SPDSMessage session.user [("plaintext", .bytes plaintext)] with
    | error exception =>
      rw [made] at waits
      exact Or.inl waits
    | ok stored =>
      rw [made] at waits
      exact Or.inl waits
  | take user received rest running queued => exact Or.inl waits
  | closed position running => exact Or.inl waits
  | popMessages => exact Or.inl waits

/-- The messages that wait for the registry are of classes that must be verified. -/
def Waits (node : Node) : Prop := ∀ message ∈ node.resolving, message.cls.verify = true

/-- Only messages that must be verified are left waiting. -/
theorem step_waits {event : Event} {after : Node} (stepped : self.Step node event after)
    (waits : Waits node) : Waits after := by
  intro message member
  rcases self.step_resolving node stepped message member with earlier | ⟨_, verified⟩
  · exact waits message earlier
  · exact verified

/-- This holds along every run from the start of a node, at which no message waits. -/
theorem runs_waits {steps : List (Node × Event)} {node : Node} (run : self.Runs steps node) :
    Waits node :=
  run.invariant Waits (fun _ member => by cases member)
    fun _ _ _ _ stepped => self.step_waits _ stepped

/-- One step, no overwriting message: what is stored for a user stays, except that
the end of a key protocol with the user brings a message key. -/
theorem step_keeps {event : Event} {after : Node} (stepped : self.Step node event after)
    (waits : Waits node)
    (spared : ∀ message, event = .inbound message → ¬ Overwrites node message user)
    (known : node.userDB.stored user "pub" ≠ none) (field : String)
    (listed : field ∈ protectedFields) :
    after.userDB.stored user field = node.userDB.stored user field ∨
      field = "message_key" ∧ ∃ key, Keyed node event user key ∧
        after.userDB.stored user field = some (.bytes key) := by
  cases stepped with
  | inbound message =>
    exact Or.inl (self.process_message_keeps node message (spared message rfl) known field listed)
  | resume position message waiting knownSender =>
    have verified := waits message (List.mem_of_getElem? waiting)
    let called : Node := { node with resolving := node.resolving.eraseIdx position }
    exact Or.inl (self.process_known_keeps called message (not_overwrites_of_verify called verified)
      known field listed)
  | expire position waiting => exact Or.inl rfl
  | request name =>
    exact Or.inl (Keeps.of_same (self.requestUserInfo_untouched node name).userDB known field listed)
  | lead name protocol key_size =>
    refine Or.inl (Keeps.of_same ?_ known field listed)
    rcases lead_effect node name protocol key_size with same | ⟨_, started⟩
    · rw [same]
    · rw [started]
  | keyed position session key running keys =>
    simp only [conclude, keys, ↓reduceIte, Method.modify_apply]
    rw [UserDB.stored_changeUserInfo]
    by_cases owned : user = .str session.user ∧ node.userDB.hasUser (.str session.user) = true
    · rw [if_pos owned, Dict.get?_single]
      by_cases named : "message_key" = field
      · refine Or.inr ⟨named.symm, key, ⟨position, session, rfl, running, keys, owned.1.symm⟩, ?_⟩
        rw [if_pos named, Option.some_or]
      · rw [if_neg named, Option.none_or, owned.1]
        exact Or.inl rfl
    · rw [if_neg owned]
      exact Or.inl rfl
  | received position session plaintext running follows carries =>
    simp only [conclude, carries, Bool.false_eq_true, ↓reduceIte, Method.compute_bind]
    cases Message.ofDict .SPDSMessage session.user [("plaintext", .bytes plaintext)] with
    | error exception => exact Or.inl rfl
    | ok message => exact Or.inl rfl
  | take name message rest running queued => exact Or.inl rfl
  | closed position running => exact Or.inl rfl
  | popMessages => exact Or.inl rfl

/-- From the moment a public key is stored for a user, and as long as no message overwrites the
user's data, key and connection stay and the message key changes only by key protocols.

Proof: one step keeps the protected fields of a user who has a key, unless the message it
handles overwrites them or it ends a key protocol with this user. Messages that have waited for
the registry are of verified classes, and none of these writes to the database. -/
theorem registry_integrity {earlier later : List (Node × Event)} {node final : Node}
    (reached : self.Runs earlier node) (run : Run self.Step node later final)
    (spared : ∀ before message, (before, .inbound message) ∈ later →
      ¬ Overwrites before message user)
    (known : node.userDB.stored user "pub" ≠ none) : Held user node later final := by
  suffices both : Waits final ∧ Held user node later final from both.2
  induction run with
  | nil => exact ⟨self.runs_waits reached, fun _ _ => Or.inl rfl⟩
  | @snoc steps state next event run stepped inductionHypothesis =>
    obtain ⟨waits, held⟩ := inductionHypothesis fun before message member =>
      spared before message (List.mem_append_left _ member)
    refine ⟨self.step_waits state stepped waits, fun field listed => ?_⟩
    have last : (state, event) ∈ steps ++ [(state, event)] :=
      List.mem_append_right _ (List.mem_singleton_self _)
    have stepSpared : ∀ message, event = .inbound message → ¬ Overwrites state message user := by
      rintro message rfl
      exact spared state message last
    rcases self.step_keeps state stepped waits stepSpared (held.known known) field listed with
      same | ⟨keyField, key, keyed, brought⟩
    · rw [same]
      rcases held field listed with before | ⟨keyField, other, otherEvent, key, member, rest⟩
      · exact Or.inl before
      · exact Or.inr ⟨keyField, other, otherEvent, key, List.mem_append_left _ member, rest⟩
    · exact Or.inr ⟨keyField, state, event, key, last, keyed, brought⟩

end QChatCore

/-- A client whose signatures never verify. -/
def sampleClient : QChatCore where
  role := .QChatClient
  name := "alice"
  host := .str "localhost"
  port := .num 8000
  root_config := .obj [("host", .str "localhost"), ("port", .num 8888)]
  allow_invalid_signatures := false
  pub := [1]
  json := ⟨fun _ => .ok "", fun _ => .error .ValueError⟩
  sign := fun _ => [0]
  verify := fun _ _ _ => .ok false

/-- An answer nobody asked for: another public key for a user, with a signature
that verifies under no key. -/
def forgedInfo (user : String) : Message :=
  ⟨.PUTUMessage, "eve", .obj [("user", .str user), ("pub", .str "forged"), ("sig", .str "")],
    eve_short⟩

/-- The forged answer is taken for one about its user, with nothing but the key. -/
theorem forgedInfo_imports (user : String) (single : user ≠ "*") :
    Imports (forgedInfo user) (.str user) (Dict.single "pub" (.str "forged")) := by
  refine ⟨rfl, (forgedInfo user).withData (.obj [("user", .str user), ("pub", .str "forged")]), [],
    .str user, ?_, ?_, ?_, rfl⟩
  · simp [_strip_signature, forgedInfo, Value.pop, Dict.lookup, Dict.remove,
      Value.encode, Bytes.latin1]
  · simp only [userArguments, Message.withData, Dict.lookup, Dict.remove]
    rfl
  · simpa [Value.isText] using single

/-- The stored public key of a user changes by a message no one has signed. -/
theorem putu_replaces_public_key :
    ¬ ∀ (steps : List (Node × Event)) (node after : Node) (message : Message) (user : UserKey),
      sampleClient.Runs steps node → node.userDB.stored user "pub" ≠ none →
      sampleClient.Step node (.inbound message) after →
      (∀ field ∈ protectedFields,
        after.userDB.stored user field = node.userDB.stored user field) ∨
        ∃ stripped, sampleClient.SignedFor node user message stripped := by
  intro claimed
  have known := sampleClient.boot_pub
  have overwrites : Overwrites sampleClient.boot (forgedInfo "alice") (.str "alice") :=
    ⟨by rw [show UserKey.str "alice" = .str sampleClient.name from rfl, known]; simp,
      _, forgedInfo_imports "alice" (by decide), "pub", by simp [protectedFields], .str "forged", rfl,
      by rw [show UserKey.str "alice" = .str sampleClient.name from rfl, known]; simp⟩
  have changed := sampleClient.process_message_overwrites sampleClient.boot _ overwrites
  rcases claimed [] _ _ (forgedInfo "alice") (.str "alice") .nil overwrites.1 (.inbound _) with
    kept | ⟨_, _, _, _, _, _, _, verified⟩
  · exact changed fun _ => kept
  · exact absurd verified (by simp [sampleClient])

/-- An answer about a new user spares the node's own data. -/
theorem registry_integrity_new_user :
    Held (.str "alice") sampleClient.boot
      [(sampleClient.boot, .inbound (forgedInfo "bob"))]
      (sampleClient.process_message (forgedInfo "bob") sampleClient.boot).2 := by
  refine sampleClient.registry_integrity .nil (.snoc .nil (.inbound _)) ?_ ?_
  · intro before message member
    obtain ⟨rfl, same⟩ := Prod.mk.inj (List.mem_singleton.mp member)
    cases same
    rintro ⟨_, kwargs, imports, _⟩
    exact absurd (imports.same_user (forgedInfo_imports "bob" (by decide))) (by decide)
  · rw [show UserKey.str "alice" = .str sampleClient.name from rfl, sampleClient.boot_pub]
    simp

end QChat
