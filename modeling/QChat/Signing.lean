import QChat.Connection
import QChat.Effects
import QChat.Json

/-!
# Signing and sending

`sendMessage` signs the message object it is given and sends it. The signature is
put into the object's own data, over a serialisation that includes whatever the
data held before. The receiver takes the signature out before it verifies, so it
verifies the data without any `sig`.

A message object without a `sig` arrives once as it was made. After that its data
hold the old signature, which the receiver's serialisation does not.

The receiver may have the sender's public key in bytes, as a server has it from a
registration, or as a text, as a client has it from the registry's answer.
-/

namespace QChat

namespace QChatCore

variable (self : QChatCore)

/-- Signs a message object in place. -/
def signObject : Method (Node × Message) Exn Unit := do
  let (_, message) ← .get
  let signed ← self._sign_message message
  .modify fun (node, _) => (node, signed)

/-- Resolves the information of an unknown user. `wait` is what becomes of the node
until the wait for the registry's answer is over. -/
def resolveUser (wait : Node → Node) (user : String) : Method Node Exn Unit := do
  if (← .get).userDB.hasUser (.str user) then return ()
  else
    self.requestUserInfo user
    .modify wait
    if user = "*" ∨ (← .get).userDB.hasUser (.str user) then return ()
    else .raise (.Exception ("Failed to get " ++ user ++ " info from registry"))

/-- Interface for sending a preconstructed message object to a user. -/
def sendMessage (wait : Node → Node) (user : String) : Method (Node × Message) Exn Unit := do
  .onFirst (self.resolveUser wait user)
  let connection_info ← (← .get).1.userDB.getConnectionInfo (.str user)
  let host ← connection_info.item "host"
  let port ← connection_info.item "port"
  self.signObject
  let frame ← (← .get).2.encode_message self.json
  .onFirst (send_message host port frame)

theorem resolveUser_known (wait : Node → Node) {user : String} {node : Node}
    (known : node.userDB.hasUser (.str user) = true) :
    self.resolveUser wait user node = (.ok (), node) := by
  rw [resolveUser, Method.get_bind, if_pos known]
  rfl

/-- The node knows where to reach the user: the stored connection has a host and a port. -/
def Addressed (node : Node) (user : String) (host port : Value) : Prop :=
  node.userDB.hasUser (.str user) = true ∧
    ∃ connection_info, node.userDB.getConnectionInfo (.str user) = .ok connection_info ∧
      connection_info.item "host" = .ok host ∧ connection_info.item "port" = .ok port

/-- The node knows where to reach the user, or learns it in time from the registry: it is
`ready` when the connection information is read. -/
def Resolves (wait : Node → Node) (node : Node) (user : String) (ready : Node)
    (host port : Value) : Prop :=
  self.resolveUser wait user node = (.ok (), ready) ∧ Addressed ready user host port

variable {self} in
/-- For a known user nothing is asked. -/
theorem Addressed.resolves {node : Node} {user : String} {host port : Value}
    (addressed : Addressed node user host port) (wait : Node → Node) :
    self.Resolves wait node user node host port :=
  ⟨self.resolveUser_known wait addressed.1, addressed⟩

theorem signObject_apply (node : Node) (message : Message) :
    self.signObject (node, message) =
      match self._sign_message message with
      | .error exception => (.error exception, (node, message))
      | .ok signed => (.ok (), (node, signed)) := by
  simp only [signObject, Method.get_bind, Method.compute_bind]
  cases self._sign_message message <;> rfl

/-- What sending to a user who can be reached does: to the node and to the message object. -/
theorem sendMessage_resolved {wait : Node → Node} {node ready : Node} {user : String}
    {host port : Value} (resolves : self.Resolves wait node user ready host port)
    (message : Message) :
    self.sendMessage wait user (node, message) =
      match self._sign_message message with
      | .error exception => (.error exception, (ready, message))
      | .ok signed =>
        match signed.encode_message self.json with
        | .error exception => (.error exception, (ready, signed))
        | .ok frame =>
          (.ok (), ({ ready with sent := ready.sent ++ [⟨host, port, frame⟩] }, signed)) := by
  obtain ⟨resolved, -, connection_info, stored, hosted, ported⟩ := resolves
  have first : Method.onFirst (self.resolveUser wait user) (node, message) =
      (.ok (), (ready, message)) := by
    simp only [Method.onFirst, resolved]
  rw [sendMessage, Method.bind_of_ok first]
  simp only [Method.get_bind, Method.compute_bind, stored, hosted, ported]
  rw [Method.bind_apply, signObject_apply]
  cases self._sign_message message with
  | error exception => rfl
  | ok signed =>
    simp only [Method.get_bind, Method.compute_bind]
    cases signed.encode_message self.json <;> rfl

/-- What a call of `sendMessage` has done when it returns. -/
theorem sendMessage_ok {wait : Node → Node} {user : String} {node after : Node}
    {message object : Message}
    (returned : self.sendMessage wait user (node, message) = (.ok (), (after, object))) :
    ∃ ready host port frame, self.Resolves wait node user ready host port ∧
      self._sign_message message = .ok object ∧ object.encode_message self.json = .ok frame ∧
      after = { ready with sent := ready.sent ++ [⟨host, port, frame⟩] } := by
  rcases resolved : self.resolveUser wait user node with ⟨result, ready⟩
  cases result with
  | error exception =>
    simp only [sendMessage, Method.bind_apply, Method.onFirst, resolved] at returned
    cases returned
  | ok done =>
    have first : Method.onFirst (self.resolveUser wait user) (node, message) =
        (.ok (), (ready, message)) := by
      simp only [Method.onFirst, resolved]
    rw [sendMessage, Method.bind_of_ok first] at returned
    simp only [Method.get_bind, Method.compute_bind] at returned
    cases stored : ready.userDB.getConnectionInfo (.str user) with
    | error exception => rw [stored] at returned; cases returned
    | ok connection_info =>
      simp only [stored] at returned
      cases hosted : connection_info.item "host" with
      | error exception => rw [hosted] at returned; cases returned
      | ok host =>
        simp only [hosted] at returned
        cases ported : connection_info.item "port" with
        | error exception => rw [ported] at returned; cases returned
        | ok port =>
          simp only [ported] at returned
          rw [Method.bind_apply, signObject_apply] at returned
          cases signs : self._sign_message message with
          | error exception => simp only [signs] at returned; cases returned
          | ok signed =>
            simp only [signs, Method.get_bind, Method.compute_bind] at returned
            cases encoded : signed.encode_message self.json with
            | error exception => simp only [encoded] at returned; cases returned
            | ok frame =>
              simp only [encoded] at returned
              obtain ⟨same, rfl⟩ := Prod.mk.inj (congrArg Prod.snd returned)
              have addressed : Addressed ready user host port :=
                ⟨UserDB.hasUser_of_getField stored, connection_info, stored, hosted, ported⟩
              exact ⟨ready, host, port, frame, ⟨resolved, addressed⟩, rfl, encoded, same.symm⟩

/-- The text of a value, if it has one, fits into a frame. -/
def Fits (json : JsonCodec) (data : Value) : Prop :=
  ∀ text, json.dumps data = .ok text → (Bytes.utf8 text).length < 2 ^ 32

/-- The entries with the signature of a frame. -/
def withSig (frame : Bytes) (entries : List (String × Value)) : List (String × Value) :=
  Dict.assign "sig" (.str (Bytes.latin1Text (self.sign frame))) entries

theorem isJson_withSig {entries : List (String × Value)} (valid : (Value.obj entries).IsJson)
    (frame : Bytes) : (Value.obj (self.withSig frame entries)).IsJson := by
  cases valid with
  | obj _ distinct each =>
    refine .obj _ ?_ fun entry member => ?_
    · rw [withSig, Dict.assign_keys]
      split
      · exact distinct
      · next absent =>
        exact List.nodup_append_comm.mp (List.nodup_cons.mpr ⟨absent, distinct⟩)
    · rcases Dict.mem_assign member with same | earlier
      · rw [same]
        exact .str _
      · exact each entry earlier

/-- Signing puts the signature of the current frame into the data. -/
theorem sign_message_ok {message : Message} {entries : List (String × Value)} {frame : Bytes}
    (dictionary : message.data = .obj entries)
    (encoded : message.encode_message self.json = .ok frame) :
    self._sign_message message = .ok (message.withData (.obj (self.withSig frame entries))) := by
  simp only [_sign_message, encoded, ok_bind, dictionary]
  rfl

/-- Stripping takes the signature out, and gives it back as it was made. -/
theorem strip_signed (message : Message) (frame : Bytes) (entries : List (String × Value)) :
    _strip_signature (message.withData (.obj (self.withSig frame entries))) =
      .ok (message.withData (.obj (Dict.remove "sig" entries)), self.sign frame) := by
  have stored : Dict.lookup "sig" (self.withSig frame entries) =
      some (.str (Bytes.latin1Text (self.sign frame))) := Dict.lookup_assign_self ..
  have popped := Value.pop_obj stored
  rw [withSig, Dict.remove_assign] at popped
  simp only [_strip_signature, Message.withData, withSig, popped, ok_bind, Value.encode,
    Bytes.latin1_latin1Text, pure_ok]

/-- A node that receives messages, as it is at that moment. -/
structure Peer where
  core : QChatCore
  node : Node

/-- The peer uses the same libraries, checks signatures and has this node's public key stored
for the sender, in either form: as the bytes of a registration or as the text of an answer. -/
structure Holds (core : QChatCore) (sender : String) (peer : Peer) : Prop where
  json : peer.core.json = core.json
  verify : peer.core.verify = core.verify
  checks : peer.core.allow_invalid_signatures = false
  pub : peer.node.userDB.HasPublicKey (.str sender) core.pub

/-- Signatures verify under the public key, in either form. -/
def SignaturesVerify : Prop :=
  ∀ key, IsPublicKey self.pub key → ∀ data, self.verify key data (self.sign data) = .ok true

/-- The signature of some bytes verifies for no others. -/
def SignaturesBind : Prop :=
  ∀ key, IsPublicKey self.pub key → ∀ data other,
    self.verify key other (self.sign data) = .ok true → other = data

/-- The message object is sent, received as one message, and handed to the peer's
handler as the original, its signature accepted. -/
def Delivers (wait : Node → Node) (peer : Peer) (user : String) (node : Node)
    (message original : Message) : Prop :=
  ∃ (ready : Node) (host port : Value) (frame : Bytes) (after parsed : Message),
    self.sendMessage wait user (node, message) =
      (.ok (), ({ ready with sent := ready.sent ++ [⟨host, port, frame⟩] }, after)) ∧
    (∀ queue, Reception._handle_connection peer.core.json ⟨frame, [], queue⟩ =
      (.ok (), ⟨[], [], queue ++ [parsed]⟩)) ∧
    peer.core.authenticate peer.node.userDB parsed = .ok original ∧
    peer.core.process_message parsed peer.node =
      peer.core.handle (handlerOf peer.core.role original.cls) original peer.node

/-- Each of several calls with one object delivers the original. -/
def AllDelivered (wait : Node → Node) (peers : String → Peer) (original : Message) :
    List String → Node → Message → Prop
  | [], _, _ => True
  | user :: users, node, message =>
    self.Delivers wait (peers user) user node message original ∧
      AllDelivered wait peers original users (self.sendMessage wait user (node, message)).2.1
        (self.sendMessage wait user (node, message)).2.2

/-- A message of a known sender is admitted and handled. -/
theorem process_message_admitted {message admitted : Message} {node : Node}
    (known : node.userDB.hasUser (.str message.sender) = true)
    (passed : self.authenticate node.userDB message = .ok admitted) :
    self.process_message message node =
      self.handle (handlerOf self.role admitted.cls) admitted node := by
  simp only [process_message, Method.get_bind, known, not_true_eq_false, and_false, ↓reduceIte,
    process_known, passed, Method.compute_bind]

section OneCall

variable {self} {peer : Peer} {message : Message} {entries : List (String × Value)}
  {frame : Bytes} {wait : Node → Node} {user : String} {node ready : Node} {host port : Value}

variable (frame entries) in
/-- What the peer makes of a signed message: it verifies the data without `sig`
against the signature of the frame that was signed. -/
theorem authenticate_withSig (holds : self.Holds message.sender peer) {key : Value}
    (stored : peer.node.userDB.getPublicKey (.str message.sender) = .ok key)
    (verified : message.cls.verify = true) :
    peer.core.authenticate peer.node.userDB (message.withData (.obj (self.withSig frame entries))) = (do
      let data ← (message.withData (.obj (Dict.remove "sig" entries))).encode_message self.json
      if ← self.verify key data (self.sign frame) then
        return message.withData (.obj (Dict.remove "sig" entries))
      else .error (.Exception "Obtained message with incorrect signature")) := by
  have cls : (message.withData (.obj (self.withSig frame entries))).cls.verify = true := verified
  have pub : peer.node.userDB.getPublicKey
      (.str (message.withData (.obj (Dict.remove "sig" entries))).sender) = .ok key := stored
  simp only [authenticate, cls, ↓reduceIte, strip_signed, ok_bind, holds.checks, Bool.false_eq_true,
    _verify_message, holds.json, holds.verify, pub]
  cases (message.withData (.obj (Dict.remove "sig" entries))).encode_message self.json with
  | error exception => rfl
  | ok data =>
    simp only [ok_bind]
    cases self.verify key data (self.sign frame) with
    | error exception => rfl
    | ok answer => cases answer <;> rfl

/-- A call that delivers has signed the message's frame and sent the signed message,
whose signature the peer has verified against the data without it. -/
theorem delivers_inversion (faithful : self.json.Faithful) {original : Message}
    (holds : self.Holds message.sender peer) (verified : message.cls.verify = true)
    (carried : Message.Carried message.sender) (dictionary : message.data = .obj entries)
    (valid : (Value.obj entries).IsJson)
    (delivers : self.Delivers wait peer user node message original) :
    ∃ ready host port key frame data signedFrame, IsPublicKey self.pub key ∧
      self.Resolves wait node user ready host port ∧ message.encode_message self.json = .ok frame ∧
      (message.withData (.obj (self.withSig frame entries))).encode_message self.json =
        .ok signedFrame ∧
      self.sendMessage wait user (node, message) =
        (.ok (), ({ ready with sent := ready.sent ++ [⟨host, port, signedFrame⟩] },
          message.withData (.obj (self.withSig frame entries)))) ∧
      original = message.withData (.obj (Dict.remove "sig" entries)) ∧
      original.encode_message self.json = .ok data ∧
      self.verify key data (self.sign frame) = .ok true := by
  obtain ⟨_, _, _, sentFrame, after, parsed, sent, received, admitted, _⟩ := delivers
  obtain ⟨ready, host, port, signedFrame, resolves, signs, signed, left⟩ := self.sendMessage_ok sent
  obtain ⟨frame, encoded, -⟩ := ok_of_bind signs
  cases (self.sign_message_ok dictionary encoded).symm.trans signs
  have same : signedFrame = sentFrame := by
    have last := congrArg (fun node => node.sent.getLast?) left
    simp only [List.getLast?_concat, Option.some.injEq, Frame.mk.injEq] at last
    exact last.2.2.symm
  subst same
  have jsonData : (message.withData (.obj (self.withSig frame entries))).data.IsJson :=
    self.isJson_withSig valid frame
  have parses := Message.handle_connection_frame faithful jsonData carried signed []
  rw [← holds.json, received []] at parses
  have read : parsed = message.withData (.obj (self.withSig frame entries)) := by
    simpa using congrArg (fun outcome => outcome.2.message_queue) parses
  obtain ⟨key, stored, form⟩ := holds.pub
  rw [read, authenticate_withSig entries frame holds stored verified] at admitted
  obtain ⟨data, reencoded, admitted⟩ := ok_of_bind admitted
  obtain ⟨answer, checked, admitted⟩ := ok_of_bind admitted
  cases answer with
  | false => cases admitted
  | true =>
    cases admitted
    refine ⟨ready, host, port, key, frame, data, signedFrame, form, resolves, encoded, signed, ?_,
      rfl, reencoded, checked⟩
    rw [sent, left]

/-- A fresh object whose texts fit is delivered. -/
theorem delivers_fresh (faithful : self.json.Faithful) (holds : self.Holds message.sender peer)
    (correct : self.SignaturesVerify) (resolves : self.Resolves wait node user ready host port)
    (verified : message.cls.verify = true) (carried : Message.Carried message.sender)
    (dictionary : message.data = .obj entries) (valid : (Value.obj entries).IsJson)
    (fresh : Dict.lookup "sig" entries = none)
    (encoded : message.encode_message self.json = .ok frame)
    (fits : Fits self.json (.obj (self.withSig frame entries))) :
    self.Delivers wait peer user node message message := by
  obtain ⟨text, dumped, _⟩ := faithful.loads_dumps _ (self.isJson_withSig valid frame)
  obtain ⟨signedFrame, signed⟩ :
      ∃ signedFrame, (message.withData (.obj (self.withSig frame entries))).encode_message
        self.json = .ok signedFrame := ⟨_, Message.encode_message_ok _ dumped (fits text dumped)⟩
  have removed : Dict.remove "sig" entries = entries :=
    Dict.remove_absent "sig" entries ((Dict.lookup_none "sig" entries).mp fresh)
  have same : message.withData (.obj entries) = message := by
    rw [← dictionary]
    rfl
  obtain ⟨key, stored, form⟩ := holds.pub
  have admitted := authenticate_withSig entries frame holds stored verified
  simp only [removed, same, encoded, ok_bind, correct key form, ↓reduceIte, pure_ok] at admitted
  have known := UserDB.hasUser_of_getField stored
  have jsonData : (message.withData (.obj (self.withSig frame entries))).data.IsJson :=
    self.isJson_withSig valid frame
  refine ⟨ready, host, port, signedFrame, message.withData (.obj (self.withSig frame entries)),
    message.withData (.obj (self.withSig frame entries)), ?_, fun queue => ?_, admitted,
    peer.core.process_message_admitted known admitted⟩
  · rw [self.sendMessage_resolved resolves, self.sign_message_ok dictionary encoded]
    simp only [signed]
  · rw [holds.json]
    exact Message.handle_connection_frame faithful jsonData carried signed queue

/-- An object that still holds the signature of a call before is not delivered: the
peer verifies other data than were signed. -/
theorem not_delivers_again (faithful : self.json.Faithful) (sound : self.SignaturesBind)
    (holds : self.Holds message.sender peer) (verified : message.cls.verify = true)
    (carried : Message.Carried message.sender) (dictionary : message.data = .obj entries)
    (valid : (Value.obj entries).IsJson) (frame : Bytes) :
    ¬ self.Delivers wait peer user node (message.withData (.obj (self.withSig frame entries)))
      message := by
  intro delivers
  let signed := message.withData (.obj (self.withSig frame entries))
  have holdsSigned : self.Holds signed.sender peer := holds
  have verifiedSigned : signed.cls.verify = true := verified
  have carriedSigned : Message.Carried signed.sender := carried
  obtain ⟨_, _, _, key, signedFrame, data, _, form, _, encodedSigned, _, _, stripped, encoded,
    checked⟩ := delivers_inversion faithful holdsSigned verifiedSigned carriedSigned rfl
      (self.isJson_withSig valid frame) delivers
  cases sound key form _ _ checked
  have jsonData : message.data.IsJson := dictionary ▸ valid
  have same : Value.obj (self.withSig frame entries) = .obj entries := by
    rw [← dictionary]
    exact Message.encode_message_injective faithful message signed rfl rfl jsonData
      (self.isJson_withSig valid frame) encoded encodedSigned
  have stored : Dict.lookup "sig" (self.withSig frame entries) =
      some (.str (Bytes.latin1Text (self.sign frame))) := Dict.lookup_assign_self ..
  have fresh : Dict.lookup "sig" entries = none := by
    have data := congrArg Message.data stripped
    rw [withSig, Dict.remove_assign, dictionary] at data
    exact Dict.lookup_of_remove_same _ _ (Value.obj.inj data).symm
  rw [Value.obj.inj same, fresh] at stored
  cases stored

end OneCall

/-- The object can be signed and sent: it holds no `sig`, and its text fits into a
frame without and with the signature. -/
def Sendable (message : Message) (entries : List (String × Value)) : Prop :=
  Dict.lookup "sig" entries = none ∧ Fits self.json (.obj entries) ∧
    ∀ frame, message.encode_message self.json = .ok frame →
      Fits self.json (.obj (self.withSig frame entries))

/-- One object, any number of calls: all deliver it exactly if there is no call, or one call,
for a user who can be reached, and the object is sendable. Without the soundness of signatures
the condition is still enough.

Proof: the first call signs the data as it is and leaves the signature in the object. Every
further call signs the data with the old signature in it, which the receiver has taken out
before it verifies. -/
theorem signed_delivery (faithful : self.json.Faithful) (correct : self.SignaturesVerify)
    (message : Message) (entries : List (String × Value)) (dictionary : message.data = .obj entries)
    (valid : (Value.obj entries).IsJson) (verified : message.cls.verify = true)
    (carried : Message.Carried message.sender) (wait : Node → Node) (peers : String → Peer)
    (holds : ∀ user, self.Holds message.sender (peers user)) (users : List String) (node : Node) :
    (users = [] ∨ (∃ user ready host port, users = [user] ∧
          self.Resolves wait node user ready host port) ∧ self.Sendable message entries →
        self.AllDelivered wait peers message users node message) ∧
      (self.SignaturesBind → self.AllDelivered wait peers message users node message →
        users = [] ∨ (∃ user ready host port, users = [user] ∧
          self.Resolves wait node user ready host port) ∧ self.Sendable message entries) := by
  constructor
  · rintro (rfl | ⟨⟨user, ready, host, port, rfl, resolves⟩, fresh, fits, signedFits⟩)
    · trivial
    · obtain ⟨text, dumped, _⟩ := faithful.loads_dumps _ valid
      rw [← dictionary] at dumped
      have encoded := message.encode_message_ok dumped (fits text (dictionary ▸ dumped))
      exact ⟨delivers_fresh faithful (holds user) correct resolves verified carried dictionary valid
        fresh encoded (signedFits _ encoded), trivial⟩
  · intro sound delivered
    cases users with
    | nil => exact Or.inl rfl
    | cons user users =>
      obtain ⟨first, others⟩ := delivered
      obtain ⟨ready, host, port, _, frame, data, signedFrame, _, resolves, encoded, signed, sent,
        stripped, _, _⟩ :=
        delivers_inversion faithful (holds user) verified carried dictionary valid first
      have fresh : Dict.lookup "sig" entries = none := by
        have data := congrArg Message.data stripped
        rw [dictionary] at data
        exact Dict.lookup_of_remove_same _ _ (Value.obj.inj data).symm
      cases users with
      | nil =>
        refine Or.inr ⟨⟨user, ready, host, port, rfl, resolves⟩, fresh, ?_, ?_⟩
        · obtain ⟨text, dumped, fits, _⟩ := Message.encode_message_parts encoded
          intro other dumpedOther
          rw [dictionary] at dumped
          cases dumped.symm.trans dumpedOther
          exact fits
        · intro other encodedOther
          cases encoded.symm.trans encodedOther
          obtain ⟨text, dumped, fits, _⟩ := Message.encode_message_parts signed
          intro other dumpedOther
          cases (dumped : self.json.dumps (.obj (self.withSig frame entries)) = .ok text).symm.trans
            dumpedOther
          exact fits
      | cons second users =>
        -- the second call has the object with the first call's signature
        rw [sent] at others
        exact absurd others.1 (not_delivers_again faithful sound (holds second) verified carried
          dictionary valid frame)

end QChatCore

/-- A client whose signature of some bytes are these bytes. -/
def sampleSigner : QChatCore where
  role := .QChatClient
  name := "alice"
  host := .str "localhost"
  port := .num 8000
  root_config := .obj [("host", .str "localhost"), ("port", .num 8888)]
  allow_invalid_signatures := false
  pub := [1]
  json := json
  sign := id
  verify := fun _ data signature => .ok (decide (data = signature))

/-- The client when it knows where to reach another one. -/
def sampleSender : Node :=
  let info := Dict.single "connection" (.obj [("host", .str "localhost"), ("port", .num 8001)])
  { sampleSigner.boot with userDB := sampleSigner.boot.userDB.addUser (.str "bob") info }

/-- The other one, which has the client's public key from the registry's answer. -/
def samplePeer : QChatCore.Peer where
  core := { sampleSigner with name := "bob", port := .num 8001, pub := [2] }
  node :=
    let bob : QChatCore := { sampleSigner with name := "bob", port := .num 8001, pub := [2] }
    let info := Dict.ofList [("connection", .obj [("host", .str "localhost"), ("port", .num 8000)]),
      ("pub", pubText [1])]
    { bob.boot with userDB := bob.boot.userDB.addUser (.str "alice") info }

def sampleObject : Message := ⟨.QCHTMessage, "alice", .obj [], alice_short⟩

theorem sampleSigner_correct : sampleSigner.SignaturesVerify := by
  intro key form data
  simp [sampleSigner]

theorem sampleSigner_sound : sampleSigner.SignaturesBind := by
  intro key form data other accepted
  simpa [sampleSigner] using accepted

theorem samplePeer_holds : sampleSigner.Holds sampleObject.sender samplePeer where
  json := rfl
  verify := rfl
  checks := rfl
  pub := by
    refine ⟨pubText [1], UserDB.getField_stored ?_, .inr rfl⟩
    simp only [samplePeer, UserDB.stored_addUser]
    rfl

theorem sampleSender_addressed :
    QChatCore.Addressed sampleSender "bob" (.str "localhost") (.num 8001) := by
  have stored : sampleSender.userDB.stored (.str "bob") "connection" =
      some (.obj [("host", .str "localhost"), ("port", .num 8001)]) := by
    rw [sampleSender, UserDB.stored_addUser, if_pos rfl]
    rfl
  refine ⟨UserDB.hasUser_of_stored (by rw [stored]; simp), _, UserDB.getField_stored stored, ?_, ?_⟩
  · simp [Value.item, Dict.lookup]
  · simp [Value.item, Dict.lookup]

theorem sampleObject_carried : Message.Carried sampleObject.sender :=
  ⟨by decide, by decide, by decide⟩

/-- The same object sent twice: not both times it arrives as it was made. -/
theorem second_send_not_delivered :
    ¬ sampleSigner.AllDelivered id (fun _ => samplePeer) sampleObject ["bob", "bob"] sampleSender
      sampleObject := by
  rintro ⟨first, second, _⟩
  obtain ⟨_, _, _, _, frame, _, signedFrame, _, _, _, _, sent, _⟩ :=
    QChatCore.delivers_inversion json_faithful samplePeer_holds rfl
      sampleObject_carried rfl Value.isJson_nothing first
  rw [sent] at second
  exact QChatCore.not_delivers_again json_faithful sampleSigner_sound samplePeer_holds rfl
    sampleObject_carried rfl Value.isJson_nothing frame second

theorem sampleObject_sendable : sampleSigner.Sendable sampleObject [] :=
  ⟨rfl, fun text dumped => by cases dumped; decide +kernel, fun frame encoded text dumped => by
    cases encoded
    cases dumped
    decide +kernel⟩

/-- An object without data is delivered to a peer that has the sender's key as a text. -/
theorem signed_delivery_empty_object :
    sampleSigner.AllDelivered id (fun _ => samplePeer) sampleObject ["bob"] sampleSender
      sampleObject :=
  (sampleSigner.signed_delivery json_faithful sampleSigner_correct sampleObject [] rfl
    Value.isJson_nothing rfl sampleObject_carried id (fun _ => samplePeer)
    (fun _ => samplePeer_holds) ["bob"] sampleSender).1
    (.inr ⟨⟨"bob", _, _, _, rfl, sampleSender_addressed.resolves id⟩, sampleObject_sendable⟩)

end QChat
