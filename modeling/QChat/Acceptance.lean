import QChat.Honesty

/-!
# What honest nodes accept of each other

Nodes learn public keys in two forms, as bytes and as texts. If signatures verify under
both forms, no message of an honest node is ever refused by a node that knows its sender.
-/

namespace QChat

namespace Network

variable {Name : Type} [DecidableEq Name] (network : Network Name)

/-- Signatures of a node verify at every node under its public key, in bytes or as a text. -/
def Verifies : Prop :=
  ∀ holder sender data pub,
    pub = .bytes (network.core sender).pub ∨ pub = pubText (network.core sender).pub →
      (network.core holder).verify pub data ((network.core sender).sign data) = .ok true

omit [DecidableEq Name] in
variable {network} in
/-- A received frame of a class that must be verified is a message that a node has signed. -/
theorem HonestFrame.signed (carried : ∀ name, Message.Carried (network.core name).name)
    {frame : Bytes} (honest : network.HonestFrame frame) {limits : List Nat}
    {message_queue : List Message} {message : Message}
    (received : Reception.Appended network.json frame limits message_queue message)
    (verified : message.cls.verify = true) : network.Signed message := by
  obtain ⟨made, -, signed, valid, encoded⟩ := honest
  obtain ⟨cls, -, -⟩ := Message.parsed network.faithful encoded valid received
  obtain ⟨name, original, outgoing, signing⟩ := signed (cls ▸ verified)
  have made_by : made.sender = (network.core name).name := by
    obtain ⟨entries, dictionary, -⟩ := outgoing.fresh
    obtain ⟨_, rfl⟩ := of_sign_message dictionary signing
    exact outgoing.sender
  obtain rfl := Message.parsed_carried network.faithful encoded valid (made_by ▸ carried name) received
  exact ⟨name, original, outgoing, signing⟩

variable {network} in
omit [DecidableEq Name] in
/-- What a node has signed is admitted by a node with a genuine database. -/
theorem Signed.admitted (verifies : network.Verifies) {message : Message}
    (signed : network.Signed message) {userDB : UserDB} (genuine : network.Genuine userDB)
    (holder : Name) (known : userDB.hasUser (.str message.sender) = true) :
    ∃ name original, (network.core name).Outgoing original ∧
      (network.core name)._sign_message original = .ok message ∧
      (network.core holder).authenticate userDB message = .ok original := by
  obtain ⟨name, original, outgoing, signing⟩ := signed
  obtain ⟨entries, dictionary, fresh⟩ := outgoing.fresh
  obtain ⟨frame, encoded, -⟩ := ok_of_bind signing
  have whole := (network.core name).sign_message_ok dictionary encoded
  refine ⟨name, original, outgoing, signing, ?_⟩
  cases whole.symm.trans signing
  have removed : original.withData (.obj (Dict.remove "sig" entries)) = original := by
    rw [Dict.remove_absent "sig" entries ((Dict.lookup_none "sig" entries).mp fresh), ← dictionary]
    rfl
  have stripped := (network.core name).strip_signed original frame entries
  rw [removed] at stripped
  have verified : (original.withData (.obj ((network.core name).withSig frame entries))).cls.verify =
      true := outgoing.verified
  simp only [QChatCore.authenticate, verified, ↓reduceIte, stripped, ok_bind]
  split
  · rfl
  · -- the key stored for the sender's name is the sender's
    obtain ⟨info, entry⟩ := Option.isSome_iff_exists.mp known
    obtain ⟨other, named, -, keyed⟩ := genuine _ info entry
    have same : (network.core name).name = (network.core other).name :=
      outgoing.sender.symm.trans (UserKey.str.inj named)
    obtain rfl := network.distinct name other same
    obtain ⟨pub, form, read⟩ : ∃ pub,
        (pub = .bytes (network.core name).pub ∨ pub = pubText (network.core name).pub) ∧
          userDB.getPublicKey (.str original.sender) = .ok pub := by
      rcases keyed with bytes | text
      · exact ⟨_, .inl rfl, UserDB.getField_entry entry bytes⟩
      · exact ⟨_, .inr rfl, UserDB.getField_entry entry text⟩
    have again : original.encode_message (network.core holder).json = .ok frame := by
      rw [network.shared holder, ← network.shared name]
      exact encoded
    simp only [QChatCore._verify_message, again, ok_bind, read, verifies holder name frame pub form,
      ↓reduceIte]
    rfl

/-- In every reachable state, each frame on its way that is received as a message to be verified
was signed by a node of the network, and every node that knows its sender accepts the signature
and handles the message as the sender made it. The stored key may be bytes or text: the verifier
takes both. -/
theorem honest_accepted (verifies : network.Verifies)
    (carried : ∀ name, Message.Carried (network.core name).name) (state : Traffic Name)
    (reached : network.Reachable state) (frame : Frame) (flying : frame ∈ state.travelling)
    (limits : List Nat) (message_queue : List Message) (message : Message)
    (received : Reception.Appended network.json frame.frame limits message_queue message)
    (verified : message.cls.verify = true) (holder : Name)
    (known : (state.node holder).userDB.hasUser (.str message.sender) = true) :
    ∃ name original, (network.core name).Outgoing original ∧
      (network.core name)._sign_message original = .ok message ∧
      (network.core holder).process_message message (state.node holder) =
        (network.core holder).handle (handlerOf (network.core holder).role original.cls) original
          (state.node holder) := by
  have sound := reached.sound
  have signed := (sound.honest frame flying).signed carried received verified
  obtain ⟨name, original, outgoing, signing, admitted⟩ :=
    signed.admitted verifies (sound.genuine holder) holder known
  exact ⟨name, original, outgoing, signing,
    (network.core holder).process_message_admitted known admitted⟩

end Network

/-- A message without data that the client sends to itself, and what it becomes. -/
def soloMessage : Message := ⟨.QCHTMessage, "alice", .obj [], alice_short⟩

/-- The client's message with its signature. -/
def soloSigned : Message :=
  soloMessage.withData (.obj [("sig", .str (Bytes.latin1Text [0]))])

/-- It is a message that the client may send. -/
theorem soloMessage_outgoing : (soloNetwork.core ()).Outgoing soloMessage where
  verified := rfl
  sender := rfl
  valid := Value.isJson_nothing
  fresh := ⟨[], rfl, rfl⟩

/-- The client sends its message to itself: a frame is on its way to a node that knows the
sender. -/
theorem solo_sends : ∃ state frame, soloNetwork.Reachable state ∧ frame ∈ state.travelling ∧
    Reception.Appended json frame.frame [] [] soloSigned ∧
    (state.node ()).userDB.hasUser (.str "alice") = true := by
  have addressed : QChatCore.Addressed (soloNetwork.start.node ()) "alice" (.str "localhost")
      (.num 8000) := ⟨solo_known, _, rfl, rfl, rfl⟩
  have encoded : ∃ plain, soloMessage.encode_message json = .ok plain := ⟨_, rfl⟩
  have signedFrame : ∃ frame, soloSigned.encode_message json = .ok frame := ⟨_, rfl⟩
  obtain ⟨plain, encoded⟩ := encoded
  obtain ⟨frame, signedFrame⟩ := signedFrame
  have signing : (soloNetwork.core ())._sign_message soloMessage = .ok soloSigned :=
    (soloNetwork.core ()).sign_message_ok (show soloMessage.data = .obj [] from rfl) encoded
  have sent := (soloNetwork.core ()).sendMessage_resolved (addressed.resolves id) soloMessage
  simp only [signing, show (soloNetwork.core ()).json = json from rfl, signedFrame] at sent
  refine ⟨_, ⟨.str "localhost", .num 8000, frame⟩, Relation.ReflTransGen.refl.tail
    (.send soloNetwork.start () "alice" soloMessage soloMessage_outgoing), ?_, ?_, ?_⟩
  · rw [sent]
    simp [Traffic.advance, Network.start, QChatCore.boot]
  · refine (Reception.appended_iff soloSigned).mpr ⟨?_, Reception.whole_unlimited⟩
    refine Message.wellFormed_encode json_faithful ?_ ⟨by decide, by decide, by decide⟩ signedFrame
    refine .obj _ (by simp) fun entry member => ?_
    rw [List.mem_singleton.mp member]
    exact .str _
  · rw [sent]
    simpa [Traffic.advance] using solo_known

/-- The client's message to itself is accepted. -/
theorem honest_accepted_solo :
    ∃ (state : Traffic Unit) (message : Message) (name : Unit) (original : Message),
    (soloNetwork.core name)._sign_message original = .ok message ∧
      (soloNetwork.core ()).process_message message (state.node ()) =
        (soloNetwork.core ()).handle (handlerOf (soloNetwork.core ()).role original.cls) original
          (state.node ()) := by
  obtain ⟨state, frame, reached, flying, received, known⟩ := solo_sends
  have carried : Message.Carried "alice" := ⟨by decide, by decide, by decide⟩
  obtain ⟨name, original, -, signing, handled⟩ := soloNetwork.honest_accepted
    (fun _ _ _ _ _ => rfl) (fun _ => carried) state reached frame flying
    [] [] soloSigned received rfl () known
  exact ⟨state, soloSigned, name, original, signing, handled⟩

end QChat
