import QChat.Authenticity
import QChat.Signing

/-!
# Chat messages

How a text becomes a message in the mailbox of its receiver, and what the
receiver's history makes of it. A chat message is encrypted under the key both
clients store for each other; a superdense message reaches the mailbox as the
bytes the protocol transferred.

The history lists byte strings: the text that `decode` makes of a decrypted
message is dropped, and a superdense message is stored as it was received.
-/

namespace QChat

/-- The authenticated cipher. Its key is a value as it is stored; the nonce is drawn at
encryption. Either method raises where the library does, which is where the key is not one of
its lengths or the tag does not fit. -/
structure Cipher where
  encrypt : Value → Bytes → Bytes → Except Exn (Bytes × Bytes)
  decrypt : Value → Bytes × Bytes × Bytes → Except Exn Bytes

/-- Decryption undoes encryption under the same key: what the library promises. Nothing is said
of other keys or of what has been changed on its way. -/
structure Cipher.Lawful (cipher : Cipher) : Prop where
  decrypt_encrypt : ∀ key nonce plaintext ciphertext tag,
    cipher.encrypt key nonce plaintext = .ok (ciphertext, tag) →
    cipher.decrypt key (nonce, ciphertext, tag) = .ok plaintext

namespace QChatClient

variable (self : QChatCore) (cipher : Cipher)

/-- The data of a chat message: nonce, ciphertext and tag, each as a text with one character for
a byte. -/
def cipherData (nonce ciphertext tag : Bytes) : List (String × Value) :=
  [("nonce", .str (Bytes.latin1Text nonce)), ("ciphertext", .str (Bytes.latin1Text ciphertext)),
    ("tag", .str (Bytes.latin1Text tag))]

/-- Creates an encrypted chat message. `establish` is the run of a key protocol that
a missing key calls for, `nonce` the one the cipher draws. -/
def createQChatMessage (establish : Method Node Exn Unit) (nonce : Bytes)
    (user plaintext : String) : Method Node Exn Message := do
  let stored ← (← .get).userDB.getMessageKey (.str user)
  if ¬ stored.truthy then establish
  let user_key ← (← .get).userDB.getMessageKey (.str user)
  let encoded ← Bytes.latin1 plaintext
  let (ciphertext, tag) ← cipher.encrypt user_key nonce encoded
  Message.ofDict .QCHTMessage self.name (cipherData nonce ciphertext tag)

/-- Sends a QChat Message containing the plaintext information to the specified user. -/
def sendQChatMessage (establish : Method Node Exn Unit) (wait : Node → Node) (nonce : Bytes)
    (user plaintext : String) : Method Node Exn Unit := do
  self.resolveUser wait user
  let message ← createQChatMessage self cipher establish nonce user plaintext
  .withObject message (self.sendMessage wait user)

/-- What the history shows of a message: the decrypted bytes of a chat message, the plaintext of
a superdense one. Other messages make the whole call raise. -/
def openMessage (userDB : UserDB) (qm : Message) : Except Exn Value := do
  if qm.cls = .QCHTMessage then
    let user_key ← userDB.getMessageKey (.str qm.sender)
    let nonce ← (← qm.data.item "nonce").encode
    let ciphertext ← (← qm.data.item "ciphertext").encode
    let tag ← (← qm.data.item "tag").encode
    let message ← cipher.decrypt user_key (nonce, ciphertext, tag)
    -- the result of `message.decode("ISO-8859-1")` is not used
    return .bytes message
  else if qm.cls = .SPDSMessage then qm.data.item "plaintext"
  else .error (.Exception "Got malformed message from mailbox")

/-- Appends what the history shows of each message to the list of its sender. -/
def collect (userDB : UserDB) : List Message → Dict String (List Value) →
    Except Exn (Dict String (List Value))
  | [], messages => .ok messages
  | qm :: rest, messages => do
    let message ← openMessage cipher userDB qm
    let shown := (messages.get? qm.sender).getD [] ++ [message]
    collect userDB rest (messages.set qm.sender shown)

/-- Returns the received message history stored in our mailbox for all users. -/
def getMessageHistory : Method Node Exn (Dict String (List Value)) := do
  let popped := (← .get).mailbox
  .modify fun node => { node with mailbox := [] }
  collect cipher (← .get).userDB popped Dict.empty

end QChatClient

namespace QChatCore

variable {self : QChatCore}

/-- The message that a processed one leaves in the mailbox is what is left of it
without its signature. -/
theorem process_message_stored {parsed message : Message} {node : Node}
    (stored : (self.process_message parsed node).2.mailbox = node.mailbox ++ [message]) :
    ∃ signature, _strip_signature parsed = .ok (message, signature) := by
  have grown {mailbox : List Message} (same : mailbox = mailbox ++ [message]) : False := by
    simpa using congrArg List.length same
  obtain ⟨asked, untouched, only | ⟨_, parked⟩ | ⟨_, went⟩⟩ :=
    self.process_message_effect node parsed
  · rw [only, untouched.mailbox] at stored
    exact (grown stored).elim
  · rw [parked] at stored
    exact (grown (untouched.mailbox.symm.trans stored)).elim
  · rw [went] at stored
    rw [← untouched.mailbox] at stored
    rcases self.process_known_effect asked parsed with same | ⟨_, _, _, became⟩ |
      ⟨admitted, passed, chosen, became⟩ | ⟨_, _, _, _, _, _, became⟩
    · rw [same.mailbox] at stored
      exact (grown stored).elim
    · rw [became] at stored
      exact (grown stored).elim
    · rw [became] at stored
      have same : admitted = message := by simpa using stored
      have verified : parsed.cls.verify = true :=
        (self.authenticate_cls passed).1 ▸ verify_of_handler (Or.inl chosen)
      subst same
      simp only [authenticate, verified, ↓reduceIte] at passed
      obtain ⟨⟨stripped, signature⟩, taken, passed⟩ := ok_of_bind passed
      dsimp only at passed
      split at passed
      · cases passed
        exact ⟨signature, taken⟩
      · obtain ⟨_, _, passed⟩ := ok_of_bind passed
        cases passed
        exact ⟨signature, taken⟩
    · rw [became] at stored
      exact (grown stored).elim

end QChatCore

/-- How a text is sent: encrypted, as a chat message, or with qubits, in which case the text
itself is stored at the receiver. -/
inductive Channel where
  | chat (nonce : Bytes)
  | superdense

/-- A text a client sends: the client as it is then, and the name it has for the receiver. The
nonce and the channel are those of this one call. -/
structure Send where
  peer : QChatCore.Peer
  user : String
  channel : Channel
  text : String

namespace QChatClient

variable (cipher : Cipher) (receiver : QChatCore)

/-- The text reaches the mailbox as this message: by `sendQChatMessage`, the frame it
sends, its reception and its processing; or by a superdense session that ends with
the bytes it was given. -/
def Arrives (send : Send) (message : Message) : Prop :=
  match send.channel with
  | .chat nonce => ∃ establish wait after host port frame parsed node,
      sendQChatMessage send.peer.core cipher establish wait nonce send.user send.text
        send.peer.node = (.ok (), after) ∧
      after.sent = send.peer.node.sent ++ [⟨host, port, frame⟩] ∧
      (∀ queue, Reception._handle_connection receiver.json ⟨frame, [], queue⟩ =
        (.ok (), ⟨[], [], queue ++ [parsed]⟩)) ∧
      (receiver.process_message parsed node).2.mailbox = node.mailbox ++ [message]
  | .superdense => ∃ content session node, Bytes.latin1 send.text = .ok content ∧
      session.user = send.peer.core.name ∧ session.protocol.isKeyProtocol = false ∧
      (QChatCore.conclude session content node).2.mailbox = node.mailbox ++ [message]

/-- The two clients read the same JSON, the sender's name fits a frame, and both
store the same key for each other. -/
structure Linked (node : Node) (send : Send) (key : Bytes) : Prop where
  json : receiver.json = send.peer.core.json
  faithful : receiver.json.Faithful
  carried : Message.Carried send.peer.core.name
  present : key ≠ []
  sends : send.peer.node.userDB.getMessageKey (.str send.user) = .ok (.bytes key)
  receives : node.userDB.getMessageKey (.str send.peer.core.name) = .ok (.bytes key)

variable {cipher receiver}

/-- A chat message is created under the stored key. -/
theorem createQChatMessage_keyed {self : QChatCore} {node : Node} {key : Bytes}
    (establish : Method Node Exn Unit) (nonce : Bytes) (user text : String) (present : key ≠ [])
    (stored : node.userDB.getMessageKey (.str user) = .ok (.bytes key)) :
    createQChatMessage self cipher establish nonce user text node = (do
      let encoded ← Bytes.latin1 text
      let (ciphertext, tag) ← cipher.encrypt (.bytes key) nonce encoded
      Message.ofDict .QCHTMessage self.name (cipherData nonce ciphertext tag), node) := by
  have truthy : (Value.bytes key).truthy = true := by
    simpa [Value.truthy] using present
  simp only [createQChatMessage, Method.get_bind, Method.compute_bind, stored, truthy,
    not_true_eq_false, ↓reduceIte]
  cases Bytes.latin1 text with
  | error exception => rfl
  | ok encoded =>
    simp only [ok_bind]
    cases cipher.encrypt (.bytes key) nonce encoded <;> rfl

theorem isJson_cipherData (nonce ciphertext tag : Bytes) :
    (Value.obj (cipherData nonce ciphertext tag)).IsJson := by
  refine .obj _ (by simp [cipherData]) fun entry member => ?_
  simp only [cipherData, List.mem_cons, List.not_mem_nil, or_false] at member
  rcases member with rfl | rfl | rfl
  · exact .str _
  · exact .str _
  · exact .str _

theorem cipherData_unsigned (nonce ciphertext tag : Bytes) :
    Dict.remove "sig" (cipherData nonce ciphertext tag) = cipherData nonce ciphertext tag :=
  Dict.remove_absent _ _ (by simp [cipherData])

/-- What has arrived by `sendQChatMessage`: the encryption of the text. -/
theorem arrives_chat {node : Node} {send : Send} {key nonce : Bytes} {message : Message}
    (linked : Linked receiver node send key) (channel : send.channel = .chat nonce)
    (arrives : Arrives cipher receiver send message) :
    ∃ content ciphertext tag, Bytes.latin1 send.text = .ok content ∧
      cipher.encrypt (.bytes key) nonce content = .ok (ciphertext, tag) ∧
      Message.ofDict .QCHTMessage send.peer.core.name (cipherData nonce ciphertext tag) =
        .ok message := by
  simp only [Arrives, channel] at arrives
  obtain ⟨establish, wait, after, host, port, frame, parsed, at', sent, framed, received, stored⟩ :=
    arrives
  have known := UserDB.hasUser_of_getField linked.sends
  rw [sendQChatMessage, Method.bind_of_ok (send.peer.core.resolveUser_known wait known),
    Method.bind_apply, createQChatMessage_keyed establish nonce send.user send.text linked.present
      linked.sends] at sent
  dsimp only at sent
  cases encoded : Bytes.latin1 send.text with
  | error exception => rw [encoded] at sent; cases sent
  | ok content =>
    cases encrypted : cipher.encrypt (.bytes key) nonce content with
    | error exception => simp only [encoded, ok_bind, encrypted, error_bind] at sent; cases sent
    | ok sealed =>
      obtain ⟨ciphertext, tag⟩ := sealed
      cases made : Message.ofDict .QCHTMessage send.peer.core.name
          (cipherData nonce ciphertext tag) with
      | error exception => simp only [encoded, ok_bind, encrypted, made] at sent; cases sent
      | ok created =>
        simp only [encoded, ok_bind, encrypted, made, Method.withObject] at sent
        refine ⟨content, ciphertext, tag, rfl, encrypted, ?_⟩
        obtain ⟨cls, sender, data⟩ := Message.of_ofDict made
        rcases run : send.peer.core.sendMessage wait send.user (send.peer.node, created) with
          ⟨result, left, object⟩
        rw [run] at sent
        obtain ⟨rfl, rfl⟩ := Prod.mk.inj sent
        obtain ⟨_, _, _, signedFrame, _, signs, signedFramed, rfl⟩ := send.peer.core.sendMessage_ok run
        obtain rfl : signedFrame = frame := by
          have last := congrArg List.getLast? framed
          simp only [List.getLast?_concat, Option.some.injEq, Frame.mk.injEq] at last
          exact last.2.2
        obtain ⟨plainFrame, plain, _⟩ := ok_of_bind signs
        cases (send.peer.core.sign_message_ok data plain).symm.trans signs
        have valid := send.peer.core.isJson_withSig (isJson_cipherData nonce ciphertext tag) plainFrame
        have carried : Message.Carried (created.withData (.obj (send.peer.core.withSig plainFrame
            (cipherData nonce ciphertext tag)))).sender := sender ▸ linked.carried
        have parses := Message.handle_connection_frame linked.faithful valid carried
          (linked.json ▸ signedFramed) []
        rw [received []] at parses
        have same : parsed = created.withData (.obj (send.peer.core.withSig plainFrame
            (cipherData nonce ciphertext tag))) := by
          simpa using congrArg (fun outcome => outcome.2.message_queue) parses
        obtain ⟨signature, stripped⟩ := QChatCore.process_message_stored stored
        rw [same, QChatCore.strip_signed, cipherData_unsigned, ← data] at stripped
        have arrived : created = message := congrArg Prod.fst (Except.ok.inj stripped)
        exact arrived ▸ made

/-- The history shows an arrived message as the bytes of its text. -/
theorem openMessage_arrived (lawful : cipher.Lawful) {node : Node} {send : Send} {key : Bytes}
    {message : Message} (linked : Linked receiver node send key)
    (arrives : Arrives cipher receiver send message) :
    message.sender = send.peer.core.name ∧ ∃ content, Bytes.latin1 send.text = .ok content ∧
      openMessage cipher node.userDB message = .ok (.bytes content) := by
  cases channel : send.channel with
  | chat nonce =>
    obtain ⟨content, ciphertext, tag, encoded, encrypted, made⟩ :=
      arrives_chat linked channel arrives
    obtain ⟨cls, sender, data⟩ := Message.of_ofDict made
    have opened := lawful.decrypt_encrypt _ _ _ _ _ encrypted
    have nonceItem : message.data.item "nonce" = .ok (.str (Bytes.latin1Text nonce)) := by
      rw [data]
      simp [cipherData]
    have ciphertextItem : message.data.item "ciphertext" =
        .ok (.str (Bytes.latin1Text ciphertext)) := by
      rw [data]
      simp [cipherData, Value.item, Dict.lookup]
    have tagItem : message.data.item "tag" = .ok (.str (Bytes.latin1Text tag)) := by
      rw [data]
      simp [cipherData, Value.item, Dict.lookup]
    refine ⟨sender, content, encoded, ?_⟩
    simp only [openMessage, cls, ↓reduceIte, sender, linked.receives, nonceItem, ciphertextItem,
      tagItem, Value.encode, Bytes.latin1_latin1Text, ok_bind, opened, pure_ok]
  | superdense =>
    simp only [Arrives, channel] at arrives
    obtain ⟨content, session, at', encoded, owner, carries, stored⟩ := arrives
    simp only [QChatCore.conclude, carries, Bool.false_eq_true, ↓reduceIte, Method.compute_bind]
      at stored
    cases made : Message.ofDict .SPDSMessage session.user [("plaintext", .bytes content)] with
    | error exception =>
      simp only [made] at stored
      exact absurd (congrArg List.length stored) (by simp)
    | ok arrived =>
      obtain ⟨cls, sender, data⟩ := Message.of_ofDict made
      simp only [made, QChatCore.storeMessage, Method.modify_apply] at stored
      obtain rfl : arrived = message := by simpa using stored
      refine ⟨sender.trans owner, content, encoded, ?_⟩
      have other : ¬ MessageClass.SPDSMessage = .QCHTMessage := by decide
      simp only [openMessage, cls, if_neg other, ↓reduceIte, data, Value.item_single]

/-- The values listed for a sender, if there are any: a sender without a message has no
entry. -/
def grouped (shown : List (String × Value)) (sender : String) : Option (List Value) :=
  let values := (shown.filter (fun entry => entry.1 = sender)).map Prod.snd
  if values = [] then none else some values

/-- The history maps exactly the senders with messages to what it shows of these, in
mailbox order. -/
theorem collect_grouped (userDB : UserDB) (mailbox : List Message) (shown : List (String × Value))
    (opens : List.Forall₂ (fun (message : Message) entry => message.sender = entry.1 ∧
      openMessage cipher userDB message = .ok entry.2) mailbox shown)
    (earlier : List (String × Value)) (messages : Dict String (List Value))
    (collected : ∀ sender, messages.get? sender = grouped earlier sender) :
    ∃ history, collect cipher userDB mailbox messages = .ok history ∧
      ∀ sender, history.get? sender = grouped (earlier ++ shown) sender := by
  induction opens generalizing earlier messages with
  | nil => exact ⟨messages, rfl, by simpa using collected⟩
  | @cons message entry mailbox shown opened rest inductionHypothesis =>
    obtain ⟨sender, value⟩ := entry
    obtain ⟨owner, opened⟩ := opened
    dsimp only at owner opened
    have extended : ∀ other,
        (messages.set message.sender ((messages.get? message.sender).getD [] ++ [value])).get? other =
          grouped (earlier ++ [(sender, value)]) other := by
      intro other
      rw [Dict.get?_set, owner, collected]
      by_cases same : other = sender
      · subst same
        rw [if_pos rfl]
        simp only [grouped, List.filter_append, List.map_append]
        by_cases none : ((earlier.filter (fun entry => entry.1 = other)).map Prod.snd) = []
        · simp [none]
        · simp [none]
      · have kept : (earlier ++ [(sender, value)]).filter (fun entry => decide (entry.1 = other)) =
            earlier.filter (fun entry => decide (entry.1 = other)) := by
          simp [List.filter_append, Ne.symm same]
        rw [if_neg same, collected]
        simp only [grouped, kept]
    obtain ⟨history, collects, listed⟩ := inductionHypothesis _ _ extended
    refine ⟨history, ?_, fun other => ?_⟩
    · simp only [collect, opened, ok_bind, collects]
    · rw [listed other, List.append_assoc, List.singleton_append]

/-- The bytes of a text whose characters have one byte each, as the sender encodes it. -/
def encoding (text : String) : Bytes := text.toList.map (fun char => UInt8.ofNat char.toNat)

theorem latin1_encoding {text : String} {content : Bytes}
    (encoded : Bytes.latin1 text = .ok content) : content = encoding text := by
  unfold Bytes.latin1 at encoded
  split at encoded
  · exact (Except.ok.inj encoded).symm
  · cases encoded

/-- Every sender with messages has the list of the texts it sent, in mailbox order;
nobody else has a list. -/
def Restored (sends : List Send) (history : Dict String (List Value)) : Prop :=
  ∀ sender, history.get? sender =
    grouped (sends.map fun send => (send.peer.core.name, .str send.text)) sender

/-- What the history lists: the bytes of each text. -/
def shown (sends : List Send) : List (String × Value) :=
  sends.map fun send => (send.peer.core.name, .bytes (encoding send.text))

/-- Lists of bytes are no lists of texts, unless there is nothing to list. -/
theorem restored_iff {sends : List Send} {history : Dict String (List Value)}
    (listed : ∀ sender, history.get? sender = grouped (shown sends) sender) :
    Restored sends history ↔ sends = [] := by
  constructor
  · intro restored
    cases sends with
    | nil => rfl
    | cons send sends =>
      have both := (listed send.peer.core.name).symm.trans (restored send.peer.core.name)
      simp [grouped, shown] at both
  · rintro rfl
    exact listed

/-- The history lists what has arrived. -/
theorem getMessageHistory_shown (lawful : cipher.Lawful) (node : Node) (sends : List Send)
    (linked : ∀ send ∈ sends, ∃ key, Linked receiver node send key)
    (arrived : List.Forall₂ (Arrives cipher receiver) sends node.mailbox) :
    ∃ history, getMessageHistory cipher node = (.ok history, { node with mailbox := [] }) ∧
      ∀ sender, history.get? sender = grouped (shown sends) sender := by
  have opens : List.Forall₂ (fun (message : Message) (entry : String × Value) =>
      message.sender = entry.1 ∧ openMessage cipher node.userDB message = .ok entry.2)
      node.mailbox (shown sends) := by
    generalize node.mailbox = mailbox at arrived ⊢
    induction arrived with
    | nil => exact .nil
    | @cons send message sends mailbox arrives rest inductionHypothesis =>
      obtain ⟨key, link⟩ := linked send List.mem_cons_self
      obtain ⟨sender, content, encoded, opened⟩ := openMessage_arrived lawful link arrives
      rw [latin1_encoding encoded] at opened
      exact .cons ⟨sender, opened⟩
        (inductionHypothesis fun other member => linked other (List.mem_cons_of_mem _ member))
  obtain ⟨history, collects, listed⟩ :=
    collect_grouped node.userDB node.mailbox (shown sends) opens [] Dict.empty fun _ => rfl
  refine ⟨history, ?_, listed⟩
  simp only [getMessageHistory, Method.get_bind, Method.modify_bind, Method.compute_apply, collects]

/-- A text that can be encoded, encrypted and framed arrives at a client that has the
sender's public key. -/
theorem chat_arrives {send : Send} {nonce content ciphertext tag frame : Bytes} {key : Bytes}
    {peer : QChatCore.Peer} {host port : Value} {message : Message} {node : Node}
    (channel : send.channel = .chat nonce) (linked : Linked peer.core node send key)
    (client : peer.core.role = .QChatClient)
    (encoded : Bytes.latin1 send.text = .ok content)
    (encrypted : cipher.encrypt (.bytes key) nonce content = .ok (ciphertext, tag))
    (made : Message.ofDict .QCHTMessage send.peer.core.name (cipherData nonce ciphertext tag) =
      .ok message)
    (holds : send.peer.core.Holds message.sender peer) (correct : send.peer.core.SignaturesVerify)
    (addressed : QChatCore.Addressed send.peer.node send.user host port)
    (framed : message.encode_message send.peer.core.json = .ok frame)
    (fits : QChatCore.Fits send.peer.core.json
      (.obj (send.peer.core.withSig frame (cipherData nonce ciphertext tag)))) :
    Arrives cipher peer.core send message := by
  obtain ⟨cls, sender, data⟩ := Message.of_ofDict made
  have fresh : Dict.lookup "sig" (cipherData nonce ciphertext tag) = none :=
    Dict.lookup_of_remove_same _ _ (cipherData_unsigned nonce ciphertext tag)
  have delivered : send.peer.core.Delivers id peer send.user send.peer.node message message :=
    QChatCore.delivers_fresh (linked.json ▸ linked.faithful) holds correct (addressed.resolves id)
      (by rw [cls]; rfl) (sender ▸ linked.carried) data (isJson_cipherData nonce ciphertext tag) fresh
      framed fits
  obtain ⟨found, sentHost, sentPort, sent, after, parsed, sends, received, _, processed⟩ := delivered
  have known := UserDB.hasUser_of_getField linked.sends
  obtain ⟨ready, _, _, _, resolves, _, _, left⟩ := send.peer.core.sendMessage_ok sends
  obtain rfl : send.peer.node = ready :=
    congrArg Prod.snd ((send.peer.core.resolveUser_known id known).symm.trans resolves.1)
  simp only [Arrives, channel]
  refine ⟨.raise .TypeError, id, { found with sent := found.sent ++ [⟨sentHost, sentPort, sent⟩] },
    sentHost, sentPort, sent, parsed, peer.node, ?_, ?_, received, ?_⟩
  · rw [sendQChatMessage, Method.bind_of_ok (send.peer.core.resolveUser_known id known),
      Method.bind_apply, createQChatMessage_keyed _ nonce send.user send.text linked.present
        linked.sends]
    simp only [encoded, ok_bind, encrypted, made, Method.withObject, sends]
  · have queues : found.sent ++ [⟨sentHost, sentPort, sent⟩] = send.peer.node.sent ++ [_] :=
      congrArg Node.sent left
    have same := (List.append_inj' queues rfl).1
    rw [same]
  · rw [processed, cls, client]
    rfl

/-- However the messages were sent and in whatever order they arrived, the history lists the
bytes of each text under its sender; so it gives the texts back only if there are none.

Proof: every message that has arrived is opened with the key of its sender and gives the
encoding of its text. The history groups these by senders in the order of the mailbox, and bytes
are never equal to a text. -/
theorem chat_history (lawful : cipher.Lawful) (node : Node) (sends : List Send)
    (linked : ∀ send ∈ sends, ∃ key, Linked receiver node send key)
    (arrived : List.Forall₂ (Arrives cipher receiver) sends node.mailbox) :
    ∃ history, getMessageHistory cipher node = (.ok history, { node with mailbox := [] }) ∧
      (∀ sender, history.get? sender = grouped (shown sends) sender) ∧
      (Restored sends history ↔ sends = []) := by
  obtain ⟨history, returned, listed⟩ := getMessageHistory_shown lawful node sends linked arrived
  exact ⟨history, returned, listed, restored_iff listed⟩

end QChatClient

def sampleKey : Bytes := List.replicate 16 7

def sampleNonce : Bytes := List.replicate 16 1

/-- What AES-GCM makes of the bytes of `hi` under the sample key and nonce. -/
def sampleSealed : Bytes × Bytes :=
  ([203, 89], [132, 141, 149, 189, 194, 84, 100, 37, 96, 217, 180, 171, 108, 182, 24, 98])

/-- The nonce of a second message. -/
def nextNonce : Bytes := List.replicate 16 2

/-- What AES-GCM makes of the bytes of `hi` under the sample key and the next nonce. -/
def nextSealed : Bytes × Bytes :=
  ([61, 155], [223, 161, 49, 166, 222, 12, 83, 91, 225, 202, 124, 143, 95, 33, 185, 58])

/-- Whether a stored key is the sample key. -/
def isSampleKey : Value → Bool
  | .bytes key => key = sampleKey
  | _ => false

/-- AES-GCM on what is encrypted here; everything else is refused. -/
def sampleCipher : Cipher where
  encrypt := fun key nonce plaintext =>
    if isSampleKey key ∧ nonce = sampleNonce ∧ plaintext = [104, 105] then .ok sampleSealed
    else if isSampleKey key ∧ nonce = nextNonce ∧ plaintext = [104, 105] then .ok nextSealed
    else .error .ValueError
  decrypt := fun key (nonce, ciphertext, tag) =>
    if isSampleKey key ∧ nonce = sampleNonce ∧ (ciphertext, tag) = sampleSealed then
      .ok [104, 105]
    else if isSampleKey key ∧ nonce = nextNonce ∧ (ciphertext, tag) = nextSealed then
      .ok [104, 105]
    else .error .ValueError

theorem sampleCipher_lawful : sampleCipher.Lawful where
  decrypt_encrypt := by
    intro key nonce plaintext ciphertext tag encrypted
    simp only [sampleCipher] at encrypted ⊢
    split at encrypted
    · next sample =>
      obtain ⟨keyed, rfl, rfl⟩ := sample
      rw [if_pos ⟨keyed, rfl, (Except.ok.inj encrypted).symm⟩]
    · split at encrypted
      · next sample =>
        obtain ⟨keyed, rfl, rfl⟩ := sample
        have other : ¬ nextNonce = sampleNonce := by decide
        rw [if_neg fun first => other first.2.1,
          if_pos ⟨keyed, rfl, (Except.ok.inj encrypted).symm⟩]
      · cases encrypted

/-- A client with a constant signature. -/
def chatSigner : QChatCore :=
  { sampleSigner with
    sign := fun _ => [0]
    verify := fun _ _ signature => .ok (decide (signature = [0])) }

/-- A client that shares a key with another one, and where it reaches it. -/
def chatSender : QChatCore.Peer where
  core := chatSigner
  node :=
    let connection := Value.obj [("host", .str "localhost"), ("port", .num 8001)]
    let info := Dict.ofList [("connection", connection), ("message_key", .bytes sampleKey)]
    { chatSigner.boot with userDB := chatSigner.boot.userDB.addUser (.str "bob") info }

/-- The other one, which has the public key from the registry's answer. -/
def chatReceiver : QChatCore.Peer where
  core := { chatSigner with name := "bob", port := .num 8001, pub := [2] }
  node :=
    let bob : QChatCore := { chatSigner with name := "bob", port := .num 8001, pub := [2] }
    let connection := Value.obj [("host", .str "localhost"), ("port", .num 8000)]
    let info := Dict.ofList [("connection", connection), ("pub", pubText [1]),
      ("message_key", .bytes sampleKey)]
    { bob.boot with userDB := bob.boot.userDB.addUser (.str "alice") info }

def chatText : Send := ⟨chatSender, "bob", .chat sampleNonce, "hi"⟩

def chatMessage : Message :=
  let (ciphertext, tag) := sampleSealed
  ⟨.QCHTMessage, "alice", .obj (QChatClient.cipherData sampleNonce ciphertext tag), alice_short⟩

/-- The other client with the text in its mailbox. -/
def chatNode : Node := { chatReceiver.node with mailbox := [chatMessage] }

/-- Either client stores the key for the other. -/
theorem chat_keys : chatSender.node.userDB.stored (.str "bob") "message_key" = some (.bytes sampleKey) ∧
    chatReceiver.node.userDB.stored (.str "alice") "message_key" = some (.bytes sampleKey) := by
  constructor
  · rw [chatSender, UserDB.stored_addUser, if_pos rfl]
    simp [Dict.ofList]
  · rw [chatReceiver, UserDB.stored_addUser, if_pos rfl]
    simp [Dict.ofList]

theorem chatText_linked : QChatClient.Linked chatReceiver.core chatNode chatText sampleKey where
  json := rfl
  faithful := json_faithful
  carried := ⟨by decide, by decide, by decide⟩
  present := by decide
  sends := UserDB.getField_stored chat_keys.1
  receives := UserDB.getField_stored chat_keys.2

theorem chatReceiver_holds : chatSigner.Holds "alice" chatReceiver where
  json := rfl
  verify := rfl
  checks := rfl
  pub := by
    refine ⟨pubText [1], UserDB.getField_stored ?_, .inr rfl⟩
    rw [chatReceiver, UserDB.stored_addUser, if_pos rfl]
    simp [Dict.ofList, Dict.get?_set]

theorem chatSender_addressed :
    QChatCore.Addressed chatSender.node "bob" (.str "localhost") (.num 8001) := by
  have stored : chatSender.node.userDB.stored (.str "bob") "connection" =
      some (.obj [("host", .str "localhost"), ("port", .num 8001)]) := by
    rw [chatSender, UserDB.stored_addUser, if_pos rfl]
    simp [Dict.ofList, Dict.get?_set]
  refine ⟨UserDB.hasUser_of_stored (by rw [stored]; simp), _, UserDB.getField_stored stored, ?_, ?_⟩
  · simp [Value.item, Dict.lookup]
  · simp [Value.item, Dict.lookup]

/-- The text arrives. -/
theorem chatText_arrives :
    QChatClient.Arrives sampleCipher chatReceiver.core chatText chatMessage := by
  have encoded : Bytes.latin1 chatText.text = .ok [104, 105] := by decide
  obtain ⟨text, dumped, fits⟩ : ∃ text, json.dumps chatMessage.data = .ok text ∧
      (Bytes.utf8 text).length < 2 ^ 32 := ⟨_, rfl, by decide +kernel⟩
  have framed := chatMessage.encode_message_ok dumped fits
  have holds : chatText.peer.core.Holds chatMessage.sender chatReceiver := chatReceiver_holds
  refine QChatClient.chat_arrives rfl chatText_linked rfl encoded rfl rfl holds (fun _ _ _ => rfl)
    chatSender_addressed framed ?_
  intro signedText signed
  cases signed
  -- the signature does not depend on the frame
  change (Bytes.utf8 (String.ofList (Json.write (.obj (Dict.assign "sig"
    (.str (Bytes.latin1Text [0])) (QChatClient.cipherData sampleNonce sampleSealed.1
      sampleSealed.2)))))).length < 2 ^ 32
  decide +kernel

theorem chatNode_arrived :
    List.Forall₂ (QChatClient.Arrives sampleCipher chatReceiver.core) [chatText] chatNode.mailbox :=
  .cons chatText_arrives .nil

theorem chatText_only : ∀ send ∈ [chatText], ∃ key,
    QChatClient.Linked chatReceiver.core chatNode send key := by
  intro send member
  rw [List.mem_singleton.mp member]
  exact ⟨sampleKey, chatText_linked⟩

/-- One text sent and arrived: the history does not give it back. -/
theorem text_not_restored :
    sampleCipher.Lawful ∧
      (∀ send ∈ [chatText], ∃ key, QChatClient.Linked chatReceiver.core chatNode send key) ∧
      List.Forall₂ (QChatClient.Arrives sampleCipher chatReceiver.core) [chatText]
        chatNode.mailbox ∧
      ¬ ∃ history, QChatClient.getMessageHistory sampleCipher chatNode =
          (.ok history, { chatNode with mailbox := [] }) ∧
        QChatClient.Restored [chatText] history := by
  refine ⟨sampleCipher_lawful, chatText_only, chatNode_arrived, ?_⟩
  rintro ⟨history, returned, restored⟩
  obtain ⟨listing, listed, shown⟩ := QChatClient.getMessageHistory_shown sampleCipher_lawful chatNode
    [chatText] chatText_only chatNode_arrived
  obtain rfl : listing = history := by
    simpa using congrArg Prod.fst (listed.symm.trans returned)
  cases (QChatClient.restored_iff shown).mp restored

theorem chat_history_one_text : ∃ history,
    QChatClient.getMessageHistory sampleCipher chatNode =
      (.ok history, { chatNode with mailbox := [] }) ∧
    (∀ sender, history.get? sender =
      QChatClient.grouped (QChatClient.shown [chatText]) sender) ∧
    (QChatClient.Restored [chatText] history ↔ [chatText] = []) :=
  QChatClient.chat_history sampleCipher_lawful chatNode [chatText] chatText_only chatNode_arrived

end QChat
