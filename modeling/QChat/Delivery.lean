import QChat.Authenticity
import QChat.Chat
import QChat.Grammar

/-!
# Delivery of chat messages

A chat message crosses two hand-offs on its way to the mailbox. Every connection
has a handler of its own, which appends the message to the inbound queue. The
reader takes messages from the head of the queue and forks a thread for each, which
processes it. Handlers and threads finish in any order.

No chat message is lost or doubled on this way. Their order is that in which the
threads store them, which is the order of sending if each message is stored before
the next one of its sender is sent.
-/

namespace QChat

/-- A connection whose handler has not finished: the bytes that are sent, and the limits on the
reads. A handler is one step, as it shares nothing with others before it appends its message. -/
structure Inbound where
  frame : Bytes
  limits : List Nat

/-- The messages a connection brings. -/
def Inbound.received (json : JsonCodec) (connection : Inbound) : List Message :=
  (Reception._handle_connection json ⟨connection.frame, connection.limits, []⟩).2.message_queue

/-- A client as it receives. `sent` are the chat messages that a sender has sent to it,
`threads` the messages that are being processed. -/
structure Receiver where
  sent : List Message
  handlers : List Inbound
  message_queue : List Message
  threads : List Message
  node : Node

/-- A message is one of the chat messages of a sender, by its class and the name it carries. -/
def ChatOf (name : String) (message : Message) : Prop :=
  message.cls = .QCHTMessage ∧ message.sender = name

instance (name : String) : DecidablePred (ChatOf name) := fun _ =>
  inferInstanceAs (Decidable (_ ∧ _))

/-- What the sender has signed, if the message is one of its chat messages. -/
def signedChat (name : String) (received : Message) : Option Message :=
  if ChatOf name received then
    match _strip_signature received with
    | .ok (message, _) => some message
    | .error _ => none
  else none

theorem signedChat_some {name : String} {received message : Message}
    (signed : signedChat name received = some message) :
    ChatOf name message := by
  unfold signedChat at signed
  split at signed
  · next chat =>
    split at signed
    · next signature stripped =>
      cases signed
      obtain ⟨cls, sender⟩ := QChatCore.strip_signature_cls stripped
      exact ⟨cls.trans chat.1, sender.trans chat.2⟩
    · cases signed
  · cases signed

theorem signedChat_of_strip {name : String} {received message : Message} {signature : Bytes}
    (chat : ChatOf name message) (stripped : _strip_signature received = .ok (message, signature)) :
    signedChat name received = some message := by
  obtain ⟨cls, sender⟩ := QChatCore.strip_signature_cls stripped
  have same : ChatOf name received := ⟨cls ▸ chat.1, sender ▸ chat.2⟩
  rw [signedChat, if_pos same, stripped]

/-- A client that sends chat messages to another one. The receiver starts with the
sender's public key, in bytes or as the registry's answer brings it, an empty mailbox and
no message that waits for the registry. -/
structure ChatLink where
  sender : QChatCore
  receiver : QChatCore
  cipher : Cipher
  start : Node
  json : receiver.json = sender.json
  faithful : sender.json.Faithful
  carried : Message.Carried sender.name
  client : receiver.role = .QChatClient
  checks : receiver.allow_invalid_signatures = false
  verify : receiver.verify = sender.verify
  correct : sender.SignaturesVerify
  known : start.userDB.HasPublicKey (.str sender.name) sender.pub
  empty : start.mailbox = []
  settled : start.resolving = []

namespace QChatClient

variable {self : QChatCore} {cipher : Cipher}

/-- A chat message that was created was encrypted under the key that is stored then. -/
theorem createQChatMessage_ok {establish : Method Node Exn Unit} {nonce : Bytes}
    {user text : String} {node ready : Node} {message : Message}
    (created : createQChatMessage self cipher establish nonce user text node =
      (.ok message, ready)) :
    ∃ user_key encoded ciphertext tag, ready.userDB.getMessageKey (.str user) = .ok user_key ∧
      Bytes.latin1 text = .ok encoded ∧
      cipher.encrypt user_key nonce encoded = .ok (ciphertext, tag) ∧
      Message.ofDict .QCHTMessage self.name (cipherData nonce ciphertext tag) = .ok message := by
  have keyed (middle : Node)
      (rest : (do
        let user_key ← (← Method.get).userDB.getMessageKey (.str user)
        let encoded ← Bytes.latin1 text
        let sealed ← cipher.encrypt user_key nonce encoded
        Message.ofDict .QCHTMessage self.name (cipherData nonce sealed.1 sealed.2) :
          Method Node Exn Message) middle = (.ok message, ready)) :
      ∃ user_key encoded ciphertext tag, ready.userDB.getMessageKey (.str user) = .ok user_key ∧
        Bytes.latin1 text = .ok encoded ∧
        cipher.encrypt user_key nonce encoded = .ok (ciphertext, tag) ∧
        Message.ofDict .QCHTMessage self.name (cipherData nonce ciphertext tag) = .ok message := by
    simp only [Method.get_bind, Method.compute_bind] at rest
    cases stored : middle.userDB.getMessageKey (.str user) with
    | error exception => rw [stored] at rest; cases rest
    | ok user_key =>
      cases written : Bytes.latin1 text with
      | error exception => simp only [stored, written] at rest; cases rest
      | ok encoded =>
        cases encrypted : cipher.encrypt user_key nonce encoded with
        | error exception => simp only [stored, written, encrypted] at rest; cases rest
        | ok sealed =>
          simp only [stored, written, encrypted] at rest
          obtain ⟨made, same⟩ := Prod.mk.inj rest
          subst same
          exact ⟨user_key, encoded, sealed.1, sealed.2, stored, rfl, encrypted, made⟩
  simp only [createQChatMessage, Method.get_bind, Method.compute_bind] at created
  cases stored : node.userDB.getMessageKey (.str user) with
  | error exception => rw [stored] at created; cases created
  | ok user_key =>
    simp only [stored] at created
    split at created
    · rw [Method.bind_apply] at created
      split at created
      · exact keyed _ created
      · cases created
    · exact keyed node created

/-- A call of `sendQChatMessage` that returns has signed the message it created and has
sent it last. -/
theorem sendQChatMessage_ok {establish : Method Node Exn Unit} {wait : Node → Node}
    {nonce : Bytes} {user text : String} {before after : Node} {message : Message}
    (returned : sendQChatMessage self cipher establish wait nonce user text before =
      (.ok (), after))
    (created : (createQChatMessage self cipher establish nonce user text
      (self.resolveUser wait user before).2).1 = .ok message) :
    ∃ ciphertext tag host port plain frame earlier,
      Message.ofDict .QCHTMessage self.name (cipherData nonce ciphertext tag) = .ok message ∧
      message.encode_message self.json = .ok plain ∧
      (message.withData (.obj (self.withSig plain (cipherData nonce ciphertext tag)))).encode_message
        self.json = .ok frame ∧
      after.sent = earlier ++ [⟨host, port, frame⟩] := by
  rw [sendQChatMessage, Method.bind_apply] at returned
  split at returned
  · rcases called : createQChatMessage self cipher establish nonce user text
      (self.resolveUser wait user before).2 with ⟨outcome, ready⟩
    rw [called] at created
    obtain rfl : outcome = .ok message := created
    rw [Method.bind_of_ok called] at returned
    obtain ⟨user_key, encoded, ciphertext, tag, stored, -, -, made⟩ := createQChatMessage_ok called
    rcases run : self.sendMessage wait user (ready, message) with ⟨result, left, object⟩
    simp only [Method.withObject, run] at returned
    obtain ⟨rfl, rfl⟩ := Prod.mk.inj returned
    obtain ⟨_, host, port, frame, -, signs, framed, same⟩ := self.sendMessage_ok run
    obtain ⟨-, -, data⟩ := Message.of_ofDict made
    obtain ⟨plain, encodes, -⟩ := ok_of_bind signs
    cases (self.sign_message_ok data encodes).symm.trans signs
    exact ⟨ciphertext, tag, host, port, plain, frame, _, made, encodes, framed,
      congrArg Node.sent same⟩
  · cases returned

end QChatClient

namespace QChatCore

variable {self : QChatCore} {node after : Node} {event : Event}

/-- A step that processes no signed chat message of a sender, and does not empty the
mailbox, leaves the sender's chat messages there as they are. -/
theorem Gate.chats_kept {name : String} (gate : self.Gate node event after)
    (unread : event ≠ .popMessages)
    (others : ∀ received, Processes node event received → signedChat name received = none) :
    after.mailbox.filter (ChatOf name) = node.mailbox.filter (ChatOf name) := by
  rcases gate.mailbox with same | ⟨emptied, _⟩ | ⟨message, grown, reason⟩
  · rw [same]
  · exact absurd emptied unread
  · have foreign : ¬ ChatOf name message := by
      intro chat
      rcases reason with ⟨received, processes, signed, _, _⟩ | ⟨_, _, _, _, _, _, cls, _⟩
      · obtain ⟨signature, _, _, stripped, _⟩ := signed
        have found := signedChat_of_strip chat stripped
        rw [others received processes] at found
        cases found
      · have wrong := chat.1
        rw [cls] at wrong
        cases wrong
    rw [grown, List.filter_append, List.filter_singleton, decide_eq_false foreign]
    exact List.append_nil _

end QChatCore

namespace ChatLink

variable (link : ChatLink)

/-- The receiver has the sender's public key, in either form, so it can verify what the sender
signs. -/
def Knows (node : Node) : Prop :=
  node.userDB.HasPublicKey (.str link.sender.name) link.sender.pub

/-- The chat messages of the sender in the mailbox. -/
def stored (state : Receiver) : List Message := state.node.mailbox.filter (ChatOf link.sender.name)

/-- The chat messages of the sender that a connection brings: what its handler appends, with the
signatures taken off. -/
def brought (connection : Inbound) : List Message :=
  (connection.received link.receiver.json).filterMap (signedChat link.sender.name)

/-- The chat messages of the sender that are on their way to the mailbox. -/
def underWay (state : Receiver) : List Message :=
  state.handlers.flatMap link.brought ++
    state.message_queue.filterMap (signedChat link.sender.name) ++
    state.threads.filterMap (signedChat link.sender.name)

/-- A call of `sendQChatMessage` returns that has made this message and sent this frame. -/
def Sends (message : Message) (frame : Bytes) : Prop :=
  ∃ establish wait nonce user text before after earlier host port,
    QChatClient.sendQChatMessage link.sender link.cipher establish wait nonce user text before =
      (.ok (), after) ∧
    (QChatClient.createQChatMessage link.sender link.cipher establish nonce user text
      (link.sender.resolveUser wait user before).2).1 = .ok message ∧
    after.sent = earlier ++ [⟨host, port, frame⟩]

/-- One step of the receiver, or of the clients that send to it. Others send anything
but chat messages in the sender's name. The mailbox is not emptied. -/
inductive Step : Receiver → Receiver → Prop where
  | send (state : Receiver) (message : Message) (frame : Bytes) (limits : List Nat)
      (sends : link.Sends message frame) (whole : Reception.Whole limits) :
      Step state { state with
        sent := state.sent ++ [message]
        handlers := state.handlers ++ [⟨frame, limits⟩] }
  | connect (state : Receiver) (connection : Inbound) (others : link.brought connection = []) :
      Step state { state with handlers := state.handlers ++ [connection] }
  | handle (state : Receiver) (before after : List Inbound) (connection : Inbound)
      (running : state.handlers = before ++ connection :: after) :
      Step state { state with
        handlers := before ++ after
        message_queue := (Reception._handle_connection link.receiver.json
          ⟨connection.frame, connection.limits, state.message_queue⟩).2.message_queue }
  | read_from_connection (state : Receiver) (message : Message) (others : List Message)
      (queued : state.message_queue = message :: others) :
      Step state { state with
        message_queue := others
        threads := state.threads ++ [message] }
  | process (state : Receiver) (before after : List Message) (message : Message)
      (forked : state.threads = before ++ message :: after) :
      Step state { state with
        threads := before ++ after
        node := (link.receiver.process_message message state.node).2 }
  | node (state : Receiver) (event : Event) (after : Node)
      (inside : ∀ message, event ≠ .inbound message) (unread : event ≠ .popMessages)
      (stepped : link.receiver.Step state.node event after) :
      Step state { state with node := after }

/-- The receiver before anything is sent. -/
def initial : Receiver := ⟨[], [], [], [], link.start⟩

/-- A run in which the receiver keeps the sender's public key. An answer that names another key
could overwrite it. -/
abbrev Reaches (state : Receiver) : Prop :=
  Relation.ReflTransGen (fun before after => link.Step before after ∧ link.Knows after.node)
    link.initial state

/-- A run in which moreover each message is stored before the next one is sent. -/
abbrev ReachesInTurn (state : Receiver) : Prop :=
  Relation.ReflTransGen (fun before after => (link.Step before after ∧ link.Knows after.node) ∧
    (after.sent = before.sent ∨ link.underWay before = [])) link.initial state

/-- All that was sent is processed. -/
def Quiet (state : Receiver) : Prop :=
  state.handlers = [] ∧ state.message_queue = [] ∧ state.threads = []

variable {link}

/-- Where the receiver has the sender's key, the processing of the received message
stores what was signed. -/
def Genuine (link : ChatLink) (received message : Message) : Prop :=
  ∀ node, link.Knows node → link.receiver.process_message received node =
    (.ok (), { node with mailbox := node.mailbox ++ [message] })

variable (link) in
/-- If the message is a chat message of the sender, it is as the sender signed it. -/
def Trusted (received : Message) : Prop :=
  ∀ message, signedChat link.sender.name received = some message → link.Genuine received message

variable (link) in
/-- The chat messages on their way are as the sender signed them, and the receiver can verify
them, wherever they are: in a connection, in the queue, or at a thread that has not processed
them. None of them waits for the registry. -/
structure Sound (state : Receiver) : Prop where
  knows : link.Knows state.node
  handlers : ∀ connection ∈ state.handlers,
    ∀ received ∈ connection.received link.receiver.json, link.Trusted received
  queued : ∀ received ∈ state.message_queue, link.Trusted received
  forked : ∀ received ∈ state.threads, link.Trusted received
  resolving : ∀ received ∈ state.node.resolving, signedChat link.sender.name received = none

variable (link) in
/-- What a step does to the chat messages of the sender: nothing; one more is on its
way; or one that was on its way is stored. -/
inductive Moves (before after : Receiver) : Prop where
  | kept (sent : after.sent = before.sent) (stored : link.stored after = link.stored before)
      (underWay : (link.underWay after).Perm (link.underWay before))
  | sent (message : Message) (sent : after.sent = before.sent ++ [message])
      (stored : link.stored after = link.stored before)
      (underWay : (link.underWay after).Perm (link.underWay before ++ [message]))
  | stored (message : Message) (sent : after.sent = before.sent)
      (stored : link.stored after = link.stored before ++ [message])
      (underWay : (link.underWay before).Perm (message :: link.underWay after))

/-- What is sent by `sendQChatMessage` arrives as one connection with the signed message,
whose processing stores the message that was made. -/
theorem brought_by_send {message : Message} {frame : Bytes} {limits : List Nat}
    (sends : link.Sends message frame) (whole : Reception.Whole limits) :
    ∃ signed, (Inbound.mk frame limits).received link.receiver.json = [signed] ∧
      signedChat link.sender.name signed = some message ∧ link.Genuine signed message := by
  obtain ⟨_, _, nonce, _, _, _, _, _, _, _, returned, created, leaves⟩ := sends
  obtain ⟨ciphertext, tag, _, _, plain, sent, _, made, encodes, framed, last⟩ :=
    QChatClient.sendQChatMessage_ok returned created
  obtain rfl : sent = frame := by
    have ends := congrArg List.getLast? (last.symm.trans leaves)
    simp only [List.getLast?_concat, Option.some.injEq, Frame.mk.injEq] at ends
    exact ends.2.2
  obtain ⟨cls, sender, data⟩ := Message.of_ofDict made
  let entries := QChatClient.cipherData nonce ciphertext tag
  have same : message.withData (.obj entries) = message := by
    rw [← data]
    rfl
  have stripped := QChatCore.strip_signed link.sender message plain entries
  rw [QChatClient.cipherData_unsigned, same] at stripped
  have carried : Message.Carried message.sender := sender ▸ link.carried
  let signed := message.withData (.obj (link.sender.withSig plain entries))
  refine ⟨signed, ?_, ?_, ?_⟩
  · have valid : signed.data.IsJson :=
      link.sender.isJson_withSig (QChatClient.isJson_cipherData nonce ciphertext tag) plain
    have carriedSigned : Message.Carried signed.sender := carried
    obtain ⟨used, handled⟩ := Message.handle_connection_whole (link.json ▸ link.faithful) valid
      carriedSigned (link.json ▸ framed) whole []
    rw [Inbound.received, handled]
    rfl
  · exact signedChat_of_strip ⟨cls, sender⟩ stripped
  · intro node knows
    have holds : link.sender.Holds message.sender ⟨link.receiver, node⟩ :=
      ⟨link.json, link.verify, link.checks, sender ▸ knows⟩
    have verified : message.cls.verify = true := by
      rw [cls]
      rfl
    obtain ⟨key, stored, form⟩ := holds.pub
    have admitted := QChatCore.authenticate_withSig entries plain holds stored verified
    rw [QChatClient.cipherData_unsigned, same, encodes] at admitted
    simp only [ok_bind, link.correct key form, ↓reduceIte, pure_ok] at admitted
    have found : node.userDB.hasUser (.str signed.sender) = true :=
      UserDB.hasUser_of_getField stored
    rw [link.receiver.process_message_admitted found admitted, cls, link.client]
    rfl

/-- A message that is no chat message of the sender needs no trust. -/
theorem trusted_of_none {received : Message}
    (foreign : signedChat link.sender.name received = none) : link.Trusted received := by
  intro message signed
  rw [foreign] at signed
  cases signed

theorem handled_queue (connection : Inbound) (message_queue : List Message) :
    (Reception._handle_connection link.receiver.json
      ⟨connection.frame, connection.limits, message_queue⟩).2.message_queue =
      message_queue ++ connection.received link.receiver.json := by
  obtain ⟨result, after, added, -, same⟩ :=
    Reception.appends_handle_connection link.receiver.json connection.frame connection.limits
  rw [Inbound.received, same, same]
  rfl

/-- What is on its way stays trusted. -/
theorem step_sound {before after : Receiver} (stepped : link.Step before after)
    (knows : link.Knows after.node) (sound : link.Sound before) : link.Sound after := by
  cases stepped with
  | send message frame limits sends whole =>
    obtain ⟨signed, brings, chat, genuine⟩ := brought_by_send sends whole
    refine ⟨knows, fun connection member => ?_, sound.queued, sound.forked, sound.resolving⟩
    rcases List.mem_append.mp member with running | last
    · exact sound.handlers connection running
    · rw [List.mem_singleton.mp last, brings]
      intro received only other found
      rw [List.mem_singleton.mp only] at found ⊢
      rw [Option.some.inj (found.symm.trans chat)]
      exact genuine
  | connect connection others =>
    refine ⟨knows, fun other member => ?_, sound.queued, sound.forked, sound.resolving⟩
    rcases List.mem_append.mp member with running | last
    · exact sound.handlers other running
    · rw [List.mem_singleton.mp last]
      intro received brings
      exact trusted_of_none (List.filterMap_eq_nil_iff.mp others received brings)
  | handle earlier later connection running =>
    have split (other : Inbound) : other ∈ before.handlers ↔
        other = connection ∨ other ∈ earlier ++ later := by
      rw [running, List.mem_append, List.mem_append, List.mem_cons]
      exact or_left_comm
    refine ⟨knows, fun other member => ?_, fun received queued => ?_, sound.forked,
      sound.resolving⟩
    · exact sound.handlers other ((split other).mpr (Or.inr member))
    · rw [handled_queue] at queued
      rcases List.mem_append.mp queued with waiting | brought
      · exact sound.queued received waiting
      · exact sound.handlers connection ((split connection).mpr (Or.inl rfl)) received brought
  | read_from_connection message others queued =>
    refine ⟨knows, sound.handlers, fun received waiting => ?_, fun received forked => ?_,
      sound.resolving⟩
    · exact sound.queued received (queued ▸ List.mem_cons_of_mem message waiting)
    · rcases List.mem_append.mp forked with running | last
      · exact sound.forked received running
      · rw [List.mem_singleton.mp last]
        exact sound.queued message (queued ▸ List.mem_cons_self)
  | process earlier later message forked =>
    have trusted : link.Trusted message := sound.forked message (by
      rw [forked]
      exact List.mem_append_right earlier List.mem_cons_self)
    refine ⟨knows, sound.handlers, sound.queued, fun received running => ?_,
      fun received waits => ?_⟩
    · refine sound.forked received ?_
      rw [forked]
      rcases List.mem_append.mp running with front | back
      · exact List.mem_append_left _ front
      · exact List.mem_append_right _ (List.mem_cons_of_mem message back)
    · cases chat : signedChat link.sender.name message with
      | some signed =>
        -- the message is stored at once
        rw [trusted signed chat before.node sound.knows] at waits
        exact sound.resolving received waits
      | none =>
        rcases link.receiver.step_resolving before.node (.inbound message) received waits with
          waited | ⟨same, _⟩
        · exact sound.resolving received waited
        · cases same
          exact chat
  | node event node inside unread stepped =>
    refine ⟨knows, sound.handlers, sound.queued, sound.forked, fun received waits => ?_⟩
    rcases link.receiver.step_resolving before.node stepped received waits with waited | ⟨same, _⟩
    · exact sound.resolving received waited
    · exact absurd same (inside received)

/-- One message more or less in the middle of the running threads. -/
theorem filterMap_middle {α β : Type} (view : α → Option β) (before after : List α) (item : α) :
    (List.filterMap view (before ++ item :: after)).Perm
      (List.filterMap view [item] ++ List.filterMap view (before ++ after)) := by
  rw [← List.filterMap_append]
  exact (List.perm_middle (a := item)).filterMap view

/-- Every step moves at most one chat message of the sender, and moves it towards the
mailbox. -/
theorem step_moves {before after : Receiver} (stepped : link.Step before after)
    (sound : link.Sound before) : link.Moves before after := by
  cases stepped with
  | send message frame limits sends whole =>
    obtain ⟨signed, brings, chat, -⟩ := brought_by_send sends whole
    have one : link.brought ⟨frame, limits⟩ = [message] := by
      rw [brought, brings, List.filterMap_cons, chat]
      rfl
    refine .sent message rfl rfl ?_
    simp only [underWay, List.flatMap_append, List.flatMap_singleton, one]
    rw [← Multiset.coe_eq_coe]
    simp only [← Multiset.coe_add]
    abel
  | connect connection others =>
    refine .kept rfl rfl (.of_eq ?_)
    simp only [underWay, List.flatMap_append, List.flatMap_singleton, others, List.append_nil]
  | handle earlier later connection running =>
    refine .kept rfl rfl ?_
    simp only [underWay, running, handled_queue, List.filterMap_append, List.flatMap_append,
      List.flatMap_cons, brought]
    rw [← Multiset.coe_eq_coe]
    simp only [← Multiset.coe_add]
    abel
  | read_from_connection message others queued =>
    refine .kept rfl rfl ?_
    have split : message :: others = [message] ++ others := rfl
    simp only [underWay, queued, split, List.filterMap_append]
    rw [← Multiset.coe_eq_coe]
    simp only [← Multiset.coe_add]
    abel
  | process earlier later message forked =>
    have trusted : link.Trusted message := sound.forked message (by
      rw [forked]
      exact List.mem_append_right earlier List.mem_cons_self)
    have threads := filterMap_middle (signedChat link.sender.name) earlier later message
    cases chat : signedChat link.sender.name message with
    | some signed =>
      refine .stored signed rfl ?_ ?_
      · simp only [stored, trusted signed chat before.node sound.knows, List.filter_append,
          List.filter_singleton, decide_eq_true (signedChat_some chat)]
        rfl
      · simp only [List.filterMap_cons, chat, List.filterMap_nil, List.singleton_append] at threads
        simp only [underWay, forked]
        exact (List.Perm.append_left _ threads).trans List.perm_middle
    | none =>
      refine .kept rfl ?_ ?_
      · have stepped : link.receiver.Step before.node (.inbound message) _ := .inbound message
        have gate := QChatCore.step_gate link.checks stepped
        refine gate.chats_kept (by simp) fun received processes => ?_
        rcases processes with same | ⟨_, never, _⟩
        · cases same
          exact chat
        · cases never
      · simp only [List.filterMap_cons, chat, List.filterMap_nil, List.nil_append] at threads
        simp only [underWay, forked]
        exact List.Perm.append_left _ threads.symm
  | node event node inside unread stepped =>
    refine .kept rfl ?_ (.refl _)
    refine (QChatCore.step_gate link.checks stepped).chats_kept unread fun received processes => ?_
    rcases processes with same | ⟨position, _, waiting⟩
    · exact absurd same (inside received)
    · exact sound.resolving received (List.mem_of_getElem? waiting)

variable (link) in
theorem initial_sound : link.Sound link.initial where
  knows := link.known
  handlers := fun _ member => by cases member
  queued := fun _ member => by cases member
  forked := fun _ member => by cases member
  resolving := fun received member => by
    rw [initial, link.settled] at member
    cases member

variable (link) in
theorem initial_stored : link.stored link.initial = [] := by
  rw [stored, initial, link.empty, List.filter_nil]

theorem reaches_sound {state : Receiver} (reached : link.Reaches state) : link.Sound state := by
  induction reached with
  | refl => exact link.initial_sound
  | tail _ step inductionHypothesis => exact step_sound step.1 step.2 inductionHypothesis

/-- In every state of a run each message that was sent is stored or on its way, once. -/
theorem conserved {state : Receiver} (reached : link.Reaches state) :
    (link.stored state ++ link.underWay state).Perm state.sent := by
  induction reached with
  | refl =>
    rw [link.initial_stored]
    exact .refl _
  | @tail earlier later run step inductionHypothesis =>
    cases step_moves step.1 (reaches_sound run) with
    | kept sent stored underWay =>
      rw [sent, stored]
      exact (underWay.append_left _).trans inductionHypothesis
    | sent message sent stored underWay =>
      rw [sent, stored]
      refine (underWay.append_left _).trans ?_
      rw [← List.append_assoc]
      exact inductionHypothesis.append_right [message]
    | stored message sent stored underWay =>
      rw [sent, stored]
      refine List.Perm.trans ?_ inductionHypothesis
      rw [List.append_assoc]
      exact (underWay.symm.append_left _)

theorem reaches_of_inTurn {state : Receiver} (reached : link.ReachesInTurn state) :
    link.Reaches state :=
  Relation.ReflTransGen.mono (fun _ _ step => step.1) _ _ reached

/-- If each message is stored before the next one is sent, at most one is on its way, and
the stored ones stand in the order of sending. -/
theorem in_turn {state : Receiver} (reached : link.ReachesInTurn state) :
    link.stored state ++ link.underWay state = state.sent ∧ (link.underWay state).length ≤ 1 := by
  induction reached with
  | refl =>
    rw [link.initial_stored]
    exact ⟨rfl, Nat.zero_le 1⟩
  | @tail earlier later run step inductionHypothesis =>
    obtain ⟨inOrder, few⟩ := inductionHypothesis
    cases step_moves step.1.1 (reaches_sound (reaches_of_inTurn run)) with
    | kept sent stored underWay =>
      have same : link.underWay later = link.underWay earlier := by
        rcases before : link.underWay earlier with _ | ⟨message, others⟩
        · rw [before] at underWay
          exact underWay.eq_nil
        · rw [before] at few underWay
          obtain rfl : others = [] := List.length_eq_zero_iff.mp (by simpa using few)
          exact underWay.eq_singleton
      rw [sent, stored, same]
      exact ⟨inOrder, few⟩
    | sent message sent stored underWay =>
      have nothing : link.underWay earlier = [] := by
        rcases step.2 with same | turn
        · have longer := congrArg List.length (same.symm.trans sent)
          simp at longer
        · exact turn
      rw [nothing, List.nil_append] at underWay
      rw [nothing, List.append_nil] at inOrder
      rw [sent, stored, underWay.eq_singleton, inOrder]
      exact ⟨rfl, Nat.le_refl 1⟩
    | stored message sent stored underWay =>
      have last : link.underWay later = [] := by
        have lengths := underWay.length_eq
        rw [List.length_cons] at lengths
        exact List.length_eq_zero_iff.mp (by omega)
      rw [last] at underWay
      rw [underWay.eq_singleton] at inOrder
      rw [sent, stored, last, List.append_nil, inOrder]
      exact ⟨rfl, Nat.zero_le 1⟩

theorem Quiet.underWay {state : Receiver} (quiet : Quiet state) : link.underWay state = [] := by
  obtain ⟨handlers, queue, threads⟩ := quiet
  rw [ChatLink.underWay, handlers, queue, threads]
  rfl

/-- When all is processed, the mailbox holds each chat message of the sender as often as it was
sent, and in the order of sending if each was stored before the next was sent.

Proof: what is stored and what is under way is together what was sent. Each step leaves both as
they are, adds a message that is under way, or moves one from there to the mailbox, as the
receiver accepts what the sender has signed. -/
theorem chat_delivery (state : Receiver) (reached : link.Reaches state) (quiet : Quiet state) :
    (link.stored state).Perm state.sent ∧
      (link.ReachesInTurn state → link.stored state = state.sent) := by
  constructor
  · have all := conserved reached
    rwa [quiet.underWay, List.append_nil] at all
  · intro turns
    have all := (in_turn turns).1
    rwa [quiet.underWay, List.append_nil] at all

/-- A text that can be encoded, encrypted under a stored key and framed is sent. -/
theorem sends_keyed {node : Node} {user text : String}
    {nonce content ciphertext tag key plain frame : Bytes} {message : Message} {host port : Value}
    (present : key ≠ []) (keyed : node.userDB.getMessageKey (.str user) = .ok (.bytes key))
    (addressed : QChatCore.Addressed node user host port)
    (encoded : Bytes.latin1 text = .ok content)
    (encrypted : link.cipher.encrypt (.bytes key) nonce content = .ok (ciphertext, tag))
    (made : Message.ofDict .QCHTMessage link.sender.name
      (QChatClient.cipherData nonce ciphertext tag) = .ok message)
    (framed : message.encode_message link.sender.json = .ok plain)
    (signed : (message.withData (.obj (link.sender.withSig plain
      (QChatClient.cipherData nonce ciphertext tag)))).encode_message link.sender.json =
        .ok frame) :
    link.Sends message frame := by
  have resolved := link.sender.resolveUser_known id addressed.1
  have creates : QChatClient.createQChatMessage link.sender link.cipher (.raise .TypeError)
      nonce user text node = _ :=
    QChatClient.createQChatMessage_keyed (.raise .TypeError) nonce user text present keyed
  simp only [encoded, ok_bind, encrypted, made] at creates
  refine ⟨.raise .TypeError, id, nonce, user, text, node,
    { node with sent := node.sent ++ [⟨host, port, frame⟩] }, node.sent, host, port, ?_, ?_, rfl⟩
  · rw [QChatClient.sendQChatMessage, Method.bind_of_ok resolved, Method.bind_of_ok creates,
      Method.withObject, link.sender.sendMessage_resolved (addressed.resolves id),
      link.sender.sign_message_ok (Message.of_ofDict made).2.2 framed]
    simp only [signed]
  · rw [resolved, creates]

/-- The thread of a later message can be the first to store: two messages that were sent
one after the other can stand in the mailbox the other way round. -/
theorem overtakes {one two : Message} {first second : Bytes} (sendsOne : link.Sends one first)
    (sendsTwo : link.Sends two second) :
    ∃ state, link.Reaches state ∧ Quiet state ∧ state.sent = [one, two] ∧
      link.stored state = [two, one] := by
  have whole : Reception.Whole [] := Reception.whole_unlimited
  obtain ⟨early, bringsOne, chatOne, genuineOne⟩ := brought_by_send sendsOne whole
  obtain ⟨late, bringsTwo, chatTwo, genuineTwo⟩ := brought_by_send sendsTwo whole
  let sent : List Message := [one, two]
  -- Both are sent, received and taken over by a thread, in this order.
  have sending : link.Reaches ⟨sent, [⟨first, []⟩, ⟨second, []⟩], [], [], link.start⟩ :=
    (Relation.ReflTransGen.refl.tail ⟨.send link.initial one first [] sendsOne whole, link.known⟩).tail
      ⟨.send _ two second [] sendsTwo whole, link.known⟩
  have handleOne : link.Step ⟨sent, [⟨first, []⟩, ⟨second, []⟩], [], [], link.start⟩
      ⟨sent, [⟨second, []⟩], [early], [], link.start⟩ := by
    have step : link.Step _ _ := .handle
      ⟨sent, [⟨first, []⟩, ⟨second, []⟩], [], [], link.start⟩ [] [⟨second, []⟩] ⟨first, []⟩ rfl
    rwa [handled_queue, bringsOne] at step
  have handleTwo : link.Step ⟨sent, [⟨second, []⟩], [early], [], link.start⟩
      ⟨sent, [], [early, late], [], link.start⟩ := by
    have step : link.Step _ _ := .handle
      ⟨sent, [⟨second, []⟩], [early], [], link.start⟩ [] [] ⟨second, []⟩ rfl
    rwa [handled_queue, bringsTwo] at step
  have forking : link.Reaches ⟨sent, [], [], [early, late], link.start⟩ :=
    (((sending.tail ⟨handleOne, link.known⟩).tail ⟨handleTwo, link.known⟩).tail
      ⟨.read_from_connection _ early [late] rfl, link.known⟩).tail
      ⟨.read_from_connection _ late [] rfl, link.known⟩
  -- The second thread is first.
  let overtaken : Node := { link.start with mailbox := link.start.mailbox ++ [two] }
  have processTwo : link.Step ⟨sent, [], [], [early, late], link.start⟩
      ⟨sent, [], [], [early], overtaken⟩ := by
    have step : link.Step _ _ := .process ⟨sent, [], [], [early, late], link.start⟩ [early] []
      late rfl
    rwa [genuineTwo link.start link.known] at step
  have processOne : link.Step ⟨sent, [], [], [early], overtaken⟩
      ⟨sent, [], [], [], { overtaken with mailbox := overtaken.mailbox ++ [one] }⟩ := by
    have step : link.Step _ _ := .process ⟨sent, [], [], [early], overtaken⟩ [] [] early rfl
    rwa [genuineOne overtaken link.known] at step
  refine ⟨_, (forking.tail ⟨processTwo, link.known⟩).tail ⟨processOne, link.known⟩,
    ⟨rfl, rfl, rfl⟩, rfl, ?_⟩
  simp only [stored, overtaken, link.empty, List.nil_append, List.singleton_append,
    List.filter_cons, List.filter_nil, decide_eq_true (signedChat_some chatOne),
    decide_eq_true (signedChat_some chatTwo), ↓reduceIte]

end ChatLink

/-- Two clients, one of which sends to the other. -/
def chatLink : ChatLink where
  sender := chatSigner
  receiver := chatReceiver.core
  cipher := sampleCipher
  start := chatReceiver.node
  json := rfl
  faithful := json_faithful
  carried := chatText_linked.carried
  client := rfl
  checks := rfl
  verify := rfl
  correct := fun _ _ _ => rfl
  known := chatReceiver_holds.pub
  empty := rfl
  settled := rfl

/-- A second message with the same text, under a nonce of its own. -/
def nextMessage : Message :=
  let (ciphertext, tag) := nextSealed
  ⟨.QCHTMessage, "alice", .obj (QChatClient.cipherData nextNonce ciphertext tag), alice_short⟩

/-- The text is sent, under either nonce. -/
theorem chatLink_sends {nonce ciphertext tag : Bytes} {message : Message} {text signedText : String}
    (encrypted : sampleCipher.encrypt (.bytes sampleKey) nonce [104, 105] = .ok (ciphertext, tag))
    (made : Message.ofDict .QCHTMessage "alice" (QChatClient.cipherData nonce ciphertext tag) =
      .ok message)
    (dumped : json.dumps message.data = .ok text) (fits : (Bytes.utf8 text).length < 2 ^ 32)
    (signed : json.dumps (.obj (Dict.assign "sig" (.str (Bytes.latin1Text [0]))
      (QChatClient.cipherData nonce ciphertext tag))) = .ok signedText)
    (signedFits : (Bytes.utf8 signedText).length < 2 ^ 32) :
    ∃ frame, chatLink.Sends message frame := by
  have encoded : Bytes.latin1 "hi" = .ok [104, 105] := by decide
  let signedMessage := message.withData (.obj (Dict.assign "sig" (.str (Bytes.latin1Text [0]))
      (QChatClient.cipherData nonce ciphertext tag)))
  have sends : chatLink.Sends message _ :=
    ChatLink.sends_keyed (by decide) (UserDB.getField_stored chat_keys.1) chatSender_addressed
      encoded encrypted made (message.encode_message_ok dumped fits)
      (signedMessage.encode_message_ok signed signedFits)
  exact ⟨_, sends⟩

theorem chatMessage_sends : ∃ frame, chatLink.Sends chatMessage frame :=
  chatLink_sends rfl rfl rfl (by decide +kernel) rfl (by decide +kernel)

theorem nextMessage_sends : ∃ frame, chatLink.Sends nextMessage frame :=
  chatLink_sends rfl rfl rfl (by decide +kernel) rfl (by decide +kernel)

/-- All is processed, and the messages do not stand in the order of sending. -/
theorem order_not_kept :
    ∃ state, chatLink.Reaches state ∧ ChatLink.Quiet state ∧ chatLink.stored state ≠ state.sent := by
  obtain ⟨_, first⟩ := chatMessage_sends
  obtain ⟨_, second⟩ := nextMessage_sends
  obtain ⟨state, reached, quiet, sent, stored⟩ := ChatLink.overtakes first second
  refine ⟨state, reached, quiet, ?_⟩
  rw [sent, stored]
  intro same
  have nonces := (List.cons.inj (Value.obj.inj (congrArg Message.data (List.cons.inj same).1))).1
  exact absurd (Value.str.inj (Prod.mk.inj nonces).2) (by decide)

theorem chat_delivery_two : ∃ state, chatLink.Reaches state ∧ state.sent = [chatMessage, nextMessage] ∧
    (chatLink.stored state).Perm state.sent := by
  obtain ⟨_, first⟩ := chatMessage_sends
  obtain ⟨_, second⟩ := nextMessage_sends
  obtain ⟨state, reached, quiet, sent, _⟩ := ChatLink.overtakes first second
  exact ⟨state, reached, sent, (ChatLink.chat_delivery state reached quiet).1⟩

end QChat
