import QChat.Registry

/-!
# What reaches control queues, mailbox and sessions

Where signatures are checked, a message of a class that must be verified reaches
the control queue, the mailbox or a follower's session only if it carried a
signature that verified under the public key stored for its sender. The control
queue also takes the messages of classes that are not verified and have no
handler; nothing but these. The mailbox also takes what a follower's message
protocol received, and only a verified message starts such a session.
-/

namespace QChat

/-- The message that a step processes. -/
def Processes (node : Node) (event : Event) (message : Message) : Prop :=
  event = .inbound message ∨
    ∃ position, event = .resume position ∧ node.resolving[position]? = some message

/-- The classes that are not verified and have no handler. -/
def unguarded : Role → List MessageClass
  | .QChatServer => [.Message, .AUTHMessage]
  | .QChatClient => [.Message, .RGSTMessage, .AUTHMessage, .RQQBMessage]

/-- The unguarded classes are those that reach a control queue without a check. -/
theorem mem_unguarded (role : Role) (cls : MessageClass) :
    cls ∈ unguarded role ↔ cls.verify = false ∧ handlerOf role cls = ._store_control_message := by
  cases role <;> cases cls <;> decide

/-- What is not verified and has no handler is not stripped either. -/
theorem strip_unguarded {role : Role} {cls : MessageClass} (listed : cls ∈ unguarded role) :
    cls.strip = false := by
  revert listed
  cases role <;> cases cls <;> decide

/-- The mailbox and the sessions are reached by verified classes only. -/
theorem verify_of_handler {role : Role} {cls : MessageClass}
    (chosen : handlerOf role cls = .storeMessage ∨ handlerOf role cls = ._follow_protocol) :
    cls.verify = true := by
  revert chosen
  cases role <;> cases cls <;> decide

/-- Only a PTCL message starts a session. -/
theorem handlerOf_follow {role : Role} {cls : MessageClass}
    (chosen : handlerOf role cls = ._follow_protocol) : cls = .PTCLMessage := by
  revert chosen
  cases role <;> cases cls <;> decide

/-- A control message is put at the end of the queue of the sender it names. All other queues
stay as they are. -/
theorem Node.queue_store (node : Node) (message : Message) (user : String) :
    (QChatCore._store_control_message message node).2.queue user =
      if user = message.sender then node.queue user ++ [message] else node.queue user := by
  simp only [QChatCore._store_control_message, Method.modify_apply, Node.queue, Dict.get?_set]
  split
  · next same =>
    subst same
    rfl
  · rfl

namespace QChatCore

variable (self : QChatCore)

/-- The step verifies a message it processes, and this is left of it. -/
def Verifies (node : Node) (event : Event) (message : Message) : Prop :=
  ∃ received, Processes node event received ∧
    self.SignedFor node (.str received.sender) received message ∧
    message.sender = received.sender ∧ message.cls = received.cls

/-- What one step adds to the control queues, the mailbox and the sessions. In each of the three
places nothing is new, or the oldest or all messages are taken out, or one message or session is
new; and what is new has been verified in this step, or is of one of the kinds that need no
signature. -/
structure Gate (core : QChatCore) (node : Node) (event : Event) (after : Node) : Prop where
  queue : ∀ user, after.queue user = node.queue user ∨
    (event = .take user ∧ ∃ message, node.queue user = message :: after.queue user) ∨
    ∃ message, message.sender = user ∧ after.queue user = node.queue user ++ [message] ∧
      (core.Verifies node event message ∨
        Processes node event message ∧ message.cls ∈ unguarded core.role)
  mailbox : after.mailbox = node.mailbox ∨ (event = .popMessages ∧ after.mailbox = []) ∨
    ∃ message, after.mailbox = node.mailbox ++ [message] ∧
      (core.Verifies node event message ∨
        ∃ position session plaintext, event = .received position plaintext ∧
          node.sessions[position]? = some session ∧ session.role = .follow ∧
          message.cls = .SPDSMessage ∧ message.sender = session.user ∧
          message.data = .obj [("plaintext", .bytes plaintext)])
  sessions : ∀ session ∈ after.sessions, session ∈ node.sessions ∨ session.role = .lead ∨
    ∃ request, core.Verifies node event request ∧ request.cls = .PTCLMessage ∧
      request.sender = session.user

variable {self} {node after : Node} {event : Event}

/-- A step that leaves messages alone and starts no session. -/
theorem Gate.of_same (queue : after.control_message_queue = node.control_message_queue)
    (mailbox : after.mailbox = node.mailbox)
    (sessions : ∀ session ∈ after.sessions, session ∈ node.sessions) :
    self.Gate node event after where
  queue user := Or.inl (by simp only [Node.queue, queue])
  mailbox := Or.inl mailbox
  sessions session member := Or.inl (sessions session member)

/-- The processing of a message passes the gate. The node may have asked the
registry, or taken the message out of the waiting ones, before. -/
theorem process_known_gate {called : Node} (message : Message)
    (checks : self.allow_invalid_signatures = false)
    (database : called.userDB = node.userDB)
    (queue : called.control_message_queue = node.control_message_queue)
    (mailbox : called.mailbox = node.mailbox) (sessions : called.sessions = node.sessions)
    (processes : Processes node event message) :
    self.Gate node event (self.process_known message called).2 := by
  have verifies (admitted : Message) (verified : message.cls.verify = true)
      (passed : self.authenticate called.userDB message = .ok admitted) :
      self.Verifies node event admitted := by
    rw [database] at passed
    obtain ⟨cls, sender⟩ := self.authenticate_cls passed
    exact ⟨message, processes, self.authenticate_signed node checks verified passed, sender, cls⟩
  have sameQueue (user : String) : called.queue user = node.queue user := by
    simp only [Node.queue, queue]
  rcases self.process_known_effect called message with same | ⟨admitted, passed, chosen, became⟩ |
    ⟨admitted, passed, chosen, became⟩ |
    ⟨admitted, passed, chosen, peer_info, protocol, key_size, became⟩
  · exact Gate.of_same (same.control_message_queue.trans queue) (same.mailbox.trans mailbox)
      fun session member => by rwa [same.sessions, sessions] at member
  · rw [became]
    refine ⟨fun user => ?_, Or.inl mailbox, fun session member => Or.inl (by rwa [← sessions])⟩
    rw [Node.queue_store, sameQueue]
    by_cases owner : user = admitted.sender
    · rw [if_pos owner]
      refine Or.inr (Or.inr ⟨admitted, owner.symm, rfl, ?_⟩)
      have cls := (self.authenticate_cls passed).1
      cases verified : message.cls.verify with
      | true => exact Or.inl (verifies admitted verified passed)
      | false =>
        have listed : message.cls ∈ unguarded self.role :=
          (mem_unguarded _ _).mpr ⟨verified, cls ▸ chosen⟩
        have plain := self.authenticate_plain verified (strip_unguarded listed) passed
        rw [plain]
        exact Or.inr ⟨processes, listed⟩
    · rw [if_neg owner]
      exact Or.inl rfl
  · have verified : message.cls.verify = true :=
      (self.authenticate_cls passed).1 ▸ verify_of_handler (Or.inl chosen)
    rw [became]
    refine ⟨fun user => Or.inl (sameQueue user), Or.inr (Or.inr ⟨admitted, ?_, Or.inl ?_⟩),
      fun session member => Or.inl (by rwa [← sessions])⟩
    · rw [mailbox]
    · exact verifies admitted verified passed
  · have verified : message.cls.verify = true :=
      (self.authenticate_cls passed).1 ▸ verify_of_handler (Or.inr chosen)
    rw [became]
    refine ⟨fun user => Or.inl (sameQueue user), Or.inl mailbox, fun session member => ?_⟩
    rcases List.mem_append.mp member with earlier | last
    · exact Or.inl (sessions ▸ earlier)
    · rw [List.mem_singleton.mp last]
      exact Or.inr (Or.inr ⟨admitted, verifies admitted verified passed, handlerOf_follow chosen, rfl⟩)

/-- Every step of a node opens the gate for the messages it admits, and for no others: one case
for each of them. -/
theorem step_gate (checks : self.allow_invalid_signatures = false)
    (stepped : self.Step node event after) : self.Gate node event after := by
  cases stepped with
  | inbound message =>
    obtain ⟨asked, untouched, only | ⟨_, parked⟩ | ⟨_, went⟩⟩ :=
      self.process_message_effect node message
    · rw [only]
      exact Gate.of_same untouched.control_message_queue untouched.mailbox
        fun session member => by rwa [untouched.sessions] at member
    · rw [parked]
      exact Gate.of_same untouched.control_message_queue untouched.mailbox
        fun session member => by rwa [untouched.sessions] at member
    · rw [went]
      exact process_known_gate message checks untouched.userDB untouched.control_message_queue
        untouched.mailbox untouched.sessions (Or.inl rfl)
  | resume position message waiting known =>
    exact process_known_gate message checks rfl rfl rfl rfl (Or.inr ⟨position, rfl, waiting⟩)
  | expire position waiting => exact Gate.of_same rfl rfl fun _ member => member
  | request user =>
    have untouched := self.requestUserInfo_untouched node user
    exact Gate.of_same untouched.control_message_queue untouched.mailbox
      fun session member => by rwa [untouched.sessions] at member
  | lead user protocol key_size =>
    rcases lead_effect node user protocol key_size with same | ⟨_, started⟩
    · rw [same]
      exact Gate.of_same rfl rfl fun _ member => member
    · rw [started]
      refine ⟨fun _ => Or.inl rfl, Or.inl rfl, fun session member => ?_⟩
      rcases List.mem_append.mp member with earlier | last
      · exact Or.inl earlier
      · rw [List.mem_singleton.mp last]
        exact Or.inr (Or.inl rfl)
  | take user message rest running queued =>
    refine ⟨fun other => ?_, Or.inl rfl, fun session member => Or.inl member⟩
    simp only [Node.queue, Dict.get?_set] at queued ⊢
    by_cases own : other = user
    · subst own
      rw [if_pos rfl, queued]
      exact Or.inr (Or.inl ⟨rfl, message, rfl⟩)
    · rw [if_neg own]
      exact Or.inl rfl
  | keyed position session key running keys =>
    simp only [conclude, keys, ↓reduceIte]
    exact Gate.of_same rfl rfl fun _ member => List.mem_of_mem_eraseIdx member
  | received position session plaintext running follows carries =>
    simp only [conclude, carries, Bool.false_eq_true, ↓reduceIte, Method.compute_bind]
    by_cases short : session.user.length ≤ MAX_SENDER_LENGTH
    · rw [Message.ofDict_ok _ _ _ short]
      refine ⟨fun _ => Or.inl rfl, Or.inr (Or.inr ⟨_, rfl, Or.inr ?_⟩),
        fun other member => Or.inl (List.mem_of_mem_eraseIdx member)⟩
      exact ⟨position, session, plaintext, rfl, running, follows, rfl, rfl, rfl⟩
    · rw [Message.ofDict, dif_neg short]
      exact Gate.of_same rfl rfl fun _ member => List.mem_of_mem_eraseIdx member
  | closed position running =>
    exact Gate.of_same rfl rfl fun _ member => List.mem_of_mem_eraseIdx member
  | popMessages => exact ⟨fun _ => Or.inl rfl, Or.inr (Or.inl ⟨rfl, rfl⟩), fun _ member => Or.inl member⟩

variable (self) in
/-- Some step of the run verified the message. -/
def Vouched (steps : List (Node × Event)) (message : Message) : Prop :=
  ∃ earlier event, (earlier, event) ∈ steps ∧ self.Verifies earlier event message

variable (self) in
/-- Some step of the run verified a request of the user to start a protocol. -/
def Asked (steps : List (Node × Event)) (user : String) : Prop :=
  ∃ request, self.Vouched steps request ∧ request.cls = .PTCLMessage ∧ request.sender = user

/-- Where the content of a node comes from: the messages in the control queues that
are of a verified class, the mailbox, and the follower's sessions. -/
structure Origins (core : QChatCore) (steps : List (Node × Event)) (node : Node) : Prop where
  queue : ∀ user, ∀ message ∈ node.queue user, message.sender = user ∧
    (core.Vouched steps message ∨ message.cls ∈ unguarded core.role)
  mailbox : ∀ message ∈ node.mailbox, core.Vouched steps message ∨
    message.cls = .SPDSMessage ∧ core.Asked steps message.sender
  sessions : ∀ session ∈ node.sessions, session.role = .follow → core.Asked steps session.user

/-- What was vouched for stays so as the run goes on. -/
theorem Vouched.later {steps : List (Node × Event)} {message : Message}
    (vouched : self.Vouched steps message) (more : List (Node × Event)) :
    self.Vouched (steps ++ more) message := by
  obtain ⟨earlier, event, member, verifies⟩ := vouched
  exact ⟨earlier, event, List.mem_append_left _ member, verifies⟩

/-- What was asked for stays so as well. -/
theorem Asked.later {steps : List (Node × Event)} {user : String} (asked : self.Asked steps user)
    (more : List (Node × Event)) : self.Asked (steps ++ more) user := by
  obtain ⟨request, vouched, requests⟩ := asked
  exact ⟨request, vouched.later more, requests⟩

/-- One step more: what is new in the mailbox, the queues or the sessions has come through the
gate of this step, and the rest has its origin in the run so far. -/
theorem Origins.step {steps : List (Node × Event)} (origins : self.Origins steps node)
    (gate : self.Gate node event after) : self.Origins (steps ++ [(node, event)]) after := by
  have now {message : Message} (verifies : self.Verifies node event message) :
      self.Vouched (steps ++ [(node, event)]) message :=
    ⟨node, event, List.mem_append_right _ (List.mem_singleton_self _), verifies⟩
  have queued (user : String) (message : Message) (member : message ∈ node.queue user) :
      message.sender = user ∧
        (self.Vouched (steps ++ [(node, event)]) message ∨ message.cls ∈ unguarded self.role) := by
    obtain ⟨owner, vouched | listed⟩ := origins.queue user message member
    · exact ⟨owner, Or.inl (vouched.later _)⟩
    · exact ⟨owner, Or.inr listed⟩
  refine ⟨fun user message member => ?_, fun message member => ?_, fun session member follows => ?_⟩
  · rcases gate.queue user with same | ⟨_, first, taken⟩ | ⟨added, owner, grown, reason⟩
    · exact queued user message (same ▸ member)
    · exact queued user message (taken ▸ List.mem_cons_of_mem first member)
    · rw [grown] at member
      rcases List.mem_append.mp member with earlier | last
      · exact queued user message earlier
      · rw [List.mem_singleton.mp last]
        exact ⟨owner, reason.imp now And.right⟩
  · have stored (member : message ∈ node.mailbox) :
        self.Vouched (steps ++ [(node, event)]) message ∨
          message.cls = .SPDSMessage ∧ self.Asked (steps ++ [(node, event)]) message.sender :=
      (origins.mailbox message member).imp (·.later _) fun asked => ⟨asked.1, asked.2.later _⟩
    rcases gate.mailbox with same | ⟨_, emptied⟩ | ⟨added, grown, reason⟩
    · exact stored (same ▸ member)
    · rw [emptied] at member
      cases member
    · rw [grown] at member
      rcases List.mem_append.mp member with earlier | last
      · exact stored earlier
      · rw [List.mem_singleton.mp last]
        rcases reason with verifies | ⟨_, session, _, _, running, follows, cls, sender, _⟩
        · exact Or.inl (now verifies)
        · refine Or.inr ⟨cls, sender ▸ Asked.later ?_ _⟩
          exact origins.sessions session (List.mem_of_getElem? running) follows
  · rcases gate.sessions session member with earlier | leads | ⟨request, verifies, cls, sender⟩
    · exact (origins.sessions session earlier follows).later _
    · rw [leads] at follows
      cases follows
    · exact ⟨request, now verifies, cls, sender⟩

/-- By induction over the run everything a node has kept has its origin in it. -/
theorem runs_origins (checks : self.allow_invalid_signatures = false)
    {steps : List (Node × Event)} {node : Node} (run : self.Runs steps node) :
    self.Origins steps node := by
  induction run with
  | nil =>
    refine ⟨fun _ _ member => ?_, fun _ member => ?_, fun _ member => ?_⟩ <;> cases member
  | snoc run stepped inductionHypothesis =>
    exact inductionHypothesis.step (step_gate checks stepped)

variable (self) in
/-- In every run of a node that checks signatures, every step passes the gate, and what the node
holds was let in by it: the messages in the mailbox and the queues were verified at some step of
the run, apart from those of unguarded classes and those a superdense session has brought, and
the followers' sessions were started by verified requests. -/
theorem authenticity_gate (checks : self.allow_invalid_signatures = false)
    {steps : List (Node × Event)} {node : Node} (run : self.Runs steps node) :
    self.Origins steps node ∧ ∀ event after, self.Step node event after →
      self.Gate node event after :=
  ⟨runs_origins checks run, fun _ _ stepped => step_gate checks stepped⟩

/-- A chat message without a signature, of the class that has no handler. -/
def plainMessage : Message := ⟨.Message, "eve", .obj [], eve_short⟩

/-- The node has received one message without a signature, whose sender it does not know: it
waits and is in no queue. -/
theorem authenticity_gate_plain_message :
    sampleClient.Origins [(sampleClient.boot, .inbound plainMessage)]
        (sampleClient.process_message plainMessage sampleClient.boot).2 ∧
      ∀ event after, sampleClient.Step
        (sampleClient.process_message plainMessage sampleClient.boot).2 event after →
        sampleClient.Gate (sampleClient.process_message plainMessage sampleClient.boot).2
          event after :=
  sampleClient.authenticity_gate rfl (.snoc .nil (.inbound _))

end QChatCore

/-- A message that carries no signature reaches the control queue. -/
theorem unsigned_message_queued :
    ¬ ∀ (steps : List (Node × Event)) (node after : Node) (received message : Message),
      sampleClient.Runs steps node → sampleClient.Step node (.inbound received) after →
      after.queue message.sender = node.queue message.sender ++ [message] →
      ∃ stripped, sampleClient.SignedFor node (.str message.sender) received stripped := by
  intro claimed
  obtain ⟨_, _, _, _, _, _, _, verified⟩ := claimed [] _ _ QChatCore.plainMessage
    QChatCore.plainMessage .nil (.inbound _) rfl
  exact absurd verified (by simp [sampleClient])

end QChat
