import QChat.Core

/-!
# What each method of a node changes

Sending touches nothing but the outbox. The handlers that write to the user
database leave every message and session where it is. Of the other handlers one
appends to a control queue, one to the mailbox and one to the sessions. The
processing of a message is one of these, for the message that was admitted.
-/

namespace QChat

/-- Nothing but what was sent differs: neither the user database nor a message or session. -/
structure Untouched (before after : Node) : Prop where
  userDB : after.userDB = before.userDB
  control_message_queue : after.control_message_queue = before.control_message_queue
  mailbox : after.mailbox = before.mailbox
  resolving : after.resolving = before.resolving
  sessions : after.sessions = before.sessions

/-- The messages and sessions are the same. This is what most of a node's methods leave as they
are. -/
structure SameMessages (before after : Node) : Prop where
  control_message_queue : after.control_message_queue = before.control_message_queue
  mailbox : after.mailbox = before.mailbox
  resolving : after.resolving = before.resolving
  sessions : after.sessions = before.sessions

/-- A node is untouched by doing nothing. -/
theorem Untouched.refl (node : Node) : Untouched node node := ⟨rfl, rfl, rfl, rfl, rfl⟩

/-- Nothing has happened to the messages yet. -/
theorem SameMessages.refl (node : Node) : SameMessages node node := ⟨rfl, rfl, rfl, rfl⟩

/-- Two changes that leave the messages alone, one after the other. -/
theorem SameMessages.trans (one two three : Node) (first : SameMessages one two)
    (second : SameMessages two three) : SameMessages one three where
  control_message_queue := second.control_message_queue.trans first.control_message_queue
  mailbox := second.mailbox.trans first.mailbox
  resolving := second.resolving.trans first.resolving
  sessions := second.sessions.trans first.sessions

/-- An untouched node has kept its messages and sessions in particular. -/
theorem Untouched.sameMessages {before after : Node} (untouched : Untouched before after) :
    SameMessages before after :=
  ⟨untouched.control_message_queue, untouched.mailbox, untouched.resolving, untouched.sessions⟩

namespace QChatCore

variable (self : QChatCore) (node : Node)

/-- The node's own public key at its start. -/
theorem boot_pub :
    self.boot.userDB.stored (.str self.name) "pub" = some (.bytes self.pub) := by
  simp [boot, UserDB.stored_addUser, Dict.ofList, get_connection_info, Dict.get?_set]

/-- Sending only adds a frame, and a failure before it adds none. -/
theorem signAndSend_untouched (message : Message) (host port : Except Exn Value) :
    Untouched node (self.signAndSend message host port node).2 := by
  simp only [signAndSend, Method.compute_bind]
  repeat' split
  all_goals exact ⟨rfl, rfl, rfl, rfl, rfl⟩

/-- A question to the registry is only sent. -/
theorem requestUserInfo_untouched (name : String) :
    Untouched node (self.requestUserInfo name node).2 := by
  simp only [requestUserInfo, Method.compute_bind]
  split
  · exact self.signAndSend_untouched node _ _ _
  · exact Untouched.refl node

/-- An answer of the registry is only sent. -/
theorem sendUserInfo_untouched (name connection : Value) :
    Untouched node (self.sendUserInfo name connection node).2 := by
  simp only [sendUserInfo, Method.compute_bind, Method.get_bind]
  repeat' split
  · exact self.signAndSend_untouched node _ _ _
  all_goals exact Untouched.refl node

/-- The source of the pairs only sends halves, one or both of them. -/
theorem distribute_qubits_untouched (message : Message) :
    Untouched node (_distribute_qubits message node).2 := by
  simp only [_distribute_qubits, Method.modify_bind, Method.compute_bind]
  split <;> exact ⟨rfl, rfl, rfl, rfl, rfl⟩

/-- A follower's session is for the sender of the message that asks for it. -/
theorem follow_protocol_effect (message : Message) :
    (_follow_protocol message node).2 = node ∨ ∃ peer_info protocol key_size,
      (_follow_protocol message node).2 = { node with sessions :=
        node.sessions ++ [⟨message.sender, peer_info, .follow, protocol, key_size⟩] } := by
  simp only [_follow_protocol, Method.compute_bind, Method.get_bind]
  cases peer_info node.userDB message.sender with
  | error exception => exact Or.inl rfl
  | ok peer_info =>
    cases protocolRequest message.data with
    | error exception => exact Or.inl rfl
    | ok request => exact Or.inr ⟨peer_info, request.1, request.2, rfl⟩

/-- The only thing a session's start can change is the list of sessions. -/
theorem lead_effect (name : String) (protocol : ProtocolClass) (key_size : Value) :
    (lead name protocol key_size node).2 = node ∨ ∃ peer_info,
      (lead name protocol key_size node).2 = { node with sessions :=
        node.sessions ++ [⟨name, peer_info, .lead, protocol, key_size⟩] } := by
  simp only [lead, Method.get_bind]
  by_cases known : node.userDB.hasUser (.str name) = true
  · rw [if_pos known, Method.get_bind, Method.compute_bind]
    cases peer_info node.userDB name with
    | error exception => exact Or.inl rfl
    | ok peer_info => exact Or.inr ⟨peer_info, rfl⟩
  · rw [if_neg known]
    exact Or.inl rfl

section Database

/-- Storing one entry of an answer touches no message. -/
theorem addBulkInfo_sameMessages (info : Value) : SameMessages node (addBulkInfo info node).2 := by
  simp only [addBulkInfo, Method.compute_bind, Method.get_bind]
  cases info.pop "user" with
  | error exception => exact SameMessages.refl node
  | ok popped =>
    obtain ⟨user_name, rest⟩ := popped
    dsimp only
    cases UserKey.ofValue user_name with
    | error exception => exact SameMessages.refl node
    | ok key =>
      dsimp only
      split
      · exact SameMessages.refl node
      · cases rest with
        | obj entries =>
          dsimp only
          split <;> exact ⟨rfl, rfl, rfl, rfl⟩
        | _ => exact SameMessages.refl node

/-- Neither does storing many of them. -/
theorem addAllInfo_sameMessages (infos : List Value) :
    SameMessages node (addAllInfo infos node).2 := by
  induction infos generalizing node with
  | nil => exact SameMessages.refl node
  | cons info rest inductionHypothesis =>
    exact Method.bind_relates _ SameMessages.trans (addBulkInfo_sameMessages node info)
      fun _ after _ => inductionHypothesis after

/-- An answer changes the user database only. -/
theorem addUserInfo_sameMessages (name : Value) (kwargs : UserInfo) :
    SameMessages node (addUserInfo name kwargs node).2 := by
  simp only [addUserInfo]
  split
  · cases kwargs.get? "info" with
    | none => exact SameMessages.refl node
    | some info =>
      simp only [Method.compute_bind]
      cases info.iterate with
      | error exception => exact SameMessages.refl node
      | ok infos => exact addAllInfo_sameMessages node infos
  · simp only [Method.compute_bind]
    cases UserKey.ofValue name with
    | error exception => exact SameMessages.refl node
    | ok key => exact ⟨rfl, rfl, rfl, rfl⟩

/-- So does a registration. -/
theorem registerUser_sameMessages (name connection pub : Value) :
    SameMessages node (registerUser name connection pub node).2 := by
  simp only [registerUser, Method.compute_bind, Method.get_bind]
  cases UserKey.ofValue name with
  | error exception => exact SameMessages.refl node
  | ok key =>
    dsimp only
    split
    · exact SameMessages.refl node
    · rw [Method.compute_bind]
      cases pub.encode with
      | error exception => exact SameMessages.refl node
      | ok pub => exact addUserInfo_sameMessages node name _

end Database

/-- The class of a message survives stripping. -/
theorem strip_signature_cls {message stripped : Message} {signature : Bytes}
    (passed : _strip_signature message = .ok (stripped, signature)) :
    stripped.cls = message.cls ∧ stripped.sender = message.sender := by
  obtain ⟨_, _, passed⟩ := ok_of_bind passed
  obtain ⟨_, _, passed⟩ := ok_of_bind passed
  cases passed
  exact ⟨rfl, rfl⟩

/-- A message that passes keeps its class and its sender; only its signature is taken out of the
data. -/
theorem authenticate_cls {userDB : UserDB} {message admitted : Message}
    (passed : self.authenticate userDB message = .ok admitted) :
    admitted.cls = message.cls ∧ admitted.sender = message.sender := by
  unfold authenticate at passed
  split at passed
  · obtain ⟨⟨stripped, signature⟩, taken, passed⟩ := ok_of_bind passed
    dsimp only at passed
    split at passed
    · cases passed
      exact strip_signature_cls taken
    · obtain ⟨_, _, passed⟩ := ok_of_bind passed
      cases passed
      exact strip_signature_cls taken
  · split at passed
    · obtain ⟨⟨stripped, signature⟩, taken, passed⟩ := ok_of_bind passed
      cases passed
      exact strip_signature_cls taken
    · cases passed
      exact ⟨rfl, rfl⟩

/-- The received message carries a signature that verifies under the public key
stored for the user; `stripped` is the message without it. -/
def SignedFor (user : UserKey) (received stripped : Message) : Prop :=
  ∃ signature frame pub, _strip_signature received = .ok (stripped, signature) ∧
    stripped.encode_message self.json = .ok frame ∧ node.userDB.getPublicKey user = .ok pub ∧
    self.verify pub frame signature = .ok true

/-- Where signatures are checked, a message of a class that must be verified is
admitted only with a signature of its sender. -/
theorem authenticate_signed {message admitted : Message} (checks : self.allow_invalid_signatures = false)
    (verified : message.cls.verify = true)
    (passed : self.authenticate node.userDB message = .ok admitted) :
    self.SignedFor node (.str message.sender) message admitted := by
  simp only [authenticate, verified, ↓reduceIte, checks, Bool.false_eq_true] at passed
  obtain ⟨⟨stripped, signature⟩, taken, passed⟩ := ok_of_bind passed
  obtain ⟨_, accepted, passed⟩ := ok_of_bind passed
  cases passed
  obtain ⟨frame, encoded, accepted⟩ := ok_of_bind accepted
  obtain ⟨pub, stored, accepted⟩ := ok_of_bind accepted
  obtain ⟨answer, checked, accepted⟩ := ok_of_bind accepted
  cases answer with
  | true =>
    rw [(strip_signature_cls taken).2] at stored
    exact ⟨signature, frame, pub, taken, encoded, stored, checked⟩
  | false => cases accepted

/-- A message of a class that is neither verified nor stripped is admitted as it is. -/
theorem authenticate_plain {userDB : UserDB} {message admitted : Message}
    (unverified : message.cls.verify = false) (unstripped : message.cls.strip = false)
    (passed : self.authenticate userDB message = .ok admitted) : admitted = message := by
  simp only [authenticate, unverified, unstripped, Bool.false_eq_true, ↓reduceIte] at passed
  exact (Except.ok.inj passed).symm

end QChatCore

/-- What the processing of a message does to messages and sessions: nothing, or
the admitted message goes to the control queue of its sender or to the mailbox,
or a session with its sender starts. -/
inductive Effect (self : QChatCore) (node : Node) (message : Message) (after : Node) : Prop where
  | none (same : SameMessages node after)
  | queued (admitted : Message) (passed : self.authenticate node.userDB message = .ok admitted)
      (chosen : handlerOf self.role admitted.cls = ._store_control_message)
      (became : after = (QChatCore._store_control_message admitted node).2)
  | stored (admitted : Message) (passed : self.authenticate node.userDB message = .ok admitted)
      (chosen : handlerOf self.role admitted.cls = .storeMessage)
      (became : after = { node with mailbox := node.mailbox ++ [admitted] })
  | started (admitted : Message) (passed : self.authenticate node.userDB message = .ok admitted)
      (chosen : handlerOf self.role admitted.cls = ._follow_protocol)
      (peer_info : Dict UserKey Value) (protocol : ProtocolClass) (key_size : Value)
      (became : after = { node with sessions :=
        node.sessions ++ [⟨admitted.sender, peer_info, .follow, protocol, key_size⟩] })

namespace QChatCore

variable (self : QChatCore) (node : Node)

/-- What a known sender's message does to the messages and sessions of a node: one case for each
handler, told apart by the class of the message. -/
theorem process_known_effect (message : Message) :
    Effect self node message (self.process_known message node).2 := by
  simp only [process_known, Method.get_bind, Method.compute_bind]
  cases passed : self.authenticate node.userDB message with
  | error exception => exact .none (SameMessages.refl node)
  | ok admitted =>
    dsimp only
    cases chosen : handlerOf self.role admitted.cls with
    | registerUser =>
      simp only [handle, Method.compute_bind]
      cases arguments ["user", "connection", "pub"] admitted.data with
      | error exception => exact .none (SameMessages.refl node)
      | ok values =>
        dsimp only
        split
        · exact .none (registerUser_sameMessages node _ _ _)
        · exact .none (SameMessages.refl node)
    | sendUserInfo =>
      simp only [handle, Method.compute_bind]
      cases arguments ["user", "connection"] admitted.data with
      | error exception => exact .none (SameMessages.refl node)
      | ok values =>
        dsimp only
        split
        · exact .none (self.sendUserInfo_untouched node _ _).sameMessages
        · exact .none (SameMessages.refl node)
    | addUserInfo =>
      simp only [handle, Method.compute_bind]
      cases userArguments admitted.data with
      | error exception => exact .none (SameMessages.refl node)
      | ok values => exact .none (addUserInfo_sameMessages node _ _)
    | _distribute_qubits => exact .none (distribute_qubits_untouched node admitted).sameMessages
    | storeMessage => exact .stored admitted passed chosen rfl
    | _follow_protocol =>
      rcases follow_protocol_effect node admitted with same | ⟨peer_info, protocol, key_size, started⟩
      · exact .none (by
          simp only [handle, same]
          exact SameMessages.refl node)
      · exact .started admitted passed chosen peer_info protocol key_size started
    | _store_control_message => exact .queued admitted passed chosen rfl

/-- The first part of the processing of a message sends at most a question to the
registry; then the message waits, or is processed as one with a known sender. -/
theorem process_message_effect (message : Message) :
    ∃ asked, Untouched node asked ∧
      ((self.process_message message node).2 = asked ∨
        message.cls.verify = true ∧ (self.process_message message node).2 =
          { asked with resolving := asked.resolving ++ [message] } ∨
        (asked = node ∨ message.cls.verify = true) ∧
          (self.process_message message node).2 = (self.process_known message asked).2) := by
  simp only [process_message, Method.get_bind]
  by_cases unknown : message.cls.verify = true ∧ ¬ node.userDB.hasUser (.str message.sender) = true
  · rw [if_pos unknown, Method.bind_apply]
    have untouched := self.requestUserInfo_untouched node message.sender
    cases (self.requestUserInfo message.sender node).1 with
    | error exception => exact ⟨_, untouched, Or.inl rfl⟩
    | ok result =>
      refine ⟨_, untouched, Or.inr ?_⟩
      dsimp only
      split
      · exact Or.inr ⟨Or.inr unknown.1, rfl⟩
      · exact Or.inl ⟨unknown.1, rfl⟩
  · rw [if_neg unknown]
    exact ⟨node, Untouched.refl node, Or.inr (Or.inr ⟨Or.inl rfl, rfl⟩)⟩

end QChatCore

end QChat
