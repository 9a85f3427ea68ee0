import QChat.Chat

/-!
# Failing history reads

`getMessageHistory` empties the mailbox before it opens the messages. One message
that cannot be opened ends the call, and the messages that were taken out are
neither returned nor put back.
-/

namespace QChat

namespace QChatClient

variable (cipher : Cipher)

/-- A field of a message as the bytes it stands for. -/
def fieldBytes (qm : Message) (field : String) : Except Exn Bytes := do
  (← qm.data.item field).encode

/-- The message can be opened: a chat message whose sender is known, whose three
fields are there and stand for bytes, and which the stored key decrypts; or a
superdense message with a plaintext. -/
def Readable (userDB : UserDB) (qm : Message) : Prop :=
  (qm.cls = .QCHTMessage ∧ ∃ user_key nonce ciphertext tag message,
    userDB.getMessageKey (.str qm.sender) = .ok user_key ∧
    fieldBytes qm "nonce" = .ok nonce ∧ fieldBytes qm "ciphertext" = .ok ciphertext ∧
    fieldBytes qm "tag" = .ok tag ∧
    cipher.decrypt user_key (nonce, ciphertext, tag) = .ok message) ∨
  (qm.cls = .SPDSMessage ∧ ∃ plaintext, qm.data.item "plaintext" = .ok plaintext)

/-- The contents of messages are listed for their senders, and a content as many times as
there are messages of a sender with it. -/
def Lists (userDB : UserDB) (history : Dict String (List Value)) (returned : List Message) : Prop :=
  ∀ sender, ∃ contents,
    List.Forall₂ (fun qm content => openMessage cipher userDB qm = .ok content)
      (returned.filter fun qm => qm.sender = sender) contents ∧
    contents.Subperm ((history.get? sender).getD [])

/-- Every message that was in the mailbox is listed in what is returned, or still in
the mailbox. A message that was there twice is counted twice. -/
def Preserved (node : Node) (outcome : Except Exn (Dict String (List Value)) × Node) : Prop :=
  ∃ kept returned, node.mailbox.Perm (kept ++ returned) ∧ kept.Subperm outcome.2.mailbox ∧
    (returned ≠ [] →
      ∃ history, outcome.1 = .ok history ∧ Lists cipher node.userDB history returned)

variable {cipher}

/-- Opening succeeds for the readable messages. -/
theorem openMessage_ok (userDB : UserDB) (qm : Message) :
    (∃ message, openMessage cipher userDB qm = .ok message) ↔ Readable cipher userDB qm := by
  have other : ¬ MessageClass.SPDSMessage = .QCHTMessage := by decide
  constructor
  · rintro ⟨message, opened⟩
    unfold openMessage at opened
    split at opened
    · next chat =>
      obtain ⟨user_key, stored, opened⟩ := ok_of_bind opened
      obtain ⟨nonceValue, nonceItem, opened⟩ := ok_of_bind opened
      obtain ⟨nonce, nonceBytes, opened⟩ := ok_of_bind opened
      obtain ⟨cipherValue, cipherItem, opened⟩ := ok_of_bind opened
      obtain ⟨ciphertext, cipherBytes, opened⟩ := ok_of_bind opened
      obtain ⟨tagValue, tagItem, opened⟩ := ok_of_bind opened
      obtain ⟨tag, tagBytes, opened⟩ := ok_of_bind opened
      obtain ⟨content, decrypted, _⟩ := ok_of_bind opened
      refine Or.inl ⟨chat, user_key, nonce, ciphertext, tag, content, stored, ?_, ?_, ?_, decrypted⟩
      · rw [fieldBytes, nonceItem, ok_bind, nonceBytes]
      · rw [fieldBytes, cipherItem, ok_bind, cipherBytes]
      · rw [fieldBytes, tagItem, ok_bind, tagBytes]
    · split at opened
      · next superdense => exact Or.inr ⟨superdense, message, opened⟩
      · cases opened
  · rintro (⟨chat, user_key, nonce, ciphertext, tag, content, stored, nonceField, cipherField,
      tagField, decrypted⟩ | ⟨superdense, plaintext, found⟩)
    · obtain ⟨nonceValue, nonceItem, nonceBytes⟩ := ok_of_bind nonceField
      obtain ⟨cipherValue, cipherItem, cipherBytes⟩ := ok_of_bind cipherField
      obtain ⟨tagValue, tagItem, tagBytes⟩ := ok_of_bind tagField
      refine ⟨.bytes content, ?_⟩
      simp only [openMessage, chat, ↓reduceIte, stored, ok_bind, nonceItem, nonceBytes, cipherItem,
        cipherBytes, tagItem, tagBytes, decrypted, pure_ok]
    · refine ⟨plaintext, ?_⟩
      rw [openMessage, superdense, if_neg other, if_pos rfl]
      exact found

/-- Going through the mailbox succeeds only if every message can be opened. -/
theorem collect_ok {userDB : UserDB} {mailbox : List Message}
    {messages history : Dict String (List Value)}
    (collected : collect cipher userDB mailbox messages = .ok history) :
    ∀ qm ∈ mailbox, Readable cipher userDB qm := by
  induction mailbox generalizing messages with
  | nil => exact fun _ member => absurd member List.not_mem_nil
  | cons qm rest inductionHypothesis =>
    obtain ⟨message, opened, collected⟩ := ok_of_bind collected
    intro other member
    rcases List.mem_cons.mp member with rfl | later
    · exact (openMessage_ok userDB other).mp ⟨message, opened⟩
    · exact inductionHypothesis collected other later

/-- The call leaves an empty mailbox, whatever it returns. -/
theorem getMessageHistory_apply (node : Node) :
    getMessageHistory cipher node =
      (collect cipher node.userDB node.mailbox Dict.empty, { node with mailbox := [] }) := by
  simp only [getMessageHistory, Method.get_bind, Method.modify_bind, Method.compute_apply]

/-- A message whose content is listed can be opened. -/
theorem Lists.readable {userDB : UserDB} {history : Dict String (List Value)}
    {returned : List Message} (lists : Lists cipher userDB history returned) {qm : Message}
    (member : qm ∈ returned) : Readable cipher userDB qm := by
  obtain ⟨contents, opens, _⟩ := lists qm.sender
  have own : qm ∈ returned.filter fun other => other.sender = qm.sender := by
    simpa using member
  obtain ⟨place, inside, here⟩ := List.mem_iff_getElem.mp own
  have opened := opens.get inside (opens.length_eq ▸ inside)
  simp only [List.get_eq_getElem, here] at opened
  exact (openMessage_ok userDB qm).mp ⟨_, opened⟩

/-- A message that cannot be opened takes the whole mailbox with it. -/
theorem unreadable_lost (node : Node) (qm : Message) (member : qm ∈ node.mailbox)
    (unreadable : ¬ Readable cipher node.userDB qm) :
    ¬ Preserved cipher node (getMessageHistory cipher node) := by
  rintro ⟨kept, returned, split, remains, listed⟩
  rw [getMessageHistory_apply] at remains listed
  have gone : kept = [] := List.subperm_nil.mp remains
  subst gone
  have within : qm ∈ returned := split.mem_iff.mp member
  obtain ⟨history, _, lists⟩ := listed (List.ne_nil_of_mem within)
  exact unreadable (lists.readable within)

/-- What is listed for a sender are the contents of this sender's messages. -/
theorem grouped_getD (shown : List (String × Value)) (sender : String) :
    (grouped shown sender).getD [] =
      (shown.filter (fun entry => entry.1 = sender)).map Prod.snd := by
  rw [grouped]
  split
  · next none => exact none.symm
  · rfl

/-- No message is lost exactly if every message in the mailbox can be opened. The messages are
taken out before any is opened, so a single one that cannot be opened takes all the others with
it. -/
theorem history_preserves (cipher : Cipher) (node : Node) :
    Preserved cipher node (getMessageHistory cipher node) ↔
      ∀ qm ∈ node.mailbox, Readable cipher node.userDB qm := by
  constructor
  · intro preserved qm member
    by_contra unreadable
    exact unreadable_lost node qm member unreadable preserved
  · intro readable
    have : Nonempty Value := ⟨.null⟩
    choose! content opened using fun qm member =>
      (openMessage_ok node.userDB qm).mpr (readable qm member)
    let shown := node.mailbox.map fun qm => (qm.sender, content qm)
    have opens : List.Forall₂ (fun (qm : Message) (entry : String × Value) =>
        qm.sender = entry.1 ∧ openMessage cipher node.userDB qm = .ok entry.2)
        node.mailbox shown := by
      refine List.forall₂_map_right_iff.mpr (List.forall₂_same.mpr fun qm member => ?_)
      exact ⟨rfl, opened qm member⟩
    obtain ⟨history, collects, listed⟩ :=
      collect_grouped node.userDB node.mailbox shown opens [] Dict.empty fun _ => rfl
    refine ⟨[], node.mailbox, .refl _, List.nil_subperm, fun _ => ⟨history, ?_, fun sender =>
      ⟨(node.mailbox.filter fun qm => qm.sender = sender).map content, ?_, ?_⟩⟩⟩
    · rw [getMessageHistory_apply, collects]
    · refine List.forall₂_map_right_iff.mpr (List.forall₂_same.mpr fun qm member => ?_)
      exact opened qm (List.mem_of_mem_filter member)
    · have same : (history.get? sender).getD [] =
          (node.mailbox.filter fun qm => qm.sender = sender).map content := by
        rw [listed sender, List.nil_append, grouped_getD, List.filter_map, List.map_map]
        rfl
      rw [same]

end QChatClient

/-- A client with a readable chat message and one without any field. -/
def lossyNode : Node := { chatReceiver.node with mailbox := [chatMessage, sampleObject] }

/-- The readable message is lost as well. -/
theorem readable_message_lost :
    QChatClient.Readable sampleCipher lossyNode.userDB chatMessage ∧
      chatMessage ∈ lossyNode.mailbox ∧
      ¬ QChatClient.Preserved sampleCipher lossyNode
        (QChatClient.getMessageHistory sampleCipher lossyNode) := by
  have missing : ¬ QChatClient.Readable sampleCipher lossyNode.userDB sampleObject := by
    rintro (⟨_, _, _, _, _, _, _, field, _⟩ | ⟨other, _⟩)
    · cases field
    · cases other
  refine ⟨?_, List.mem_cons_self, QChatClient.unreadable_lost lossyNode sampleObject
    (List.mem_cons_of_mem _ List.mem_cons_self) missing⟩
  obtain ⟨_, content, _, opened⟩ :=
    QChatClient.openMessage_arrived sampleCipher_lawful chatText_linked chatText_arrives
  exact (QChatClient.openMessage_ok _ _).mp ⟨_, opened⟩

end QChat
