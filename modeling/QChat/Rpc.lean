import QChat.Acceptance
import QChat.History

/-!
# Remote procedure calls

What a user gets through `rpc.py`: one table of clients for all servers, and calls that
send a text or fetch what has arrived. A call for a user without a client fails, since the
client it tries to set up lacks its connection. Exceptions of a client end in the answer
`False` or in an empty dictionary.

Beside the clients it is noted what has happened at each of them, which messages were
stored, and what every call of `get_messages` has taken and answered.
-/

namespace QChat

open Function (update)

namespace QChatClient

variable (self : QChatCore) (cipher : Cipher)

/-- Sending a text leaves the sender's own messages where they are, unless the key protocol
changes them. -/
theorem sendQChatMessage_sameMessages {establish : Method Node Exn Unit}
    (keeps : ∀ node, SameMessages node (establish node).2) (nonce : Bytes) (user text : String)
    (node : Node) :
    SameMessages node (sendQChatMessage self cipher establish id nonce user text node).2 := by
  have encrypts (after : Node) : SameMessages after
      ((do
        let user_key ← (← Method.get).userDB.getMessageKey (.str user)
        let encoded ← Bytes.latin1 text
        let sealed ← cipher.encrypt user_key nonce encoded
        Message.ofDict .QCHTMessage self.name (cipherData nonce sealed.1 sealed.2) :
          Method Node Exn Message) after).2 := by
    simp only [Method.get_bind, Method.compute_bind]
    repeat' split
    all_goals exact SameMessages.refl after
  refine Method.bind_relates _ SameMessages.trans (QChatCore.resolveUser_sameMessages user node)
    fun _ resolved _ => ?_
  refine Method.bind_relates _ SameMessages.trans ?_ fun message created _ => ?_
  · simp only [createQChatMessage, Method.get_bind, Method.compute_bind]
    cases resolved.userDB.getMessageKey (.str user) with
    | error exception => exact SameMessages.refl resolved
    | ok stored =>
      dsimp only
      split
      · exact Method.bind_relates _ SameMessages.trans (keeps resolved)
          fun _ after _ => encrypts after
      · exact encrypts resolved
  · exact QChatCore.sendMessage_sameMessages user created message

end QChatClient

/-- The table of clients, which all servers share, and the clients. The table is an attribute of
the class in the source, so a server finds the clients of the others in it. -/
structure QChatRPCServer (Client : Type) where
  clients : Dict String Client
  node : Client → Node

/-- A `try` whose `except` gives a result of its own. -/
def Method.orElse {State Error α : Type} (method : Method State Error α) (other : α) :
    Method State Error α :=
  fun state => (.ok ((method state).1.toOption.getD other), (method state).2)

namespace QChatRPCServer

variable {Client : Type} [DecidableEq Client]

/-- A client has changed. -/
def change (server : QChatRPCServer Client) (client : Client) (after : Node) :
    QChatRPCServer Client :=
  { server with node := update server.node client after }

/-- A call of a client's method. -/
def onClient {α : Type} (client : Client) (method : Method Node Exn α) :
    Method (QChatRPCServer Client) Exn α :=
  fun server => ((method (server.node client)).1,
    server.change client (method (server.node client)).2)

/-- Checks that the specified user has a client. -/
def _ensure_client_for (user : String) : Method (QChatRPCServer Client) Exn Client := do
  match (← .get).clients.get? user with
  | some client => return client
  | none => .raise .TypeError

variable (core : Client → QChatCore) (cipher : Cipher)

/-- Forwards a text to the client of the user: whether it was sent. -/
def send_message (establish : Method Node Exn Unit) (nonce : Bytes)
    (user destination message : String) : Method (QChatRPCServer Client) Exn Bool := do
  let client ← _ensure_client_for user
  .orElse (do
    onClient client
      (QChatClient.sendQChatMessage (core client) cipher establish id nonce destination message)
    return true) false

/-- Retrieves the messages of the user's client, by sender. -/
def get_messages (user : String) :
    Method (QChatRPCServer Client) Exn (Dict String (List Value)) := do
  let client ← _ensure_client_for user
  .orElse (onClient client (QChatClient.getMessageHistory cipher)) Dict.empty

omit [DecidableEq Client] in
theorem ensure_client_for_apply (user : String) (server : QChatRPCServer Client) :
    _ensure_client_for user server =
      ((server.clients.get? user).elim (.error .TypeError) .ok, server) := by
  simp only [_ensure_client_for, Method.get_bind]
  cases server.clients.get? user <;> rfl

/-- A call for a user without a client fails and changes nothing. Otherwise it is answered
with the history of the user's client, or with nothing if the client raises. -/
theorem get_messages_apply (user : String) (server : QChatRPCServer Client) :
    get_messages cipher user server =
      match server.clients.get? user with
      | none => (.error .TypeError, server)
      | some client =>
        (.ok ((QChatClient.collect cipher (server.node client).userDB (server.node client).mailbox
            Dict.empty).toOption.getD Dict.empty),
          server.change client { server.node client with mailbox := [] }) := by
  rw [get_messages, Method.bind_apply, ensure_client_for_apply]
  cases server.clients.get? user with
  | none => rfl
  | some client =>
    simp only [Option.elim_some, Method.orElse, onClient, QChatClient.getMessageHistory_apply]

/-- A call of `send_message` leaves the messages of all clients where they are. -/
theorem send_message_sameMessages {establish : Method Node Exn Unit}
    (keeps : ∀ node, SameMessages node (establish node).2) (nonce : Bytes)
    (user destination message : String) (server : QChatRPCServer Client) (client : Client) :
    SameMessages (server.node client)
      ((send_message core cipher establish nonce user destination message server).2.node client) := by
  rw [send_message, Method.bind_apply, ensure_client_for_apply]
  cases server.clients.get? user with
  | none => exact SameMessages.refl _
  | some sender =>
    have sent := QChatClient.sendQChatMessage_sameMessages (core sender) cipher keeps nonce
      destination message (server.node sender)
    simp only [Option.elim_some, Method.orElse, Method.bind_apply, onClient, change]
    have called : SameMessages (server.node client) (update server.node sender
        (QChatClient.sendQChatMessage (core sender) cipher establish id nonce destination message
          (server.node sender)).2 client) := by
      by_cases same : client = sender
      · subst same
        rwa [Function.update_self]
      · rw [Function.update_of_ne same]
        exact SameMessages.refl _
    split <;> exact called

end QChatRPCServer

/-- What a call of `get_messages` has taken out of the mailbox, with the keys of that
moment, and what it has answered. -/
structure Fetch where
  taken : List Message
  userDB : UserDB
  answer : Dict String (List Value)

/-- The answer lists what every message says under its sender, in their order, if all can
be opened, and nothing otherwise. -/
structure Fetch.Answered (cipher : Cipher) (fetch : Fetch) : Prop where
  listed : (∀ qm ∈ fetch.taken, QChatClient.Readable cipher fetch.userDB qm) →
    ∃ shown, List.Forall₂ (fun (qm : Message) (entry : String × Value) => qm.sender = entry.1 ∧
        QChatClient.openMessage cipher fetch.userDB qm = .ok entry.2) fetch.taken shown ∧
      ∀ sender, fetch.answer.get? sender = QChatClient.grouped shown sender
  lost : (∃ qm ∈ fetch.taken, ¬ QChatClient.Readable cipher fetch.userDB qm) →
    fetch.answer = Dict.empty

/-- The clients with what has happened at each: the steps it has made, the messages that
were stored, and the calls of `get_messages`. -/
structure Service (Client : Type) where
  server : QChatRPCServer Client
  events : Client → List (Node × Event)
  stored : Client → List Message
  fetches : Client → List Fetch

namespace Service

variable {Client : Type} [DecidableEq Client] (core : Client → QChatCore) (cipher : Cipher)

/-- No client has a server yet. -/
def start : Service Client where
  server := ⟨Dict.empty, fun client => (core client).boot⟩
  events := fun _ => []
  stored := fun _ => []
  fetches := fun _ => []

/-- A server starts for a client, a call is made, or something happens at a client. Calls
that find no client change nothing and have no step. -/
inductive Step : Service Client → Service Client → Prop where
  | init (service : Service Client) (user : String) (client : Client) :
      Step service { service with
        server := { service.server with clients := service.server.clients.set user client } }
  | send_message (service : Service Client) (establish : Method Node Exn Unit)
      (keeps : ∀ node, SameMessages node (establish node).2) (nonce : Bytes)
      (user destination message : String) :
      Step service { service with
        server := (QChatRPCServer.send_message core cipher establish nonce user destination message
          service.server).2 }
  | get_messages (service : Service Client) (user : String) (client : Client)
      (named : service.server.clients.get? user = some client)
      (answer : Dict String (List Value))
      (answered : (QChatRPCServer.get_messages cipher user service.server).1 = .ok answer) :
      Step service { service with
        server := (QChatRPCServer.get_messages cipher user service.server).2
        events := update service.events client
          (service.events client ++ [(service.server.node client, .popMessages)])
        fetches := update service.fetches client (service.fetches client ++
          [⟨(service.server.node client).mailbox, (service.server.node client).userDB, answer⟩]) }
  | event (service : Service Client) (client : Client) (event : Event) (after : Node)
      (own : event ≠ .popMessages)
      (stepped : (core client).Step (service.server.node client) event after) :
      Step service { service with
        server := service.server.change client after
        events := update service.events client
          (service.events client ++ [(service.server.node client, event)])
        stored := update service.stored client (service.stored client ++
          after.mailbox.drop (service.server.node client).mailbox.length) }

def Reachable (service : Service Client) : Prop :=
  Relation.ReflTransGen (Step core cipher) (start core) service

/-- A message that the client has verified, or that a superdense session brought which its
sender had asked for. -/
def Admitted (service : Service Client) (client : Client) (message : Message) : Prop :=
  (core client).Vouched (service.events client) message ∨
    message.cls = .SPDSMessage ∧ (core client).Asked (service.events client) message.sender

/-- Every stored message is in one fetch or still in the mailbox, in the order in which it was
stored, and was admitted; and every fetch has been answered as its messages allow. -/
structure Sound (service : Service Client) (client : Client) : Prop where
  exact : service.stored client =
    (service.fetches client).flatMap Fetch.taken ++ (service.server.node client).mailbox
  origins : (core client).Origins (service.events client) (service.server.node client)
  admitted : ∀ message ∈ service.stored client, Admitted core service client message
  answered : ∀ fetch ∈ service.fetches client, fetch.Answered cipher

section Steps

variable {core cipher} {service : Service Client} {client : Client}

/-- Where the content of a node comes from does not change while its messages do not. -/
theorem origins_same {self : QChatCore} {steps : List (Node × Event)} {node after : Node}
    (origins : self.Origins steps node) (same : SameMessages node after) :
    self.Origins steps after where
  queue := by
    intro user message member
    rw [Node.queue, same.control_message_queue] at member
    exact origins.queue user message member
  mailbox := by
    rw [same.mailbox]
    exact origins.mailbox
  sessions := by
    rw [same.sessions]
    exact origins.sessions

omit [DecidableEq Client] in
theorem Admitted.later {message : Message} (admitted : Admitted core service client message)
    {after : Service Client} (more : List (Node × Event))
    (grown : after.events client = service.events client ++ more) :
    Admitted core after client message := by
  unfold Admitted
  rw [grown]
  exact admitted.imp (·.later more) fun asked => ⟨asked.1, asked.2.later more⟩

/-- What a call of `get_messages` answers is the history of what it takes. -/
theorem answered_fetch (user : String) (named : service.server.clients.get? user = some client)
    (answer : Dict String (List Value))
    (answered : (QChatRPCServer.get_messages cipher user service.server).1 = .ok answer) :
    Fetch.Answered cipher ⟨(service.server.node client).mailbox,
      (service.server.node client).userDB, answer⟩ := by
  simp only [QChatRPCServer.get_messages_apply, named, Except.ok.injEq] at answered
  subst answered
  constructor
  · intro readable
    have : Nonempty Value := ⟨.null⟩
    choose! content opened using fun qm member =>
      (QChatClient.openMessage_ok (service.server.node client).userDB qm).mpr (readable qm member)
    let shown := (service.server.node client).mailbox.map fun qm => (qm.sender, content qm)
    have opens : List.Forall₂ (fun (qm : Message) (entry : String × Value) =>
        qm.sender = entry.1 ∧
          QChatClient.openMessage cipher (service.server.node client).userDB qm = .ok entry.2)
        (service.server.node client).mailbox shown :=
      List.forall₂_map_right_iff.mpr (List.forall₂_same.mpr fun qm member => ⟨rfl, opened qm member⟩)
    obtain ⟨history, collects, listed⟩ := QChatClient.collect_grouped
      (service.server.node client).userDB _ shown opens [] Dict.empty fun _ => rfl
    refine ⟨shown, opens, fun sender => ?_⟩
    rw [collects]
    exact listed sender
  · rintro ⟨qm, member, unreadable⟩
    cases collected : QChatClient.collect cipher (service.server.node client).userDB
        (service.server.node client).mailbox Dict.empty with
    | error exception => rfl
    | ok history => exact absurd (QChatClient.collect_ok collected qm member) unreadable

/-- An event but for the emptying of the mailbox stores at most one message. -/
theorem grows {self : QChatCore} {node after : Node} {event : Event}
    (own : event ≠ .popMessages) (gate : self.Gate node event after) :
    after.mailbox = node.mailbox ++ after.mailbox.drop node.mailbox.length := by
  rcases gate.mailbox with same | ⟨popped, -⟩ | ⟨message, grown, -⟩
  · rw [same, List.drop_length, List.append_nil]
  · exact absurd popped own
  · rw [grown, List.drop_left]

omit [DecidableEq Client] in
/-- What happens elsewhere does not matter. -/
theorem Sound.elsewhere (sound : Sound core cipher service client) {after : Service Client}
    (node : after.server.node client = service.server.node client)
    (events : after.events client = service.events client)
    (stored : after.stored client = service.stored client)
    (fetches : after.fetches client = service.fetches client) :
    Sound core cipher after client := by
  constructor
  · rw [stored, fetches, node]
    exact sound.exact
  · rw [events, node]
    exact sound.origins
  · intro message member
    rw [stored] at member
    refine (sound.admitted message member).later [] ?_
    rw [events, List.append_nil]
  · rw [fetches]
    exact sound.answered

theorem Sound.step (checks : (core client).allow_invalid_signatures = false)
    (sound : Sound core cipher service client) {after : Service Client}
    (stepped : Step core cipher service after) : Sound core cipher after client := by
  cases stepped with
  | init user named => exact sound.elsewhere rfl rfl rfl rfl
  | send_message establish keeps nonce user destination message =>
    have same := QChatRPCServer.send_message_sameMessages core cipher keeps nonce user destination
      message service.server client
    exact ⟨sound.exact.trans (by rw [same.mailbox]), origins_same sound.origins same,
      sound.admitted, sound.answered⟩
  | get_messages user fetcher named answer answered =>
    have took : (QChatRPCServer.get_messages cipher user service.server).2.node =
        update service.server.node fetcher { service.server.node fetcher with mailbox := [] } := by
      simp only [QChatRPCServer.get_messages_apply, named, QChatRPCServer.change]
    by_cases same : client = fetcher
    · subst same
      have fetched := answered_fetch user named answer answered
      constructor
      · simp only [took, Function.update_self, List.flatMap_append, List.flatMap_singleton,
          List.append_nil]
        exact sound.exact
      · simp only [took, Function.update_self]
        exact sound.origins.step (QChatCore.step_gate checks .popMessages)
      · intro message member
        exact (sound.admitted message member).later _ (Function.update_self ..)
      · intro fetch member
        simp only [Function.update_self] at member
        rcases List.mem_append.mp member with earlier | last
        · exact sound.answered fetch earlier
        · rw [List.mem_singleton.mp last]
          exact fetched
    · refine sound.elsewhere ?_ (Function.update_of_ne same ..) rfl (Function.update_of_ne same ..)
      rw [took, Function.update_of_ne same]
  | event actor event changed own stepped =>
    by_cases same : client = actor
    · subst same
      have gate := QChatCore.step_gate checks stepped
      have origins := sound.origins.step gate
      constructor
      · simp only [QChatRPCServer.change, Function.update_self]
        rw [sound.exact, List.append_assoc, ← grows own gate]
      · simp only [QChatRPCServer.change, Function.update_self]
        exact origins
      · intro message member
        simp only [Function.update_self] at member
        rcases List.mem_append.mp member with earlier | fresh
        · exact (sound.admitted message earlier).later _ (Function.update_self ..)
        · simp only [Admitted, Function.update_self]
          exact origins.mailbox message (List.mem_of_mem_drop fresh)
      · exact sound.answered
    · exact sound.elsewhere (Function.update_of_ne same ..) (Function.update_of_ne same ..)
        (Function.update_of_ne same ..) rfl

end Steps

/-- However calls of the servers and the events of the clients follow each other: every message
that is stored at a client that checks signatures was admitted there, and is taken by exactly
one call of `get_messages` or still in the mailbox, in the order in which it was stored. A call
answers with everything it has taken, or with nothing.

Proof: the messages stored at a client are those its calls have taken, followed by the mailbox.
An event adds the same to both sides, and a call moves the mailbox to what was taken, even if it
cannot open it and answers with nothing. -/
theorem fetched_once (client : Client) (checks : (core client).allow_invalid_signatures = false)
    (service : Service Client) (reached : Reachable core cipher service) :
    service.stored client =
        (service.fetches client).flatMap Fetch.taken ++ (service.server.node client).mailbox ∧
      (∀ message ∈ service.stored client, Admitted core service client message) ∧
      ∀ fetch ∈ service.fetches client, fetch.Answered cipher := by
  have sound : Sound core cipher service client := by
    induction reached with
    | refl =>
      refine ⟨rfl, QChatCore.runs_origins checks .nil, fun message member => ?_,
        fun fetch member => ?_⟩
      · cases member
      · cases member
    | tail _ stepped inductionHypothesis => exact inductionHypothesis.step checks stepped
  exact ⟨sound.exact, sound.admitted, sound.answered⟩

/-- A signed message reaches the client, and a call of `get_messages` fetches it. -/
theorem fetched_once_solo : ∃ service : Service Unit,
    service.stored () = [soloMessage] ∧
      service.stored () =
        (service.fetches ()).flatMap Fetch.taken ++ (service.server.node ()).mailbox ∧
      ∀ fetch ∈ service.fetches (), fetch.Answered sampleCipher := by
  let core : Unit → QChatCore := soloNetwork.core
  have begun := Relation.ReflTransGen.refl.tail
    (show Step core sampleCipher (start core) _ from .init (start core) "alice" ())
  have arrived := begun.tail (.event _ () (.inbound soloSigned) _ nofun (.inbound soloSigned))
  have fetched := arrived.tail (.get_messages _ "alice" () rfl _ rfl)
  obtain ⟨exact, -, answered⟩ := fetched_once core sampleCipher () rfl _ fetched
  exact ⟨_, rfl, exact, answered⟩

end Service

end QChat
