import QChat.DIQKD
import QChat.Peers

/-!
# Pairs of several sessions

Any number of clients and key sessions between them share one source of pairs. A half
carries no mark of the session it is for: a client takes the halves of the pairs it has
requested in the order of their arrival, whoever it leads a session with, and the halves
sent to it likewise. The source serves the requests in any order, and the two halves of
a pair leave it one after the other.

A session consists of its distributions, one after the other. What the two ends exchange
between two distributions takes no halves and is left out. Messages name no session
either; the sessions of messages and pairs are noted here only to say what an end takes.

An end that waits for a half or for a message gives up after a minute, and what it has
waited for may still arrive: a session can leave halves, acknowledgements and requests
behind for the next one.
-/

namespace QChat

open Function (update)
open Process

/-- Programs of a leader and a follower that go through rounds together. In a round the
leader requests a pair, both take a half, and they exchange two messages. -/
inductive Rounds : Program Unit → Program Unit → Prop where
  | done : Rounds (.done ()) (.done ())
  | round (question answer : Message) (afterReply respond : Message → Program Unit)
      (next : Program Unit) (answers : respond question = .send answer next)
      (rest : Rounds (afterReply answer) next) :
      Rounds (.signal .lead () (.signal .follow () (.await .lead fun _ =>
        .send question (.receive afterReply)))) (.await .follow fun _ => .receive respond)

/-- The distributions of a session of one of the two classes, one round of them after the other,
and nothing in between: what a protocol does with the outcomes uses no qubits. -/
inductive Distributions : (Side → Program Unit) → Prop where
  | none : Distributions fun _ => .done ()
  | BB84_Purified (peers : Peers) (key_size : Value) (round : Nat) (next : Side → Program Unit)
      (rest : Distributions next) :
      Distributions fun side =>
        BB84_Purified._receive_bb84_states (peers.endpoint .BB84_Purified key_size side) round >>=
          fun _ => next side
  | DIQKD (peers : Peers) (key_size : Value) (device : Side → DeviceChances) (round : Nat)
      (next : Side → Program Unit) (rest : Distributions next) :
      Distributions (Side.select
        (DIQKD._device_independent_distribute_bb84 (peers.endpoint .DIQKD key_size .lead)
          (device .lead) round >>= fun _ => next .lead)
        (DIQKD._device_independent_receive_bb84 (peers.endpoint .DIQKD key_size .follow)
          (device .follow) round >>= fun _ => next .follow))

section loops

variable (peers : Peers) {key_size : Value} {next : Side → Program Unit}

/-- A round in which both ends send an acknowledgement and go on when they have the
other's. -/
theorem Rounds.acknowledged {protocol : ProtocolClass} (message_type : MessageClass)
    (failure : Side → String) {lead follow : Program Unit} (goesOn : Rounds lead follow) :
    Rounds
      (do
        (peers.endpoint protocol key_size .lead).requestEPR
        (peers.endpoint protocol key_size .lead).receiveEPR
        let r ← (peers.endpoint protocol key_size .lead).exchange_messages [("ack", .bool true)]
          message_type
        Endpoint.require r "ack" (failure .lead)
        lead)
      (do
        (peers.endpoint protocol key_size .follow).receiveEPR
        let r ← (peers.endpoint protocol key_size .follow).exchange_messages [("ack", .bool true)]
          message_type
        Endpoint.require r "ack" (failure .follow)
        follow) := by
  let ack (side : Side) : Message := peers.message side message_type [("ack", .bool true)]
  let after (side : Side) (m : Message) : Program Unit := do
    Endpoint.require m "ack" (failure side)
    Side.select lead follow side
  have leads : (do
      (peers.endpoint protocol key_size .lead).requestEPR
      (peers.endpoint protocol key_size .lead).receiveEPR
      let r ← (peers.endpoint protocol key_size .lead).exchange_messages [("ack", .bool true)]
        message_type
      after .lead r : Program Unit) = .signal .lead () (.signal .follow () (.await .lead fun _ =>
        .send (ack .lead) (.receive (Peers.accept message_type (after .lead))))) := by
    simp only [Endpoint.requestEPR, Endpoint.receiveEPR, Peers.endpoint_role, signal_bind,
      done_bind, await_bind, Peers.exchange_lead, send_bind, Peers.wait_bind]
    rfl
  let respond (m : Message) : Program Unit :=
    Peers.accept message_type (fun m => .send (ack .follow) (.done m)) m >>= after .follow
  have follows : (do
      (peers.endpoint protocol key_size .follow).receiveEPR
      let r ← (peers.endpoint protocol key_size .follow).exchange_messages [("ack", .bool true)]
        message_type
      after .follow r : Program Unit) = .await .follow fun _ => .receive respond := by
    simp only [Endpoint.receiveEPR, Peers.endpoint_role, done_bind, await_bind,
      Peers.exchange_follow, Peers.wait_bind, receive_bind]
    rfl
  have answers : respond (ack .lead) = .send (ack .follow) (after .follow (ack .lead)) := by
    simp only [respond, ack, Peers.accept_message, send_bind, done_bind]
  have whole := Rounds.round (ack .lead) (ack .follow) (Peers.accept message_type (after .lead))
    respond _ answers (by
      simpa only [ack, after, Peers.accept_message, Peers.require_message, done_bind,
        Side.select_lead, Side.select_follow] using goesOn)
  rw [← leads, ← follows] at whole
  exact whole

/-- The loop of a BB84 session, on both sides: as many rounds as positions are missing, and then
what follows. -/
theorem Rounds.receive_loop (round missing : Nat) (x theta : Side → List Bit)
    (goesOn : Rounds (next .lead) (next .follow)) :
    Rounds
      (BB84_Purified.receive_loop (peers.endpoint .BB84_Purified key_size .lead) round missing
        (x .lead) (theta .lead) >>= fun _ => next .lead)
      (BB84_Purified.receive_loop (peers.endpoint .BB84_Purified key_size .follow) round missing
        (x .follow) (theta .follow) >>= fun _ => next .follow) := by
  induction missing generalizing x theta with
  | zero => exact goesOn
  | succ missing inductionHypothesis =>
    have again := inductionHypothesis
      (fun side => x side ++ [(peers.chances side).measure round (x side).length])
      (fun side => theta side ++ [(peers.chances side).basisflip round (theta side).length])
    simp only [BB84_Purified.receive_loop, Peers.endpoint_role, ↓reduceIte, reduceCtorEq, bind_assoc]
    exact Rounds.acknowledged peers .BB84Message (fun _ => "Error distributing EPR states") again

/-- The loops of a DIQKD session: the leader's loop requests the pairs, the follower's does
not. -/
theorem Rounds.distribute_loop (device : Side → DeviceChances) (round : Nat)
    {leading following : List Nat} (same : leading.length = following.length) (x : Side → List Bit)
    (goesOn : Rounds (next .lead) (next .follow)) :
    Rounds
      (DIQKD.distribute_loop (peers.endpoint .DIQKD key_size .lead) (device .lead) round leading
        (x .lead) >>= fun _ => next .lead)
      (DIQKD.receive_loop (peers.endpoint .DIQKD key_size .follow) (device .follow) round following
        (x .follow) >>= fun _ => next .follow) := by
  induction leading generalizing following x with
  | nil =>
    obtain rfl : following = [] := List.length_eq_zero_iff.mp same.symm
    exact goesOn
  | cons basis leading inductionHypothesis =>
    cases following with
    | nil => cases same
    | cons other following =>
      have again := inductionHypothesis (Nat.succ.inj same)
        (fun side => x side ++ [(device side).measure round (x side).length])
      simp only [DIQKD.distribute_loop, DIQKD.receive_loop, bind_assoc]
      exact Rounds.acknowledged peers .DQKDMessage
        (Side.select "Error distributing DI states" "Error receiving DI states") again

end loops

/-- The two ends of a session go through rounds together, one distribution after the other. -/
theorem Distributions.rounds {code : Side → Program Unit} (distributions : Distributions code) :
    Rounds (code .lead) (code .follow) := by
  induction distributions with
  | none => exact .done
  | BB84_Purified peers key_size round next rest inductionHypothesis =>
    exact Rounds.receive_loop peers round ROUND_SIZE (fun _ => []) (fun _ => []) inductionHypothesis
  | DIQKD peers key_size device round next rest inductionHypothesis =>
    simp only [Side.select_lead, Side.select_follow, DIQKD._device_independent_distribute_bb84,
      DIQKD._device_independent_receive_bb84, bind_assoc, pure_bind]
    exact Rounds.distribute_loop peers device round (by simp) (fun _ => []) inductionHypothesis

/-- A pair of the source: the session that requested it and the number of the request. Neither
is known to the source or to the users, who find halves by the name of a user only. -/
structure Pair where
  session : Nat
  number : Nat
deriving DecidableEq

/-- The first pairs of a session, in the order of their requests. -/
def pairs (position number : Nat) : List Pair := (List.range number).map (Pair.mk position)

theorem pairs_succ (position number : Nat) :
    pairs position (number + 1) = pairs position number ++ [⟨position, number⟩] := by
  simp [pairs, List.range_succ]

/-- A session between two users. An end measures the half it takes in a round and records
the outcome for this round; `taken` are the pairs of these halves. -/
structure QubitSession (User : Type) where
  user : Side → User
  code : Side → Program Unit
  requested : Nat
  taken : Side → List Pair

/-- The sessions, the source and what is on the way. `halved` are the pairs of which only
the leader's half has left the source. A user finds the halves of pairs it requested, or
those sent to it, in the order of their arrival, and has a queue for the control messages
of every other user. -/
structure QubitNetwork (User : Type) where
  sessions : List (QubitSession User)
  requests : List Pair
  halved : List Pair
  received : Side → User → List Pair
  travelling : List Envelope
  queue : User → User → List Envelope

/-- What is on the way for one session: its requests, the pairs of which one half has left the
source, the halves that wait at its users, and its messages. -/
@[ext] structure View where
  requests : List Pair
  halved : List Pair
  received : Side → List Pair
  messages : Side → List Message

theorem View.of_sides {one two : View} (requests : one.requests = two.requests)
    (halved : one.halved = two.halved) (received : ∀ side, one.received side = two.received side)
    (messages : ∀ side, one.messages side = two.messages side) : one = two :=
  View.ext requests halved (funext received) (funext messages)

namespace QubitNetwork

variable {User : Type}

/-- The pairs of a session among those that are there for all. -/
def mine (position : Nat) (list : List Pair) : List Pair :=
  list.filter fun pair => pair.session = position

/-- The messages to an end of a session among those that are there for all. -/
def toEnd (position : Nat) (side : Side) (list : List Envelope) : List Envelope :=
  list.filter fun envelope => envelope.session = position ∧ envelope.side = side

@[simp] theorem toEnd_nil (position : Nat) (side : Side) : toEnd position side [] = [] := rfl

theorem toEnd_append (position : Nat) (side : Side) (one two : List Envelope) :
    toEnd position side (one ++ two) = toEnd position side one ++ toEnd position side two :=
  List.filter_append one two

theorem toEnd_cons (position : Nat) (side : Side) (envelope : Envelope) (list : List Envelope) :
    toEnd position side (envelope :: list) =
      if envelope.session = position ∧ envelope.side = side then
        envelope :: toEnd position side list
      else toEnd position side list := by
  simp only [toEnd, List.filter_cons, decide_eq_true_eq]

/-- What is on the way for a session between two users. The halves are looked up at its users,
and its messages in the queues of these and on their way. -/
def view (net : QubitNetwork User) (position : Nat) (user : Side → User) : View where
  requests := mine position net.requests
  halved := mine position net.halved
  received := fun side => mine position (net.received side (user side))
  messages := fun side =>
    (toEnd position side (net.queue (user side) (user side.other) ++ net.travelling)).map
      (·.message)

/-- What a step is for the session it belongs to: the session starts, goes on, or fails at one
of its ends. Steps of the source and of the connections count as going on. -/
inductive Act where
  | start
  | goOn
  | giveUp
deriving DecidableEq

/-- An end has returned or raised, and takes nothing any more. -/
def Ended (process : Program Unit) : Prop :=
  process = .done () ∨ ∃ error, process = .raised error

variable [DecidableEq User]

/-- One step of an end of a session, of the source, or of the connections. `giveUp` is a
wait that has timed out, or an action that has raised. -/
inductive Step : QubitNetwork User → Act → QubitNetwork User → Prop where
  | start (net : QubitNetwork User) (user : Side → User) (code : Side → Program Unit)
      (different : user .lead ≠ user .follow) (distributions : Distributions code) :
      Step net .start { net with sessions := net.sessions ++ [⟨user, code, 0, fun _ => []⟩] }
  | requestEPR (net : QubitNetwork User) (position : Nat) (session : QubitSession User)
      (rest : Program Unit) (running : net.sessions[position]? = some session)
      (acts : session.code .lead = .signal .lead () (.signal .follow () rest)) :
      Step net .goOn { net with
        sessions := net.sessions.set position { session with
          code := update session.code .lead rest
          requested := session.requested + 1 }
        requests := net.requests ++ [⟨position, session.requested⟩] }
  | createEPR (net : QubitNetwork User) (before after : List Pair) (pair : Pair)
      (session : QubitSession User) (pending : net.requests = before ++ pair :: after)
      (running : net.sessions[pair.session]? = some session) :
      Step net .goOn { net with
        requests := before ++ after
        halved := net.halved ++ [pair]
        received := update net.received .lead (update (net.received .lead) (session.user .lead)
          (net.received .lead (session.user .lead) ++ [pair])) }
  | sendQubit (net : QubitNetwork User) (before after : List Pair) (pair : Pair)
      (session : QubitSession User) (pending : net.halved = before ++ pair :: after)
      (running : net.sessions[pair.session]? = some session) :
      Step net .goOn { net with
        halved := before ++ after
        received := update net.received .follow (update (net.received .follow)
          (session.user .follow) (net.received .follow (session.user .follow) ++ [pair])) }
  | receiveEPR (net : QubitNetwork User) (position : Nat) (session : QubitSession User)
      (side : Side) (pair : Pair) (others : List Pair) (rest : Unit → Program Unit)
      (running : net.sessions[position]? = some session)
      (acts : session.code side = .await side rest)
      (ready : net.received side (session.user side) = pair :: others) :
      Step net .goOn { net with
        sessions := net.sessions.set position { session with
          code := update session.code side (rest ())
          taken := update session.taken side (session.taken side ++ [pair]) }
        received := update net.received side
          (update (net.received side) (session.user side) others) }
  | _send_control_message (net : QubitNetwork User) (position : Nat)
      (session : QubitSession User) (side : Side) (message : Message) (rest : Program Unit)
      (running : net.sessions[position]? = some session)
      (acts : session.code side = .send message rest) :
      Step net .goOn { net with
        sessions := net.sessions.set position
          { session with code := update session.code side rest }
        travelling := net.travelling ++ [⟨position, side.other, message⟩] }
  | _store_control_message (net : QubitNetwork User) (before after : List Envelope)
      (envelope : Envelope) (session : QubitSession User)
      (pending : net.travelling = before ++ envelope :: after)
      (running : net.sessions[envelope.session]? = some session) :
      Step net .goOn { net with
        travelling := before ++ after
        queue := update net.queue (session.user envelope.side)
          (update (net.queue (session.user envelope.side)) (session.user envelope.side.other)
            (net.queue (session.user envelope.side) (session.user envelope.side.other) ++
              [envelope])) }
  | _wait_for_control_message (net : QubitNetwork User) (position : Nat)
      (session : QubitSession User) (side : Side) (envelope : Envelope) (others : List Envelope)
      (rest : Message → Program Unit) (running : net.sessions[position]? = some session)
      (acts : session.code side = .receive rest)
      (ready : net.queue (session.user side) (session.user side.other) = envelope :: others) :
      Step net .goOn { net with
        sessions := net.sessions.set position
          { session with code := update session.code side (rest envelope.message) }
        queue := update net.queue (session.user side)
          (update (net.queue (session.user side)) (session.user side.other) others) }
  | giveUp (net : QubitNetwork User) (position : Nat) (session : QubitSession User) (side : Side)
      (error : Exn) (running : net.sessions[position]? = some session)
      (goesOn : ¬ Ended (session.code side)) :
      Step net .giveUp { net with
        sessions := net.sessions.set position
          { session with code := update session.code side (.raised error) } }

/-- Nothing has happened yet: there are no sessions, and nothing is on the way. -/
def initial : QubitNetwork User := ⟨[], [], [], fun _ _ => [], [], fun _ _ => []⟩

abbrev Reaches (net : QubitNetwork User) : Prop :=
  Relation.ReflTransGen (fun before after => ∃ act, Step before act after) initial net

/-- Both ends are through with all rounds and have returned. -/
def Finished (session : QubitSession User) : Prop := ∀ side, session.code side = .done ()

/-- Both ends of a session have returned or raised, and nothing of it is left: no request
or half-sent pair at the source, no half that one of its users could still take, and no
message on its way or in a queue. -/
structure Over (net : QubitNetwork User) (position : Nat) (session : QubitSession User) :
    Prop where
  ended : ∀ side, Ended (session.code side)
  clear : net.view position session.user = ⟨[], [], fun _ => [], fun _ => []⟩

/-- Two sessions have different leaders and different followers, and are not between the
same two users. -/
def Apart (one two : QubitSession User) : Prop :=
  (∀ side, one.user side ≠ two.user side) ∧ ¬ ∀ side, one.user side = two.user side.other

/-- A run in which a session starts only when every earlier one is over or apart from
it. -/
abbrev ReachesApart (net : QubitNetwork User) : Prop :=
  Relation.ReflTransGen (fun before after => (∃ act, Step before act after) ∧
    ∀ session, after.sessions = before.sessions ++ [session] →
      ∀ (position : Nat) (other : QubitSession User), before.sessions[position]? = some other →
        ¬ Over before position other → Apart other session) initial net

/-- A run in which a session starts only when both ends of every earlier one have returned
or raised, whatever they have left. -/
abbrev ReachesInTurn (net : QubitNetwork User) : Prop :=
  Relation.ReflTransGen (fun before after => (∃ act, Step before act after) ∧
    (after.sessions.length = before.sessions.length ∨
      ∀ session ∈ before.sessions, ∀ side, Ended (session.code side))) initial net

/-- The outcomes that the two ends of a session record for a round come from the two
halves of one pair. -/
def Paired (net : QubitNetwork User) : Prop :=
  ∀ (position : Nat) (session : QubitSession User),
    net.sessions[position]? = some session → ∀ (round : Nat) (one two : Pair),
    (session.taken .lead)[round]? = some one → (session.taken .follow)[round]? = some two →
      one = two

end QubitNetwork

/-- One round of a session: what the ends say and how they go on. The follower answers the
question and both go on with the next round. -/
structure Round where
  question : Message
  answer : Message
  afterReply : Message → Program Unit
  respond : Message → Program Unit
  next : Program Unit
  answers : respond question = .send answer next
  rest : Rounds (afterReply answer) next

/-- Where the leader is in a round: it waits for its half, or is about to ask, or has asked and
listens. -/
inductive LeadAt where
  | awaiting
  | asking
  | listening
deriving DecidableEq

/-- Where the follower is in a round: it waits for its half, listens for the question, is about
to answer, or has answered and is through. -/
inductive FollowAt where
  | awaiting
  | listening
  | answering
  | finished
deriving DecidableEq

/-- Where the pair of a round is: requested, half sent, or sent. The leader's half leaves the
source first. -/
inductive PairAt where
  | requested
  | halved
  | shared
deriving DecidableEq

/-- Something in a list of at most one entry is all of it. -/
theorem only_entry {α : Type} {present : Prop} [Decidable present] {before after : List α}
    {found it : α} (split : before ++ found :: after = if present then [it] else []) :
    present ∧ found = it ∧ before = [] ∧ after = [] := by
  by_cases holds : present
  · rw [if_pos holds] at split
    rcases List.append_eq_singleton_iff.mp split with ⟨first, rest⟩ | ⟨-, rest⟩
    · obtain ⟨same, last⟩ := List.cons.inj rest
      exact ⟨holds, same, first, last⟩
    · cases rest
  · rw [if_neg holds] at split
    simp at split

namespace Round

variable (round : Round)

def leads : LeadAt → Program Unit
  | .awaiting => .await .lead fun _ => .send round.question (.receive round.afterReply)
  | .asking => .send round.question (.receive round.afterReply)
  | .listening => .receive round.afterReply

def follows : FollowAt → Program Unit
  | .awaiting => .await .follow fun _ => .receive round.respond
  | .listening => .receive round.respond
  | .answering => .send round.answer round.next
  | .finished => round.next

/-- What is on the way in a round, where its ends and its pair are. A half is there until its
end has taken it, a message until it has been taken. -/
def view (it : Pair) (lead : LeadAt) (follow : FollowAt) (pair : PairAt) : View where
  requests := if pair = .requested then [it] else []
  halved := if pair = .halved then [it] else []
  received := Side.select
    (if pair ≠ .requested ∧ lead = .awaiting then [it] else [])
    (if pair = .shared ∧ follow = .awaiting then [it] else [])
  messages := Side.select
    (if follow = .finished then [round.answer] else [])
    (if lead = .listening ∧ (follow = .awaiting ∨ follow = .listening) then [round.question]
      else [])

end Round

/-- The places the parts of a round can be in at one time. A half is taken after it was sent,
and a question is answered after it was asked. -/
structure Possible (lead : LeadAt) (follow : FollowAt) (pair : PairAt) : Prop where
  lead_took : lead ≠ .awaiting → pair ≠ .requested
  follow_took : follow ≠ .awaiting → pair = .shared
  asked : follow = .answering ∨ follow = .finished → lead = .listening

/-- A session and what is on the way for it: between two rounds, or in a round. Between two
rounds nothing is on the way, and both ends have taken all pairs that were requested, in the
order of their numbers. -/
inductive RoundStage {User : Type} (position : Nat) (session : QubitSession User) (view : View) :
    Prop where
  | between (rounds : Rounds (session.code .lead) (session.code .follow))
      (taken : ∀ side, session.taken side = pairs position session.requested)
      (clear : view = ⟨[], [], fun _ => [], fun _ => []⟩)
  | during (round : Round) (number : Nat) (lead : LeadAt) (follow : FollowAt) (pair : PairAt)
      (possible : Possible lead follow pair) (leads : session.code .lead = round.leads lead)
      (follows : session.code .follow = round.follows follow)
      (requested : session.requested = number + 1)
      (tookLead : session.taken .lead =
        pairs position (if lead = .awaiting then number else number + 1))
      (tookFollow : session.taken .follow =
        pairs position (if follow = .awaiting then number else number + 1))
      (shown : view = round.view ⟨position, number⟩ lead follow pair)

/-- Two ends that go through rounds together are through, or before a round. Nothing else can be
in front of them. -/
theorem Rounds.inversion {lead follow : Program Unit} (rounds : Rounds lead follow) :
    (lead = .done () ∧ follow = .done ()) ∨
    ∃ round : Round, lead = .signal .lead () (.signal .follow () (round.leads .awaiting)) ∧
      follow = round.follows .awaiting := by
  cases rounds with
  | done => exact Or.inl ⟨rfl, rfl⟩
  | round question answer afterReply respond next answers rest =>
    exact Or.inr ⟨⟨question, answer, afterReply, respond, next, answers, rest⟩, rfl, rfl⟩

namespace RoundStage

variable {User : Type} {position : Nat} {session : QubitSession User} {view : View}

/-- The leader requests a pair between two rounds only. -/
theorem requestEPR (stage : RoundStage position session view) {rest : Program Unit}
    (acts : session.code .lead = .signal .lead () (.signal .follow () rest)) :
    RoundStage position
      { session with code := update session.code .lead rest, requested := session.requested + 1 }
      { view with requests := view.requests ++ [⟨position, session.requested⟩] } := by
  cases stage with
  | between rounds taken clear =>
    rcases rounds.inversion with ⟨leads, -⟩ | ⟨round, leads, follows⟩
    · rw [acts] at leads
      cases leads
    · rw [acts] at leads
      obtain rfl : rest = round.leads .awaiting := by simpa using leads
      subst clear
      refine .during round session.requested .awaiting .awaiting .requested ⟨?_, ?_, ?_⟩ ?_ ?_ rfl
        (taken .lead) (taken .follow) ?_
      · exact fun moved => absurd rfl moved
      · exact fun moved => absurd rfl moved
      · rintro (ahead | ahead) <;> cases ahead
      · simp
      · simpa using follows
      · exact View.of_sides rfl rfl (fun side => by cases side <;> rfl)
          (fun side => by cases side <;> rfl)
  | during round number lead follow pair possible leads =>
    rw [acts] at leads
    cases lead <;> cases leads

/-- The source starts on the request of the round. -/
theorem createEPR (stage : RoundStage position session view) {before after : List Pair} {pair : Pair}
    (pending : view.requests = before ++ pair :: after) :
    RoundStage position session { view with
      requests := before ++ after
      halved := view.halved ++ [pair]
      received := update view.received .lead (view.received .lead ++ [pair]) } := by
  cases stage with
  | between rounds taken clear =>
    subst clear
    simp at pending
  | during round number lead follow place possible leads follows requested tookLead tookFollow
      shown =>
    subst shown
    obtain ⟨rfl, rfl, rfl, rfl⟩ := only_entry pending.symm
    have awaits : lead = .awaiting := by
      by_contra moved
      exact possible.lead_took moved rfl
    have idle : follow = .awaiting := by
      by_contra moved
      cases possible.follow_took moved
    subst awaits idle
    refine .during round number .awaiting .awaiting .halved ⟨?_, ?_, possible.asked⟩ leads follows
      requested tookLead tookFollow (View.of_sides rfl rfl ?_ ?_)
    · exact fun moved => absurd rfl moved
    · exact fun moved => absurd rfl moved
    · intro side
      cases side <;> rfl
    · intro side
      rfl

/-- The source sends the second half. -/
theorem sendQubit (stage : RoundStage position session view) {before after : List Pair} {pair : Pair}
    (pending : view.halved = before ++ pair :: after) :
    RoundStage position session { view with
      halved := before ++ after
      received := update view.received .follow (view.received .follow ++ [pair]) } := by
  cases stage with
  | between rounds taken clear =>
    subst clear
    simp at pending
  | during round number lead follow place possible leads follows requested tookLead tookFollow
      shown =>
    subst shown
    obtain ⟨rfl, rfl, rfl, rfl⟩ := only_entry pending.symm
    have idle : follow = .awaiting := by
      by_contra moved
      cases possible.follow_took moved
    subst idle
    refine .during round number lead .awaiting .shared ⟨?_, ?_, possible.asked⟩ leads follows
      requested tookLead tookFollow (View.of_sides rfl rfl ?_ ?_)
    · exact fun _ => by decide
    · exact fun _ => rfl
    · intro side
      cases side <;> simp [Round.view]
    · intro side
      rfl

/-- An end takes the half of the round. -/
theorem receiveEPR (stage : RoundStage position session view) {side : Side} {pair : Pair}
    {others : List Pair} {rest : Unit → Program Unit} (acts : session.code side = .await side rest)
    (ready : view.received side = pair :: others) :
    RoundStage position
      { session with
        code := update session.code side (rest ())
        taken := update session.taken side (session.taken side ++ [pair]) }
      { view with received := update view.received side others } := by
  cases stage with
  | between rounds taken clear =>
    subst clear
    cases ready
  | during round number lead follow place possible leads follows requested tookLead tookFollow
      shown =>
    subst shown
    cases side with
    | lead =>
      have whole : [] ++ pair :: others = _ := ready.symm
      obtain ⟨⟨halved, rfl⟩, rfl, -, rfl⟩ := only_entry whole
      obtain rfl : rest = _ := by simpa [Round.leads] using acts.symm.trans leads
      refine .during round number .asking follow place ⟨fun _ => halved, possible.follow_took, ?_⟩
        (by simp [Round.leads]) (by simpa using follows) requested ?_ (by simpa using tookFollow)
        (View.of_sides rfl rfl ?_ ?_)
      · intro ahead
        cases possible.asked ahead
      · simp [tookLead, pairs_succ]
      · intro side
        cases side <;> simp [Round.view]
      · intro side
        cases side <;> simp [Round.view]
    | follow =>
      have whole : [] ++ pair :: others = _ := ready.symm
      obtain ⟨⟨rfl, rfl⟩, rfl, -, rfl⟩ := only_entry whole
      obtain rfl : rest = _ := by simpa [Round.follows] using acts.symm.trans follows
      refine .during round number lead .listening .shared ⟨possible.lead_took, fun _ => rfl, ?_⟩
        (by simpa using leads) (by simp [Round.follows]) requested (by simpa using tookLead) ?_
        (View.of_sides rfl rfl ?_ ?_)
      · rintro (ahead | ahead) <;> cases ahead
      · simp [tookFollow, pairs_succ]
      · intro side
        cases side <;> simp [Round.view]
      · intro side
        cases side <;> simp [Round.view]

/-- An end speaks when it is its turn in a round. -/
theorem send (stage : RoundStage position session view) {side : Side} {message : Message}
    {rest : Program Unit} (acts : session.code side = .send message rest) :
    RoundStage position { session with code := update session.code side rest }
      { view with
        messages := update view.messages side.other (view.messages side.other ++ [message]) } := by
  cases stage with
  | between rounds taken clear =>
    rcases rounds.inversion with ⟨leads, follows⟩ | ⟨round, leads, follows⟩
    · cases side with
      | lead => cases acts.symm.trans leads
      | follow => cases acts.symm.trans follows
    · cases side with
      | lead => cases acts.symm.trans leads
      | follow => cases acts.symm.trans follows
  | during round number lead follow place possible leads follows requested tookLead tookFollow
      shown =>
    subst shown
    cases side with
    | lead =>
      have here := acts.symm.trans leads
      cases lead with
      | awaiting => cases here
      | listening => cases here
      | asking =>
        obtain ⟨rfl, rfl⟩ := Process.send.inj here
        have early : follow = .awaiting ∨ follow = .listening := by
          cases follow with
          | awaiting => exact Or.inl rfl
          | listening => exact Or.inr rfl
          | answering => cases possible.asked (Or.inl rfl)
          | finished => cases possible.asked (Or.inr rfl)
        refine .during round number .listening follow place
          ⟨fun _ => possible.lead_took (by decide), possible.follow_took, fun _ => rfl⟩
          (by simp [Round.leads]) (by simpa using follows) requested tookLead tookFollow
          (View.of_sides rfl rfl ?_ ?_)
        · intro side
          cases side <;> simp [Round.view]
        · intro side
          cases side <;> simp [Round.view, early]
    | follow =>
      have here := acts.symm.trans follows
      cases follow with
      | awaiting => cases here
      | listening => cases here
      | finished =>
        -- what comes next is another round or the end
        rcases round.rest.inversion with ⟨-, idle⟩ | ⟨other, -, idle⟩
        · cases here.trans idle
        · cases here.trans idle
      | answering =>
        obtain ⟨rfl, rfl⟩ := Process.send.inj here
        refine .during round number lead .finished place
          ⟨possible.lead_took, fun _ => possible.follow_took (by decide),
            fun _ => possible.asked (Or.inl rfl)⟩
          (by simpa using leads) (by simp [Round.follows]) requested tookLead tookFollow
          (View.of_sides rfl rfl ?_ ?_)
        · intro side
          cases side <;> simp [Round.view]
        · intro side
          cases side <;> simp [Round.view]

/-- An end takes the message of the round; with the answer the round is over. -/
theorem receive (stage : RoundStage position session view) {side : Side} {message : Message}
    {others : List Message} {rest : Message → Program Unit}
    (acts : session.code side = .receive rest) (ready : view.messages side = message :: others) :
    RoundStage position { session with code := update session.code side (rest message) }
      { view with messages := update view.messages side others } := by
  cases stage with
  | between rounds taken clear =>
    subst clear
    cases ready
  | during round number lead follow place possible leads follows requested tookLead tookFollow
      shown =>
    subst shown
    have whole : [] ++ message :: others = _ := ready.symm
    cases side with
    | lead =>
      obtain ⟨rfl, rfl, -, rfl⟩ := only_entry whole
      obtain rfl := possible.asked (Or.inr rfl)
      obtain rfl := possible.follow_took (by decide)
      obtain rfl : rest = _ := by simpa [Round.leads] using acts.symm.trans leads
      refine .between ?_ ?_ (View.of_sides rfl rfl ?_ ?_)
      · simpa [follows, Round.follows] using round.rest
      · intro side
        cases side with
        | lead => simpa [requested] using tookLead
        | follow => simpa [requested] using tookFollow
      · intro side
        cases side <;> simp [Round.view]
      · intro side
        cases side <;> simp [Round.view]
    | follow =>
      obtain ⟨⟨rfl, early⟩, rfl, -, rfl⟩ := only_entry whole
      have here := acts.symm.trans follows
      rcases early with rfl | rfl
      · cases here
      · obtain rfl : rest = _ := by simpa [Round.follows] using here
        refine .during round number .listening .answering place
          ⟨possible.lead_took, fun _ => possible.follow_took (by decide), fun _ => rfl⟩
          (by simpa using leads) (by simp [Round.follows, round.answers]) requested tookLead
          tookFollow (View.of_sides rfl rfl ?_ ?_)
        · intro side
          cases side <;> simp [Round.view]
        · intro side
          cases side <;> simp [Round.view]

/-- At most one message is on the way to an end, so it makes no difference in which order
messages are delivered. -/
theorem messages_length (stage : RoundStage position session view) (side : Side) :
    (view.messages side).length ≤ 1 := by
  cases stage with
  | between rounds taken clear => simp [clear]
  | during round number lead follow place possible leads follows requested tookLead tookFollow
      shown =>
    subst shown
    cases side with
    | lead => simp only [Round.view, Side.select_lead]; split <;> simp
    | follow => simp only [Round.view, Side.select_follow]; split <;> simp

/-- The pairs of both ends are the first ones of the session, in the order of their numbers. -/
theorem taken_pairs (stage : RoundStage position session view) (side : Side) :
    ∃ number, session.taken side = pairs position number := by
  cases stage with
  | between rounds taken clear => exact ⟨_, taken side⟩
  | during round number lead follow place possible leads follows requested tookLead tookFollow
      shown =>
    cases side with
    | lead => exact ⟨_, tookLead⟩
    | follow => exact ⟨_, tookFollow⟩

/-- No end of a session has failed in a round. -/
theorem unraised (stage : RoundStage position session view) (side : Side) (error : Exn) :
    session.code side ≠ .raised error := by
  intro raised
  cases stage with
  | between rounds taken clear =>
    rcases rounds.inversion with ⟨leads, follows⟩ | ⟨round, leads, follows⟩
    · cases side with
      | lead => cases raised.symm.trans leads
      | follow => cases raised.symm.trans follows
    · cases side with
      | lead => cases raised.symm.trans leads
      | follow => cases raised.symm.trans follows
  | during round number lead follow pair possible leads follows =>
    cases side with
    | lead =>
      have here := raised.symm.trans leads
      cases lead <;> cases here
    | follow =>
      have here := raised.symm.trans follows
      cases follow with
      | awaiting => cases here
      | listening => cases here
      | answering => cases here
      | finished =>
        rcases round.rest.inversion with ⟨-, next⟩ | ⟨other, -, next⟩
        · cases here.trans next
        · cases here.trans next

/-- A session that is through has taken all its pairs, and nothing is on the way for it. -/
theorem of_finished (stage : RoundStage position session view)
    (finished : QubitNetwork.Finished session) :
    view = ⟨[], [], fun _ => [], fun _ => []⟩ ∧
      ∀ side, session.taken side = pairs position session.requested := by
  cases stage with
  | between rounds taken clear => exact ⟨clear, taken⟩
  | during round number lead follow pair possible leads =>
    have here := (finished .lead).symm.trans leads
    cases lead <;> cases here

end RoundStage

/-- A session of which an end may have failed: an end is where it would be in a round, or
has raised there. What is on the way is the same in both cases. -/
def SessionStage {User : Type} (position : Nat) (session : QubitSession User) (view : View) : Prop :=
  ∃ code : Side → Program Unit, RoundStage position { session with code := code } view ∧
    ∀ side, session.code side = code side ∨ ∃ error, session.code side = .raised error

namespace SessionStage

variable {User : Type} {position : Nat} {session : QubitSession User} {view : View}

/-- An end that can act has not failed. -/
theorem acting {code : Side → Program Unit}
    (failing : ∀ side, session.code side = code side ∨ ∃ error, session.code side = .raised error)
    {side : Side} {process : Program Unit} (acts : session.code side = process)
    (able : ∀ error, process ≠ .raised error) : code side = process := by
  rcases failing side with same | ⟨error, raised⟩
  · rw [← same, acts]
  · exact absurd (acts.symm.trans raised) (able error)

/-- An end goes on, and the other one may have failed. -/
theorem failing_update {code : Side → Program Unit}
    (failing : ∀ side, session.code side = code side ∨ ∃ error, session.code side = .raised error)
    (side : Side) (process : Program Unit) (party : Side) :
    update session.code side process party = update code side process party ∨
      ∃ error, update session.code side process party = .raised error := by
  by_cases here : party = side
  · subst here
    simp
  · simpa [here] using failing party

theorem requestEPR (stage : SessionStage position session view) {rest : Program Unit}
    (acts : session.code .lead = .signal .lead () (.signal .follow () rest)) :
    SessionStage position
      { session with code := update session.code .lead rest, requested := session.requested + 1 }
      { view with requests := view.requests ++ [⟨position, session.requested⟩] } := by
  obtain ⟨code, round, failing⟩ := stage
  exact ⟨_, round.requestEPR (acting failing acts (by simp)), failing_update failing .lead rest⟩

theorem createEPR (stage : SessionStage position session view) {before after : List Pair} {pair : Pair}
    (pending : view.requests = before ++ pair :: after) :
    SessionStage position session { view with
      requests := before ++ after
      halved := view.halved ++ [pair]
      received := update view.received .lead (view.received .lead ++ [pair]) } := by
  obtain ⟨code, round, failing⟩ := stage
  exact ⟨code, round.createEPR pending, failing⟩

theorem sendQubit (stage : SessionStage position session view) {before after : List Pair} {pair : Pair}
    (pending : view.halved = before ++ pair :: after) :
    SessionStage position session { view with
      halved := before ++ after
      received := update view.received .follow (view.received .follow ++ [pair]) } := by
  obtain ⟨code, round, failing⟩ := stage
  exact ⟨code, round.sendQubit pending, failing⟩

theorem receiveEPR (stage : SessionStage position session view) {side : Side} {pair : Pair}
    {others : List Pair} {rest : Unit → Program Unit} (acts : session.code side = .await side rest)
    (ready : view.received side = pair :: others) :
    SessionStage position
      { session with
        code := update session.code side (rest ())
        taken := update session.taken side (session.taken side ++ [pair]) }
      { view with received := update view.received side others } := by
  obtain ⟨code, round, failing⟩ := stage
  exact ⟨_, round.receiveEPR (acting failing acts (by simp)) ready,
    failing_update failing side (rest ())⟩

theorem send (stage : SessionStage position session view) {side : Side} {message : Message}
    {rest : Program Unit} (acts : session.code side = .send message rest) :
    SessionStage position { session with code := update session.code side rest }
      { view with
        messages := update view.messages side.other (view.messages side.other ++ [message]) } := by
  obtain ⟨code, round, failing⟩ := stage
  exact ⟨_, round.send (acting failing acts (by simp)), failing_update failing side rest⟩

theorem receive (stage : SessionStage position session view) {side : Side} {message : Message}
    {others : List Message} {rest : Message → Program Unit}
    (acts : session.code side = .receive rest) (ready : view.messages side = message :: others) :
    SessionStage position { session with code := update session.code side (rest message) }
      { view with messages := update view.messages side others } := by
  obtain ⟨code, round, failing⟩ := stage
  exact ⟨_, round.receive (acting failing acts (by simp)) ready,
    failing_update failing side (rest message)⟩

/-- An end fails, and what is on the way stays there. -/
theorem giveUp (stage : SessionStage position session view) (side : Side) (error : Exn) :
    SessionStage position { session with code := update session.code side (.raised error) } view := by
  obtain ⟨code, round, failing⟩ := stage
  refine ⟨code, round, fun party => ?_⟩
  by_cases here : party = side
  · subst here
    exact Or.inr ⟨error, by simp⟩
  · simpa [here] using failing party

/-- At most one message is on the way to an end. -/
theorem messages_length (stage : SessionStage position session view) (side : Side) :
    (view.messages side).length ≤ 1 := by
  obtain ⟨code, round, -⟩ := stage
  exact round.messages_length side

/-- The pairs of both ends are the first ones of the session. -/
theorem taken_pairs (stage : SessionStage position session view) (side : Side) :
    ∃ number, session.taken side = pairs position number := by
  obtain ⟨code, round, -⟩ := stage
  exact round.taken_pairs side

/-- A session of which no end has failed is in a round or between two. -/
theorem unfailed (stage : SessionStage position session view)
    (well : ∀ side error, session.code side ≠ .raised error) :
    RoundStage position session view := by
  obtain ⟨code, round, failing⟩ := stage
  have same : code = session.code := funext fun side => acting failing rfl (well side)
  subst same
  exact round

end SessionStage

namespace QubitNetwork

variable {User : Type}

/-- An entry of a table with two indices is replaced. -/
theorem update_entry {α β γ : Type} [DecidableEq α] [DecidableEq β] (table : α → β → γ) (a : α)
    (b : β) (entry : γ) (row : α) (column : β) :
    update table a (update (table a) b entry) row column =
      if row = a ∧ column = b then entry else table row column := by
  by_cases here : row = a
  · subst here
    by_cases there : column = b
    · simp [there]
    · simp [there]
  · simp [here]

/-- Everything on the way is of a session that is there, between its users: a half waits at a
user of the session of its pair, and a message in the queue of its end. -/
structure Routed (net : QubitNetwork User) : Prop where
  different : ∀ session ∈ net.sessions, session.user .lead ≠ session.user .follow
  requested : ∀ pair ∈ net.requests, pair.session < net.sessions.length
  halved : ∀ pair ∈ net.halved, pair.session < net.sessions.length
  received : ∀ side user, ∀ pair ∈ net.received side user,
    ∃ session, net.sessions[pair.session]? = some session ∧ session.user side = user
  travelling : ∀ envelope ∈ net.travelling, envelope.session < net.sessions.length
  queued : ∀ user other, ∀ envelope ∈ net.queue user other,
    ∃ session, net.sessions[envelope.session]? = some session ∧
      session.user envelope.side = user ∧ session.user envelope.side.other = other

/-- What holds in every run in which a session starts only when every earlier one is over or
apart from it: two sessions that are not over are apart, and each is in a stage of its own
rounds or has failed. -/
structure Sound (net : QubitNetwork User) : Prop where
  routed : Routed net
  apart : ∀ (one two : Nat) (first second : QubitSession User),
    net.sessions[one]? = some first → net.sessions[two]? = some second → one ≠ two →
      ¬ Over net one first → ¬ Over net two second → Apart first second
  stage : ∀ (position : Nat) (session : QubitSession User),
    net.sessions[position]? = some session → SessionStage position session (net.view position session.user)

variable {net : QubitNetwork User} {position : Nat} {session : QubitSession User}

theorem mine_ne_nil {list : List Pair} {pair : Pair} (own : pair.session = position)
    (there : pair ∈ list) : mine position list ≠ [] :=
  List.ne_nil_of_mem (List.mem_filter.mpr ⟨there, by simpa using own⟩)

/-- A session with a half that one of its users can take is not over. -/
theorem busy_of_received {side : Side} {pair : Pair} (own : pair.session = position)
    (there : pair ∈ net.received side (session.user side)) : ¬ Over net position session :=
  fun gone => mine_ne_nil own there (congrFun (congrArg View.received gone.clear) side)

/-- A session with a message on its way or in a queue is not over. -/
theorem busy_of_message {envelope : Envelope} (own : envelope.session = position)
    (there : envelope ∈ net.queue (session.user envelope.side) (session.user envelope.side.other) ++
      net.travelling) : ¬ Over net position session := by
  intro gone
  have none := List.map_eq_nil_iff.mp (congrFun (congrArg View.messages gone.clear) envelope.side)
  have member : envelope ∈ toEnd position envelope.side
      (net.queue (session.user envelope.side) (session.user envelope.side.other) ++
        net.travelling) :=
    List.mem_filter.mpr ⟨there, by simpa using own⟩
  rw [none] at member
  cases member

/-- A half that an end can take belongs to its session: no other session that is not over has a
half at this user. -/
theorem Sound.own_pair (sound : Sound net) (running : net.sessions[position]? = some session)
    (busy : ¬ Over net position session) {side : Side} {pair : Pair}
    (there : pair ∈ net.received side (session.user side)) : pair.session = position := by
  obtain ⟨owner, found, same⟩ := sound.routed.received side _ pair there
  by_contra other
  have apart := sound.apart _ _ owner session found running other
    (busy_of_received rfl (same ▸ there)) busy
  exact apart.1 side same

/-- A message that an end can take belongs to its session and was sent to this end. -/
theorem Sound.own_message (sound : Sound net) (running : net.sessions[position]? = some session)
    (busy : ¬ Over net position session) {side : Side} {envelope : Envelope}
    (there : envelope ∈ net.queue (session.user side) (session.user side.other)) :
    envelope.session = position ∧ envelope.side = side := by
  obtain ⟨owner, found, recipient, sender⟩ := sound.routed.queued _ _ envelope there
  have same : envelope.session = position := by
    by_contra other
    have queued : envelope ∈ net.queue (owner.user envelope.side) (owner.user envelope.side.other) ++
        net.travelling := List.mem_append_left _ (by rwa [recipient, sender])
    have apart := sound.apart _ _ owner session found running other
      (busy_of_message rfl queued) busy
    by_cases here : envelope.side = side
    · exact apart.1 side (here ▸ recipient)
    · have opposite : envelope.side = side.other := Side.eq_other here
      rw [opposite] at recipient sender
      rw [Side.other_other] at sender
      refine apart.2 fun party => ?_
      by_cases this : party = side
      · rw [this, sender]
      · rw [Side.eq_other this, recipient, Side.other_other]
  refine ⟨same, ?_⟩
  rw [same, running] at found
  cases found
  by_contra here
  have opposite : envelope.side = side.other := Side.eq_other here
  rw [opposite] at recipient
  have different := sound.routed.different session (List.mem_of_getElem? running)
  cases side with
  | lead => exact different recipient.symm
  | follow => exact different recipient

/-- A running session finds only its own halves at its users. -/
theorem Sound.received_own (sound : Sound net) (running : net.sessions[position]? = some session)
    (busy : ¬ Over net position session) (side : Side) :
    (net.view position session.user).received side = net.received side (session.user side) := by
  refine List.filter_eq_self.mpr fun pair member => ?_
  simpa using sound.own_pair running busy member

/-- A running session finds only its own messages, those that were sent to the end that
takes them. -/
theorem Sound.messages_own (sound : Sound net) (running : net.sessions[position]? = some session)
    (busy : ¬ Over net position session) {side : Side} {envelope : Envelope}
    {others : List Envelope}
    (ready : net.queue (session.user side) (session.user side.other) = envelope :: others) :
    (net.view position session.user).messages side =
      envelope.message :: (toEnd position side (others ++ net.travelling)).map (·.message) := by
  obtain ⟨ownSession, ownSide⟩ := sound.own_message running busy (ready ▸ List.mem_cons_self)
  simp [view, toEnd, ready, ownSession, ownSide]

/-- A session goes on between the same users: sessions are found where they were. -/
theorem found_set {place : Nat} {after : QubitSession User}
    (running : net.sessions[position]? = some session) (same : after.user = session.user)
    (owns : (Side → User) → Prop)
    (found : ∃ owner, net.sessions[place]? = some owner ∧ owns owner.user) :
    ∃ owner, (net.sessions.set position after)[place]? = some owner ∧ owns owner.user := by
  obtain ⟨owner, there, holds⟩ := found
  have within := (List.getElem?_eq_some_iff.mp running).1
  by_cases here : place = position
  · subst here
    rw [running] at there
    cases there
    exact ⟨after, List.getElem?_set_self within, same ▸ holds⟩
  · exact ⟨owner, by rwa [List.getElem?_set_ne (Ne.symm here)], holds⟩

/-- A session that goes on leaves everything routed. -/
theorem Routed.set (routed : Routed net) {after : QubitSession User}
    (running : net.sessions[position]? = some session) (same : after.user = session.user) :
    Routed { net with sessions := net.sessions.set position after } := by
  refine ⟨?_, ?_, ?_, ?_, ?_, ?_⟩
  · intro now member
    rcases List.mem_or_eq_of_mem_set member with before | rfl
    · exact routed.different now before
    · rw [same]
      exact routed.different session (List.mem_of_getElem? running)
  · simpa using routed.requested
  · simpa using routed.halved
  · intro side user pair member
    exact found_set running same (fun users => users side = user)
      (routed.received side user pair member)
  · simpa using routed.travelling
  · intro user other envelope member
    exact found_set running same
      (fun users => users envelope.side = user ∧ users envelope.side.other = other)
      (routed.queued user other envelope member)
/-- An end that can still act is not over, so its session is apart from the others that are
not. -/
theorem busy_of_acts {side : Side} {process : Program Unit} (acts : session.code side = process)
    (more : ¬ Ended process) : ¬ Over net position session :=
  fun gone => more (acts ▸ gone.ended side)

/-- Who is found after a session went on. -/
theorem found_after {place : Nat} {after now : QubitSession User}
    (running : net.sessions[position]? = some session)
    (found : (net.sessions.set position after)[place]? = some now) :
    (place = position ∧ now = after) ∨ (place ≠ position ∧ net.sessions[place]? = some now) := by
  have within := (List.getElem?_eq_some_iff.mp running).1
  by_cases here : place = position
  · subst here
    rw [List.getElem?_set_self within] at found
    exact Or.inl ⟨rfl, (Option.some.inj found).symm⟩
  · rw [List.getElem?_set_ne (Ne.symm here)] at found
    exact Or.inr ⟨here, found⟩

/-- Who is found when no session went on. -/
theorem found_same {place : Nat} {now : QubitSession User}
    (running : net.sessions[position]? = some session) (found : net.sessions[place]? = some now) :
    (place = position ∧ now = session) ∨ (place ≠ position ∧ net.sessions[place]? = some now) := by
  by_cases here : place = position
  · subst here
    exact Or.inl ⟨rfl, Option.some.inj (found.symm.trans running)⟩
  · exact Or.inr ⟨here, found⟩

/-- A step for one session that was not over: what is on the way for the others stays the
same, so that they are over or not as before. -/
theorem Sound.next (sound : Sound net) {next : QubitNetwork User} {after : QubitSession User}
    (running : net.sessions[position]? = some session) (busy : ¬ Over net position session)
    (found : ∀ (place : Nat) (now : QubitSession User), next.sessions[place]? = some now →
      (place = position ∧ now = after) ∨ (place ≠ position ∧ net.sessions[place]? = some now))
    (users : after.user = session.user)
    (routed : Routed next) (own : SessionStage position after (next.view position session.user))
    (others : ∀ place user, place ≠ position → next.view place user = net.view place user) :
    Sound next := by
  -- a session that is not over now was there, between the same users, and not over
  have earlier (place : Nat) (now : QubitSession User) (there : next.sessions[place]? = some now)
      (still : ¬ Over next place now) : ∃ before, net.sessions[place]? = some before ∧
        before.user = now.user ∧ ¬ Over net place before := by
    rcases found place now there with ⟨rfl, rfl⟩ | ⟨other, before⟩
    · exact ⟨session, running, users.symm, busy⟩
    · refine ⟨now, before, rfl, fun gone => still ⟨gone.ended, ?_⟩⟩
      rw [others place now.user other]
      exact gone.clear
  refine ⟨routed, ?_, ?_⟩
  · intro one two first second foundOne foundTwo other busyOne busyTwo
    obtain ⟨beforeOne, thereOne, sameOne, stillOne⟩ := earlier one first foundOne busyOne
    obtain ⟨beforeTwo, thereTwo, sameTwo, stillTwo⟩ := earlier two second foundTwo busyTwo
    have apart := sound.apart one two beforeOne beforeTwo thereOne thereTwo other stillOne stillTwo
    rwa [Apart, sameOne, sameTwo] at apart
  · intro place now there
    rcases found place now there with ⟨rfl, rfl⟩ | ⟨other, before⟩
    · rwa [users]
    · rw [others place now.user other]
      exact sound.stage place now before

theorem Sound.requestEPR (sound : Sound net) {rest : Program Unit}
    (running : net.sessions[position]? = some session)
    (acts : session.code .lead = .signal .lead () (.signal .follow () rest)) :
    Sound { net with
      sessions := net.sessions.set position { session with
        code := update session.code .lead rest
        requested := session.requested + 1 }
      requests := net.requests ++ [⟨position, session.requested⟩] } := by
  have within := (List.getElem?_eq_some_iff.mp running).1
  have routed : Routed { net with sessions := net.sessions.set position { session with
      code := update session.code .lead rest
      requested := session.requested + 1 } } := sound.routed.set running rfl
  refine sound.next running (busy_of_acts acts (by simp [Ended])) (fun _ _ => found_after running)
    rfl ?_ ?_ ?_
  · refine { routed with requested := ?_ }
    intro pair member
    rcases List.mem_append.mp member with there | new
    · exact routed.requested pair there
    · rw [List.mem_singleton.mp new]
      simpa using within
  · have stage := (sound.stage position session running).requestEPR acts
    simpa [view, mine, List.filter_append] using stage
  · intro place user other
    simp [view, mine, List.filter_append, Ne.symm other]

theorem Sound.send (sound : Sound net) {side : Side} {message : Message} {rest : Program Unit}
    (running : net.sessions[position]? = some session)
    (acts : session.code side = .send message rest) :
    Sound { net with
      sessions := net.sessions.set position { session with code := update session.code side rest }
      travelling := net.travelling ++ [⟨position, side.other, message⟩] } := by
  have within := (List.getElem?_eq_some_iff.mp running).1
  have routed : Routed { net with
      sessions := net.sessions.set position
        { session with code := update session.code side rest } } := sound.routed.set running rfl
  refine sound.next running (busy_of_acts acts (by simp [Ended])) (fun _ _ => found_after running)
    rfl ?_ ?_ ?_
  · refine { routed with travelling := ?_ }
    intro envelope member
    rcases List.mem_append.mp member with there | new
    · exact routed.travelling envelope there
    · rw [List.mem_singleton.mp new]
      simpa using within
  · have stage := (sound.stage position session running).send acts
    convert stage using 1
    refine View.of_sides rfl rfl (fun _ => rfl) fun party => ?_
    by_cases here : party = side.other
    · subst here
      simp [view, toEnd, List.filter_append]
    · simp [view, toEnd, List.filter_append, here, Ne.symm here]
  · intro place user other
    simp [view, toEnd, List.filter_append, Ne.symm other]

theorem Sound.giveUp (sound : Sound net) {side : Side} {error : Exn}
    (running : net.sessions[position]? = some session) (goesOn : ¬ Ended (session.code side)) :
    Sound { net with
      sessions := net.sessions.set position
        { session with code := update session.code side (.raised error) } } :=
  sound.next running (busy_of_acts rfl goesOn) (fun _ _ => found_after running) rfl
    (sound.routed.set running rfl) ((sound.stage position session running).giveUp side error)
    (fun _ _ _ => rfl)

theorem Apart.symm {one two : QubitSession User} (apart : Apart one two) : Apart two one := by
  refine ⟨fun side => Ne.symm (apart.1 side), fun crossed => apart.2 fun side => ?_⟩
  simpa using (crossed side.other).symm

/-- Nothing is on the way for a session that is not there yet, whose position comes next. -/
theorem Routed.absent (routed : Routed net) (user : Side → User) :
    net.view net.sessions.length user = ⟨[], [], fun _ => [], fun _ => []⟩ := by
  have beyond {place : Nat} {session : QubitSession User}
      (there : net.sessions[place]? = some session) : place ≠ net.sessions.length :=
    Nat.ne_of_lt (List.getElem?_eq_some_iff.mp there).1
  refine View.of_sides ?_ ?_ (fun side => ?_) fun side => ?_
  · refine List.filter_eq_nil_iff.mpr fun pair member => ?_
    simpa using Nat.ne_of_lt (routed.requested pair member)
  · refine List.filter_eq_nil_iff.mpr fun pair member => ?_
    simpa using Nat.ne_of_lt (routed.halved pair member)
  · refine List.filter_eq_nil_iff.mpr fun pair member => ?_
    obtain ⟨owner, there, -⟩ := routed.received side (user side) pair member
    simpa using beyond there
  · refine List.map_eq_nil_iff.mpr (List.filter_eq_nil_iff.mpr fun envelope member => ?_)
    have other : envelope.session ≠ net.sessions.length := by
      rcases List.mem_append.mp member with there | there
      · obtain ⟨owner, found, -⟩ := routed.queued _ _ envelope there
        exact beyond found
      · exact Nat.ne_of_lt (routed.travelling envelope there)
    simp [other]

/-- Who is found after a session started. -/
theorem found_started {place : Nat} {fresh now : QubitSession User}
    (found : (net.sessions ++ [fresh])[place]? = some now) :
    (place = net.sessions.length ∧ now = fresh) ∨
      (place ≠ net.sessions.length ∧ net.sessions[place]? = some now) := by
  by_cases earlier : place < net.sessions.length
  · rw [List.getElem?_append_left earlier] at found
    exact Or.inr ⟨Nat.ne_of_lt earlier, found⟩
  · have within := (List.getElem?_eq_some_iff.mp found).1
    obtain rfl : place = net.sessions.length := by
      simp only [List.length_append, List.length_singleton] at within
      omega
    rw [List.getElem?_concat_length] at found
    exact Or.inl ⟨rfl, (Option.some.inj found).symm⟩

theorem Sound.initial : Sound (initial : QubitNetwork User) := by
  refine ⟨⟨?_, ?_, ?_, ?_, ?_, ?_⟩, ?_, ?_⟩
  · intro session member
    cases member
  · intro pair member
    cases member
  · intro pair member
    cases member
  · intro side user pair member
    cases member
  · intro envelope member
    cases member
  · intro user other envelope member
    cases member
  · intro one two first second found
    cases found
  · intro position session found
    cases found

/-- A session starts that is apart from those that are not over. Of those that are over nothing
is left, so the new one finds nothing of theirs. -/
theorem Sound.start (sound : Sound net) (user : Side → User) (code : Side → Program Unit)
    (different : user .lead ≠ user .follow) (distributions : Distributions code)
    (apart : ∀ (position : Nat) (other : QubitSession User), net.sessions[position]? = some other →
      ¬ Over net position other → Apart other ⟨user, code, 0, fun _ => []⟩) :
    Sound { net with sessions := net.sessions ++ [⟨user, code, 0, fun _ => []⟩] } := by
  let fresh : QubitSession User := ⟨user, code, 0, fun _ => []⟩
  have longer {place : Nat} (within : place < net.sessions.length) :
      place < (net.sessions ++ [fresh]).length := by
    rw [List.length_append]
    exact Nat.lt_add_right _ within
  have kept {place : Nat} {owner : QubitSession User}
      (there : net.sessions[place]? = some owner) :
      (net.sessions ++ [fresh])[place]? = some owner := by
    rwa [List.getElem?_append_left (List.getElem?_eq_some_iff.mp there).1]
  constructor
  · constructor
    · intro session member
      rcases List.mem_append.mp member with before | new
      · exact sound.routed.different session before
      · rw [List.mem_singleton.mp new]
        exact different
    · exact fun pair member => longer (sound.routed.requested pair member)
    · exact fun pair member => longer (sound.routed.halved pair member)
    · intro side other pair member
      obtain ⟨owner, there, same⟩ := sound.routed.received side other pair member
      exact ⟨owner, kept there, same⟩
    · exact fun envelope member => longer (sound.routed.travelling envelope member)
    · intro here there envelope member
      obtain ⟨owner, found, same⟩ := sound.routed.queued here there envelope member
      exact ⟨owner, kept found, same⟩
  · -- what is on the way stays the same, so a session that was there is over if it was
    have earlier {place : Nat} {now : QubitSession User}
        (busy : ¬ Over { net with sessions := net.sessions ++ [fresh] } place now) :
        ¬ Over net place now := fun gone => busy ⟨gone.ended, gone.clear⟩
    intro one two first second foundOne foundTwo other busyOne busyTwo
    rcases found_started foundOne with ⟨rfl, rfl⟩ | ⟨-, thereOne⟩
    · rcases found_started foundTwo with ⟨rfl, -⟩ | ⟨-, thereTwo⟩
      · exact absurd rfl other
      · exact (apart two second thereTwo (earlier busyTwo)).symm
    · rcases found_started foundTwo with ⟨rfl, rfl⟩ | ⟨-, thereTwo⟩
      · exact apart one first thereOne (earlier busyOne)
      · exact sound.apart one two first second thereOne thereTwo other (earlier busyOne)
          (earlier busyTwo)
  · intro place now found
    rcases found_started found with ⟨rfl, rfl⟩ | ⟨-, there⟩
    · exact ⟨code, .between distributions.rounds (fun _ => rfl) (sound.routed.absent user),
        fun _ => Or.inl rfl⟩
    · exact sound.stage place now there

variable [DecidableEq User]

/-- The halves of a session that a user can take, after one more has arrived. -/
theorem mine_arrived (received : Side → User → List Pair) (end_ side : Side) (user : Side → User)
    (there : User) (pair : Pair) (place : Nat) :
    mine place (update received end_ (update (received end_) there
      (received end_ there ++ [pair])) side (user side)) =
    if (side = end_ ∧ user side = there) ∧ pair.session = place then
      mine place (received side (user side)) ++ [pair]
    else mine place (received side (user side)) := by
  rw [update_entry]
  by_cases here : side = end_ ∧ user side = there
  · obtain ⟨rfl, rfl⟩ := here
    by_cases own : pair.session = place
    · simp [mine, List.filter_append, own]
    · simp [mine, List.filter_append, own]
  · simp [here]

/-- A half arrives at a user of its session. -/
theorem Routed.arrived (routed : Routed net) {pair : Pair}
    (running : net.sessions[pair.session]? = some session) (end_ side : Side) (user : User)
    (other : Pair) (member : other ∈ update net.received end_ (update (net.received end_)
      (session.user end_) (net.received end_ (session.user end_) ++ [pair])) side user) :
    ∃ owner, net.sessions[other.session]? = some owner ∧ owner.user side = user := by
  rw [update_entry] at member
  split at member
  · next here =>
    obtain ⟨rfl, rfl⟩ := here
    rcases List.mem_append.mp member with there | new
    · exact routed.received _ _ other there
    · rw [List.mem_singleton.mp new]
      exact ⟨session, running, rfl⟩
  · exact routed.received side user other member

theorem Sound.createEPR (sound : Sound net) {before after : List Pair} {pair : Pair}
    (pending : net.requests = before ++ pair :: after)
    (running : net.sessions[pair.session]? = some session) :
    Sound { net with
      requests := before ++ after
      halved := net.halved ++ [pair]
      received := update net.received .lead (update (net.received .lead) (session.user .lead)
        (net.received .lead (session.user .lead) ++ [pair])) } := by
  have within := (List.getElem?_eq_some_iff.mp running).1
  have busy : ¬ Over net pair.session session := fun gone =>
    mine_ne_nil rfl (by simp [pending]) (congrArg View.requests gone.clear)
  refine sound.next running busy (fun _ _ => found_same running) rfl ?_ ?_ ?_
  · refine { sound.routed with requested := ?_, halved := ?_, received := ?_ }
    · intro other member
      have there := ((List.sublist_cons_self pair after).append_left before).subset member
      exact sound.routed.requested other (pending ▸ there)
    · intro other member
      rcases List.mem_append.mp member with there | new
      · exact sound.routed.halved other there
      · rw [List.mem_singleton.mp new]
        exact within
    · exact sound.routed.arrived running .lead
  · have stage := sound.stage pair.session session running
    have here : (net.view pair.session session.user).requests =
        mine pair.session before ++ pair :: mine pair.session after := by
      simp [view, mine, pending, List.filter_append]
    convert stage.createEPR here using 1
    refine View.of_sides ?_ ?_ (fun side => ?_) (fun _ => rfl)
    · simp [view, mine, List.filter_append]
    · simp [view, mine, List.filter_append]
    · simp only [view, mine_arrived]
      cases side <;> simp
  · intro place user other
    refine View.of_sides ?_ ?_ (fun side => ?_) (fun _ => rfl)
    · simp [view, mine, pending, List.filter_append, Ne.symm other]
    · simp [view, mine, List.filter_append, Ne.symm other]
    · simp only [view, mine_arrived, Ne.symm other, and_false, ↓reduceIte]

theorem Sound.sendQubit (sound : Sound net) {before after : List Pair} {pair : Pair}
    (pending : net.halved = before ++ pair :: after)
    (running : net.sessions[pair.session]? = some session) :
    Sound { net with
      halved := before ++ after
      received := update net.received .follow (update (net.received .follow)
        (session.user .follow) (net.received .follow (session.user .follow) ++ [pair])) } := by
  have busy : ¬ Over net pair.session session := fun gone =>
    mine_ne_nil rfl (by simp [pending]) (congrArg View.halved gone.clear)
  refine sound.next running busy (fun _ _ => found_same running) rfl ?_ ?_ ?_
  · refine { sound.routed with halved := ?_, received := ?_ }
    · intro other member
      have there := ((List.sublist_cons_self pair after).append_left before).subset member
      exact sound.routed.halved other (pending ▸ there)
    · exact sound.routed.arrived running .follow
  · have stage := sound.stage pair.session session running
    have here : (net.view pair.session session.user).halved =
        mine pair.session before ++ pair :: mine pair.session after := by
      simp [view, mine, pending, List.filter_append]
    convert stage.sendQubit here using 1
    refine View.of_sides rfl ?_ (fun side => ?_) (fun _ => rfl)
    · simp [view, mine, List.filter_append]
    · simp only [view, mine_arrived]
      cases side <;> simp
  · intro place user other
    refine View.of_sides rfl ?_ (fun side => ?_) (fun _ => rfl)
    · simp [view, mine, pending, List.filter_append, Ne.symm other]
    · simp only [view, mine_arrived, Ne.symm other, and_false, ↓reduceIte]

theorem Sound.receiveEPR (sound : Sound net) {side : Side} {pair : Pair} {others : List Pair}
    {rest : Unit → Program Unit} (running : net.sessions[position]? = some session)
    (acts : session.code side = .await side rest)
    (ready : net.received side (session.user side) = pair :: others) :
    Sound { net with
      sessions := net.sessions.set position { session with
        code := update session.code side (rest ())
        taken := update session.taken side (session.taken side ++ [pair]) }
      received := update net.received side
        (update (net.received side) (session.user side) others) } := by
  have busy : ¬ Over net position session := busy_of_acts acts (by simp [Ended])
  have own : pair.session = position := sound.own_pair running busy (ready ▸ List.mem_cons_self)
  have routed : Routed { net with sessions := net.sessions.set position { session with
      code := update session.code side (rest ())
      taken := update session.taken side (session.taken side ++ [pair]) } } :=
    sound.routed.set running rfl
  refine sound.next running busy (fun _ _ => found_after running) rfl ?_ ?_ ?_
  · refine { routed with received := ?_ }
    intro party user other member
    dsimp only at member
    rw [update_entry] at member
    split at member
    · next here =>
      obtain ⟨rfl, rfl⟩ := here
      exact routed.received _ _ other (ready ▸ List.mem_cons_of_mem pair member)
    · exact routed.received party user other member
  · have stage := sound.stage position session running
    have here : (net.view position session.user).received side = pair :: mine position others := by
      simp [view, mine, ready, own]
    convert stage.receiveEPR acts here using 1
    refine View.of_sides rfl rfl (fun party => ?_) (fun _ => rfl)
    simp only [view, update_entry]
    by_cases same : party = side
    · subst same
      simp
    · simp [same]
  · intro place user other
    refine View.of_sides rfl rfl (fun party => ?_) (fun _ => rfl)
    simp only [view, update_entry]
    split
    · next here =>
      -- the half that is gone was of another session
      obtain ⟨rfl, there⟩ := here
      simp [mine, there, ready, own, Ne.symm other]
    · rfl

theorem Sound.store (sound : Sound net) {before after : List Envelope} {envelope : Envelope}
    (pending : net.travelling = before ++ envelope :: after)
    (running : net.sessions[envelope.session]? = some session) :
    Sound { net with
      travelling := before ++ after
      queue := update net.queue (session.user envelope.side)
        (update (net.queue (session.user envelope.side)) (session.user envelope.side.other)
          (net.queue (session.user envelope.side) (session.user envelope.side.other) ++
            [envelope])) } := by
  have busy : ¬ Over net envelope.session session :=
    busy_of_message rfl (List.mem_append_right _ (by simp [pending]))
  refine sound.next running busy (fun _ _ => found_same running) rfl ?_ ?_ ?_
  · refine { sound.routed with travelling := ?_, queued := ?_ }
    · intro other member
      have there := ((List.sublist_cons_self envelope after).append_left before).subset member
      exact sound.routed.travelling other (pending ▸ there)
    · intro user peer other member
      dsimp only at member
      rw [update_entry] at member
      split at member
      · next here =>
        obtain ⟨rfl, rfl⟩ := here
        rcases List.mem_append.mp member with there | new
        · exact sound.routed.queued _ _ other there
        · rw [List.mem_singleton.mp new]
          exact ⟨session, running, rfl, rfl⟩
      · exact sound.routed.queued user peer other member
  · have stage := sound.stage envelope.session session running
    have short := stage.messages_length
    convert stage using 1
    refine View.of_sides rfl rfl (fun _ => rfl) fun side => ?_
    simp only [view, update_entry]
    by_cases own : envelope.side = side
    · subst own
      -- no other message is on the way to this end
      have alone := short envelope.side
      simp only [view, pending, toEnd_append, toEnd_cons, and_self, ↓reduceIte, List.map_append,
        List.map_cons, List.length_append, List.length_map, List.length_cons] at alone
      have emptyQueue : toEnd envelope.session envelope.side
          (net.queue (session.user envelope.side) (session.user envelope.side.other)) = [] :=
        List.eq_nil_of_length_eq_zero (by omega)
      have emptyBefore : toEnd envelope.session envelope.side before = [] :=
        List.eq_nil_of_length_eq_zero (by omega)
      simp only [pending, and_self, ↓reduceIte, toEnd_append, toEnd_cons, toEnd_nil, emptyQueue,
        emptyBefore, List.nil_append, List.singleton_append]
    · split
      · next here =>
        simp only [pending, toEnd_append, toEnd_cons, toEnd_nil, own, and_false, ↓reduceIte,
          List.append_nil, here]
      · simp only [pending, toEnd_append, toEnd_cons, own, and_false, ↓reduceIte]
  · intro place user other
    refine View.of_sides rfl rfl (fun _ => rfl) fun side => ?_
    simp only [view, update_entry]
    split
    · next here =>
      simp only [pending, toEnd_append, toEnd_cons, toEnd_nil, Ne.symm other, false_and, ↓reduceIte,
        List.append_nil, here]
    · simp only [pending, toEnd_append, toEnd_cons, Ne.symm other, false_and, ↓reduceIte]

theorem Sound.receive (sound : Sound net) {side : Side} {envelope : Envelope}
    {others : List Envelope} {rest : Message → Program Unit}
    (running : net.sessions[position]? = some session) (acts : session.code side = .receive rest)
    (ready : net.queue (session.user side) (session.user side.other) = envelope :: others) :
    Sound { net with
      sessions := net.sessions.set position
        { session with code := update session.code side (rest envelope.message) }
      queue := update net.queue (session.user side)
        (update (net.queue (session.user side)) (session.user side.other) others) } := by
  have busy : ¬ Over net position session := busy_of_acts acts (by simp [Ended])
  obtain ⟨ownSession, ownSide⟩ := sound.own_message running busy (ready ▸ List.mem_cons_self)
  have routed : Routed { net with
      sessions := net.sessions.set position
        { session with code := update session.code side (rest envelope.message) } } :=
    sound.routed.set running rfl
  refine sound.next running busy (fun _ _ => found_after running) rfl ?_ ?_ ?_
  · refine { routed with queued := ?_ }
    intro user peer other member
    dsimp only at member
    rw [update_entry] at member
    split at member
    · next here =>
      obtain ⟨rfl, rfl⟩ := here
      exact routed.queued _ _ other (ready ▸ List.mem_cons_of_mem envelope member)
    · exact routed.queued user peer other member
  · have stage := sound.stage position session running
    convert stage.receive acts (sound.messages_own running busy ready) using 1
    refine View.of_sides rfl rfl (fun _ => rfl) fun party => ?_
    simp only [view, update_entry]
    by_cases same : party = side
    · subst same
      simp
    · have different := sound.routed.different session (List.mem_of_getElem? running)
      have elsewhere : session.user party ≠ session.user side := by
        rw [Side.eq_other same]
        cases side with
        | lead => exact Ne.symm different
        | follow => exact different
      simp [same, elsewhere]
  · intro place user other
    refine View.of_sides rfl rfl (fun _ => rfl) fun party => ?_
    simp only [view, update_entry]
    split
    · next here =>
      -- the message that is gone was of another session
      simp [toEnd, here, ready, ownSession, Ne.symm other]
    · rfl

/-- What a step preserves if the session that it starts, if any, is apart from those that
are not over. -/
theorem Sound.step (sound : Sound net) {act : Act} {after : QubitNetwork User}
    (step : Step net act after)
    (apart : ∀ session, after.sessions = net.sessions ++ [session] →
      ∀ (position : Nat) (other : QubitSession User), net.sessions[position]? = some other →
        ¬ Over net position other → Apart other session) : Sound after := by
  cases step with
  | start user code different distributions =>
    exact sound.start user code different distributions (apart _ rfl)
  | requestEPR position session rest running acts => exact sound.requestEPR running acts
  | createEPR before after pair session pending running => exact sound.createEPR pending running
  | sendQubit before after pair session pending running => exact sound.sendQubit pending running
  | receiveEPR position session side pair others rest running acts ready =>
    exact sound.receiveEPR running acts ready
  | _send_control_message position session side message rest running acts =>
    exact sound.send running acts
  | _store_control_message before after envelope session pending running =>
    exact sound.store pending running
  | _wait_for_control_message position session side envelope others rest running acts ready =>
    exact sound.receive running acts ready
  | giveUp position session side error running goesOn => exact sound.giveUp running goesOn

theorem ReachesApart.sound {net : QubitNetwork User} (reached : ReachesApart net) :
    Sound net := by
  induction reached with
  | refl => exact Sound.initial
  | tail earlier step inductionHypothesis =>
    obtain ⟨⟨act, step⟩, apart⟩ := step
    exact inductionHypothesis.step step apart

/-- When a session starts only if every earlier one is over or apart from it, its two ends
take the halves of its own pairs, in the order of its requests. -/
theorem own_pairs {net : QubitNetwork User} (reached : ReachesApart net) {position : Nat}
    {session : QubitSession User} (found : net.sessions[position]? = some session) (side : Side) :
    ∃ number, session.taken side = pairs position number :=
  (reached.sound.stage position session found).taken_pairs side

/-- When a session starts only if every earlier one is over or apart from it, the outcomes of a
round come from one pair, whoever gives up and when.

Proof: sessions that are not over are apart, so what waits at their users is theirs alone.
Within one session the two ends and the source are in step, and the places they can be in say of
which pair every half is. -/
theorem paired_apart {net : QubitNetwork User} (reached : ReachesApart net) : net.Paired := by
  intro position session found round one two tookOne tookTwo
  have numbered {side : Side} {pair : Pair} (took : (session.taken side)[round]? = some pair) :
      pair = ⟨position, round⟩ := by
    obtain ⟨number, whole⟩ := own_pairs reached found side
    rw [whole, pairs, List.getElem?_map] at took
    obtain ⟨index, there, rfl⟩ := Option.map_eq_some_iff.mp took
    obtain ⟨within, rfl⟩ := List.getElem?_eq_some_iff.mp there
    rw [List.getElem_range]
  rw [numbered tookOne, numbered tookTwo]

/-- A step that starts no session. -/
theorem ReachesApart.tail {before after : QubitNetwork User} {act : Act}
    (reached : ReachesApart before) (step : Step before act after)
    (same : after.sessions.length = before.sessions.length) : ReachesApart after := by
  refine Relation.ReflTransGen.tail reached ⟨⟨act, step⟩, fun session longer => ?_⟩
  simp [longer] at same

theorem ReachesInTurn.step {before after : QubitNetwork User} {act : Act}
    (reached : ReachesInTurn before) (step : Step before act after)
    (same : after.sessions.length = before.sessions.length) : ReachesInTurn after :=
  reached.tail ⟨⟨act, step⟩, Or.inl same⟩

section samples

def sampleName : Nat → String
  | 0 => "alice"
  | 1 => "bob"
  | _ => "carol"

/-- A leader and a follower whose measurements all have the outcome 0. -/
def zeroPeers (user : Side → Nat) : Peers where
  name := fun side => sampleName (user side)
  short := by
    intro side
    rw [sampleName.eq_def]
    split <;> decide
  chances := fun _ => ⟨fun _ _ => 0, fun _ _ => 0, fun _ draw => draw, fun _ => 0⟩

/-- A BB84 session of one distribution. -/
def distribution (user : Side → Nat) (side : Side) : Program Unit :=
  BB84_Purified._receive_bb84_states ((zeroPeers user).endpoint .BB84_Purified (.num 1) side) 0 >>=
    fun _ => .done ()

theorem distribution_distributions (user : Side → Nat) : Distributions (distribution user) :=
  .BB84_Purified (zeroPeers user) (.num 1) 0 _ .none

/-- The session before anything has happened in it. -/
def fresh (user : Side → Nat) : QubitSession Nat := ⟨user, distribution user, 0, fun _ => []⟩

theorem Reaches.step {net after : QubitNetwork Nat} {act : Act} (reached : Reaches net)
    (step : Step net act after) : Reaches after :=
  reached.tail ⟨act, step⟩

theorem Reaches.start {net : QubitNetwork Nat} (reached : Reaches net) (user : Side → Nat)
    (different : user .lead ≠ user .follow) :
    Reaches { net with sessions := net.sessions ++ [fresh user] } :=
  reached.step (.start net user (distribution user) different (distribution_distributions user))

/-- What an end says in a round. -/
def ack (user : Side → Nat) (side : Side) : Message :=
  (zeroPeers user).message side .BB84Message [("ack", .bool true)]

/-- The leader of a loop begins with a round and goes on with the loop. -/
theorem receive_loop_leads (user : Side → Nat) (missing : Nat) (x theta : List Bit) :
    ∃ (afterReply : Message → Program Unit) (x' theta' : List Bit),
      (BB84_Purified.receive_loop ((zeroPeers user).endpoint .BB84_Purified (.num 1) .lead) 0
          (missing + 1) x theta >>= fun _ => .done ()) =
        .signal .lead () (.signal .follow () (.await .lead fun _ =>
          .send (ack user .lead) (.receive afterReply))) ∧
      afterReply (ack user .follow) =
        (BB84_Purified.receive_loop ((zeroPeers user).endpoint .BB84_Purified (.num 1) .lead) 0
          missing x' theta' >>= fun _ => .done ()) := by
  simp only [BB84_Purified.receive_loop, Peers.endpoint_role, ↓reduceIte,
    Endpoint.requestEPR, Endpoint.receiveEPR, signal_bind, done_bind, await_bind,
    Peers.exchange_lead, send_bind, Peers.wait_bind]
  refine ⟨_, x ++ [0], theta ++ [0], rfl, ?_⟩
  change (Peers.accept .BB84Message _ (ack user .follow) >>= fun _ => _) = _
  rw [ack, Peers.accept_message, Peers.require_message]
  rfl

/-- The leader of a session begins with two rounds. -/
theorem distribution_leads (user : Side → Nat) : ∃ (afterReply again : Message → Program Unit),
    distribution user .lead = .signal .lead () (.signal .follow () (.await .lead fun _ =>
      .send (ack user .lead) (.receive afterReply))) ∧
    afterReply (ack user .follow) = .signal .lead () (.signal .follow () (.await .lead fun _ =>
      .send (ack user .lead) (.receive again))) := by
  obtain ⟨afterReply, x, theta, first, goesOn⟩ := receive_loop_leads user 99 [] []
  obtain ⟨again, -, -, second, -⟩ := receive_loop_leads user 98 x theta
  exact ⟨afterReply, again, first, goesOn.trans second⟩

/-- The follower of a session takes a half first. -/
theorem distribution_follows (user : Side → Nat) : ∃ respond : Message → Program Unit,
    distribution user .follow = .await .follow fun _ => .receive respond := by
  rcases (distribution_distributions user).rounds.inversion with ⟨-, ended⟩ | ⟨round, -, follows⟩
  · cases ended
  · exact ⟨round.respond, follows⟩

/-- In a run of two sessions some round of a session has outcomes of two pairs. -/
def Mixed (first second : Side → Nat) : Prop :=
  ∃ net : QubitNetwork Nat, Reaches net ∧ ¬ net.Paired ∧
    net.sessions.map (·.user) = [first, second]

/-- User 0 leads sessions with 1 and 2, and the source serves the second first. -/
theorem shared_leader : Mixed (Side.select 0 1) (Side.select 0 2) := by
  obtain ⟨afterReply, -, leads, -⟩ := distribution_leads (Side.select 0 1)
  obtain ⟨otherReply, -, otherLeads, -⟩ := distribution_leads (Side.select 0 2)
  obtain ⟨respond, follows⟩ := distribution_follows (Side.select 0 1)
  have started := (Reaches.start .refl (Side.select 0 1) (by decide)).start (Side.select 0 2)
    (by decide)
  have requested := (started.step (.requestEPR _ 0 (fresh (Side.select 0 1)) _ rfl leads)).step
    (.requestEPR _ 1 (fresh (Side.select 0 2)) _ rfl otherLeads)
  have created := requested.step (.createEPR _ [⟨0, 0⟩] [] ⟨1, 0⟩ _ rfl rfl)
  -- the leader of the first session takes a half of the second one's pair
  have took := created.step (.receiveEPR _ 0 _ .lead ⟨1, 0⟩ [] _ rfl rfl rfl)
  have sent := (took.step (.createEPR _ [] [] ⟨0, 0⟩ _ rfl rfl)).step
    (.sendQubit _ [⟨1, 0⟩] [] ⟨0, 0⟩ _ rfl rfl)
  have both := sent.step (.receiveEPR _ 0 _ .follow ⟨0, 0⟩ [] _ rfl follows rfl)
  refine ⟨_, both, fun paired => ?_, rfl⟩
  have same := paired 0 _ rfl 0 ⟨1, 0⟩ ⟨0, 0⟩ rfl rfl
  cases same

/-- User 0 follows in sessions that 1 and 2 lead, and the source sends the second half of
the second pair first. -/
theorem shared_follower : Mixed (Side.select 1 0) (Side.select 2 0) := by
  obtain ⟨afterReply, -, leads, -⟩ := distribution_leads (Side.select 1 0)
  obtain ⟨otherReply, -, otherLeads, -⟩ := distribution_leads (Side.select 2 0)
  obtain ⟨respond, follows⟩ := distribution_follows (Side.select 1 0)
  have started := (Reaches.start .refl (Side.select 1 0) (by decide)).start (Side.select 2 0)
    (by decide)
  have requested := (started.step (.requestEPR _ 0 (fresh (Side.select 1 0)) _ rfl leads)).step
    (.requestEPR _ 1 (fresh (Side.select 2 0)) _ rfl otherLeads)
  have created := (requested.step (.createEPR _ [] [⟨1, 0⟩] ⟨0, 0⟩ _ rfl rfl)).step
    (.createEPR _ [] [] ⟨1, 0⟩ _ rfl rfl)
  have took := created.step (.receiveEPR _ 0 _ .lead ⟨0, 0⟩ [] _ rfl rfl rfl)
  have sent := took.step (.sendQubit _ [⟨0, 0⟩] [] ⟨1, 0⟩ _ rfl rfl)
  have both := sent.step (.receiveEPR _ 0 _ .follow ⟨1, 0⟩ [] _ rfl follows rfl)
  refine ⟨_, both, fun paired => ?_, rfl⟩
  have same := paired 0 _ rfl 0 ⟨0, 0⟩ ⟨1, 0⟩ rfl rfl
  cases same

/-- Users 0 and 1 each lead a session with the other. The leader 0 takes the message of the
leader 1 for the answer to its own and requests a second pair, whose second half is sent
before that of the first. -/
theorem crossed_roles : Mixed (Side.select 0 1) (Side.select 1 0) := by
  obtain ⟨afterReply, again, leads, goesOn⟩ := distribution_leads (Side.select 0 1)
  obtain ⟨otherReply, -, otherLeads, -⟩ := distribution_leads (Side.select 1 0)
  obtain ⟨respond, follows⟩ := distribution_follows (Side.select 0 1)
  have started := (Reaches.start .refl (Side.select 0 1) (by decide)).start (Side.select 1 0)
    (by decide)
  have first := ((started.step (.requestEPR _ 0 (fresh (Side.select 0 1)) _ rfl leads)).step
    (.createEPR _ [] [] ⟨0, 0⟩ _ rfl rfl)).step
    (.receiveEPR _ 0 _ .lead ⟨0, 0⟩ [] _ rfl rfl rfl)
  have asked := first.step (._send_control_message _ 0 _ .lead (ack (Side.select 0 1) .lead)
    (.receive afterReply) rfl rfl)
  have second := ((asked.step
    (.requestEPR _ 1 (fresh (Side.select 1 0)) _ rfl otherLeads)).step
    (.createEPR _ [] [] ⟨1, 0⟩ _ rfl rfl)).step
    (.receiveEPR _ 1 _ .lead ⟨1, 0⟩ [] _ rfl rfl rfl)
  have stored := (second.step (._send_control_message _ 1 _ .lead
    (ack (Side.select 1 0) .lead) (.receive otherReply) rfl rfl)).step
    (._store_control_message _ [⟨0, .follow, ack (Side.select 0 1) .lead⟩] []
      ⟨1, .follow, ack (Side.select 1 0) .lead⟩ _ rfl rfl)
  have confused := stored.step (._wait_for_control_message _ 0 _ .lead
    ⟨1, .follow, ack (Side.select 1 0) .lead⟩ [] afterReply rfl rfl rfl)
  have third := ((confused.step (.requestEPR _ 0 _ _ rfl goesOn)).step
    (.createEPR _ [] [] ⟨0, 1⟩ _ rfl rfl)).step
    (.sendQubit _ [⟨0, 0⟩, ⟨1, 0⟩] [] ⟨0, 1⟩ _ rfl rfl)
  have both := third.step (.receiveEPR _ 0 _ .follow ⟨0, 1⟩ [] _ rfl follows rfl)
  refine ⟨_, both, fun paired => ?_, rfl⟩
  have same := paired 0 _ rfl 0 ⟨0, 0⟩ ⟨0, 1⟩ rfl rfl
  cases same

/-- The leader of a session between 0 and 1 gives up before its half arrives, and the
follower when it has taken its own. In the next session of the two the leader takes the
half that was left, and the follower one of a new pair. -/
theorem leftover_half : ∃ net : QubitNetwork Nat, ReachesInTurn net ∧ ¬ net.Paired ∧
    net.sessions.map (·.user) = [Side.select 0 1, Side.select 0 1] := by
  let users : Side → Nat := Side.select 0 1
  obtain ⟨afterReply, -, leads, -⟩ := distribution_leads users
  obtain ⟨respond, follows⟩ := distribution_follows users
  have started : ReachesInTurn { (initial : QubitNetwork Nat) with sessions := [fresh users] } :=
    Relation.ReflTransGen.refl.tail ⟨⟨_, .start initial users (distribution users) (by decide)
      (distribution_distributions users)⟩, Or.inr (by simp [initial])⟩
  have late := (started.step (.requestEPR _ 0 (fresh users) _ rfl leads) rfl).step
    (.giveUp _ 0 _ .lead (.Exception "Timed out waiting for EPR") rfl (by simp [Ended])) rfl
  have arrived := (late.step (.createEPR _ [] [] ⟨0, 0⟩ _ rfl rfl) rfl).step
    (.sendQubit _ [] [] ⟨0, 0⟩ _ rfl rfl) rfl
  have alone := arrived.step (.receiveEPR _ 0 _ .follow ⟨0, 0⟩ [] _ rfl follows rfl) rfl
  have ended := alone.step (.giveUp _ 0 _ .follow
    (.ProtocolException "Timed out waiting for control message") rfl (by simp [Ended])) rfl
  have again := ended.tail ⟨⟨_, .start _ users (distribution users) (by decide)
    (distribution_distributions users)⟩, Or.inr fun session member side => by
      obtain rfl := List.mem_singleton.mp member
      cases side
      · exact Or.inr ⟨_, rfl⟩
      · exact Or.inr ⟨_, rfl⟩⟩
  have took := ReachesInTurn.step (ReachesInTurn.step again
    (.requestEPR _ 1 (fresh users) _ rfl leads) rfl)
    (.receiveEPR _ 1 _ .lead ⟨0, 0⟩ [] _ rfl rfl rfl) rfl
  have sent := (took.step (.createEPR _ [] [] ⟨1, 0⟩ _ rfl rfl) rfl).step
    (.sendQubit _ [] [] ⟨1, 0⟩ _ rfl rfl) rfl
  have both := sent.step (.receiveEPR _ 1 _ .follow ⟨1, 0⟩ [] _ rfl follows rfl) rfl
  refine ⟨_, both, fun paired => ?_, rfl⟩
  have same := paired 1 _ rfl 0 ⟨0, 0⟩ ⟨1, 0⟩ rfl rfl
  cases same

/-- Each way in which two sessions that run at one time are not apart can mix their pairs
up, and so can what a session has left that ended before the next one started. -/
theorem pairs_mixed : Mixed (Side.select 0 1) (Side.select 0 2) ∧
    Mixed (Side.select 1 0) (Side.select 2 0) ∧ Mixed (Side.select 0 1) (Side.select 1 0) ∧
    ∃ net : QubitNetwork Nat, ReachesInTurn net ∧ ¬ net.Paired ∧
      net.sessions.map (·.user) = [Side.select 0 1, Side.select 0 1] :=
  ⟨shared_leader, shared_follower, crossed_roles, leftover_half⟩

/-- The two ends of a session fail before anything was sent, and both ends of the next
session between the same users take a half of its first pair. -/
theorem paired_apart_next : ∃ (net : QubitNetwork Nat) (session : QubitSession Nat),
    net.sessions.map (·.user) = [Side.select 0 1, Side.select 0 1] ∧
      net.sessions[1]? = some session ∧ (∀ side, (session.taken side)[0]? = some ⟨1, 0⟩) ∧
      net.Paired := by
  let users : Side → Nat := Side.select 0 1
  obtain ⟨afterReply, -, leads, -⟩ := distribution_leads users
  obtain ⟨respond, follows⟩ := distribution_follows users
  have started : ReachesApart { (initial : QubitNetwork Nat) with sessions := [fresh users] } := by
    refine Relation.ReflTransGen.refl.tail ⟨⟨_, .start initial users (distribution users) (by decide)
      (distribution_distributions users)⟩, ?_⟩
    intro session new position other found
    cases found
  have failed := ReachesApart.tail (ReachesApart.tail started
    (.giveUp _ 0 (fresh users) .lead (.Exception "Connection refused") rfl (by simp [Ended, fresh, leads])) rfl)
    (.giveUp _ 0 _ .follow (.Exception "Timed out waiting for EPR") rfl
      (by simp [Ended, fresh, follows])) rfl
  have again := Relation.ReflTransGen.tail failed ⟨⟨_, .start _ users (distribution users)
    (by decide) (distribution_distributions users)⟩, by
      intro session new position other found busy
      cases position with
      | succ position => cases found
      | zero =>
        obtain rfl := Option.some.inj found
        refine absurd ⟨fun side => Or.inr ?_, rfl⟩ busy
        cases side
        · exact ⟨_, rfl⟩
        · exact ⟨_, rfl⟩⟩
  have requested := ReachesApart.tail again (.requestEPR _ 1 (fresh users) _ rfl leads) rfl
  have sent := ReachesApart.tail (ReachesApart.tail requested
    (.createEPR _ [] [] ⟨1, 0⟩ _ rfl rfl) rfl) (.sendQubit _ [] [] ⟨1, 0⟩ _ rfl rfl) rfl
  have took := ReachesApart.tail sent (.receiveEPR _ 1 _ .lead ⟨1, 0⟩ [] _ rfl rfl rfl) rfl
  have both := ReachesApart.tail took (.receiveEPR _ 1 _ .follow ⟨1, 0⟩ [] _ rfl follows rfl) rfl
  refine ⟨_, _, rfl, rfl, ?_, paired_apart both⟩
  intro side
  cases side <;> rfl

end samples

end QubitNetwork

end QChat
