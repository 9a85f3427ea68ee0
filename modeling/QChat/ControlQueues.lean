import QChat.BB84Session
import QChat.DIQKDOrder
import QChat.SuperDenseTransfer

/-!
# Control queues

Two clients and all sessions between them. A client has one queue for the control
messages of the other one, and all its ends of sessions take from it. Nothing in a
message names a session: which session sent it is noted here only to say what an end
takes.

Messages are delivered in any order. A request to follow starts a thread of its own and
does not enter the queue. Halves of pairs and qubits arrive at any time, and an end that
waits may give up at any time.
-/

namespace QChat

open Function (update)

/-- What a session runs: one of the two key protocols, or the transfer of a message by
superdense coding. Each has its own state between passes and its own ports. -/
inductive SessionKind where
  | BB84_Purified (parties : Parties)
  | DIQKD (users : DeviceParties)
  | SuperDenseCoding (stream : Stream)

namespace SessionKind

/-- The names of leader and follower. -/
def name : SessionKind → Side → String
  | .BB84_Purified parties => parties.name
  | .DIQKD users => users.name
  | .SuperDenseCoding stream => stream.peers.name

abbrev Port : SessionKind → Type
  | .BB84_Purified _ | .DIQKD _ => Side
  | .SuperDenseCoding _ => QubitPort

abbrev Item : SessionKind → Type
  | .BB84_Purified _ | .DIQKD _ => Unit
  | .SuperDenseCoding _ => Qubit

abbrev Local : SessionKind → Type
  | .BB84_Purified _ | .DIQKD _ => Instance
  | .SuperDenseCoding _ => Transmission

/-- What the two ends run. The follower's end begins with the request. -/
def code : (kind : SessionKind) → Side → Process Message kind.Port kind.Item Exn kind.Local
  | .BB84_Purified parties => parties.session
  | .DIQKD users => users.session
  | .SuperDenseCoding stream => stream.session

/-- Another pass of an end. -/
def enter : (kind : SessionKind) → Side → kind.Local →
    Option (Process Message kind.Port kind.Item Exn kind.Local)
  | .BB84_Purified _ => Instance.pass
  | .DIQKD users => users.pass
  | .SuperDenseCoding stream => fun _ => SuperDenseCoding.pass stream.qubits

end SessionKind

/-- A session between the two clients. `following` says whether the request has reached the
follower. Until then the follower has no thread for the session, and its queue may fill before
it has one. -/
structure RunningSession where
  leader : Client
  kind : SessionKind
  code : Side → Process Message kind.Port kind.Item Exn kind.Local
  following : Bool

namespace RunningSession

variable (session : RunningSession)

/-- The client at an end. -/
def client : Side → Client
  | .lead => session.leader
  | .follow => session.leader.other

/-- The thread of an end has started. -/
def started : Side → Prop
  | .lead => True
  | .follow => session.following = true

/-- The thread of an end has not started, has raised or has returned. -/
def ended (side : Side) : Prop :=
  ¬ session.started side ∨ (∃ error, session.code side = .raised error) ∨
    ∃ result, session.code side = .done result ∧ session.kind.enter side result = none

end RunningSession

/-- What an end of a session has taken from the queue, with the session it was meant for. The
source has no such record: the message itself does not say which session it belongs to. -/
structure Take where
  session : Nat
  side : Side
  envelope : Envelope

/-- The sessions, what is on its way to a client, its queue for the other client's
messages, and what was taken from the queues. -/
structure ControlState where
  sessions : List RunningSession
  travelling : Client → List Envelope
  queue : Client → List Envelope
  taken : List Take

/-- The end of a session continues with another process. -/
def RunningSession.proceed (session : RunningSession) (side : Side)
    (process : Process Message session.kind.Port session.kind.Item Exn session.kind.Local) :
    RunningSession :=
  { session with code := update session.code side process }

theorem RunningSession.proceed_proceed (session : RunningSession) (side : Side)
    (one two : Process Message session.kind.Port session.kind.Item Exn session.kind.Local) :
    (session.proceed side one).proceed side two = session.proceed side two :=
  congrArg (RunningSession.mk session.leader session.kind · session.following)
    (Function.update_idem ..)

namespace ControlState

/-- One step of an end of a session, or of the connection between the clients. `name` names the
clients. A session may start at any time and any end that waits may give up, so that what it
leaves in the queues is there for the sessions that come after it. -/
inductive Step (name : Client → String) : ControlState → ControlState → Prop where
  | start (state : ControlState) (leader : Client) (kind : SessionKind)
      (named : ∀ side, kind.name side = name (Side.select leader leader.other side)) :
      Step name state { state with
        sessions := state.sessions ++ [⟨leader, kind, kind.code, false⟩] }
  | send (state : ControlState) (position : Nat) (session : RunningSession) (side : Side)
      (message : Message)
      (rest : Process Message session.kind.Port session.kind.Item Exn session.kind.Local)
      (running : state.sessions[position]? = some session) (started : session.started side)
      (acts : session.code side = .send message rest) :
      Step name state { state with
        sessions := state.sessions.set position (session.proceed side rest)
        travelling := update state.travelling (session.client side.other)
          (state.travelling (session.client side.other) ++ [⟨position, side.other, message⟩]) }
  | _store_control_message (state : ControlState) (client : Client)
      (before after : List Envelope) (envelope : Envelope)
      (pending : state.travelling client = before ++ envelope :: after)
      (control : envelope.message.cls ≠ .PTCLMessage) :
      Step name state { state with
        travelling := update state.travelling client (before ++ after)
        queue := update state.queue client (state.queue client ++ [envelope]) }
  | _follow_protocol (state : ControlState) (client : Client) (before after : List Envelope)
      (envelope : Envelope) (session : RunningSession)
      (respond : Message → Process Message session.kind.Port session.kind.Item Exn
        session.kind.Local)
      (pending : state.travelling client = before ++ envelope :: after)
      (request : envelope.message.cls = .PTCLMessage)
      (running : state.sessions[envelope.session]? = some session)
      (waits : session.following = false) (acts : session.code .follow = .receive respond) :
      Step name state { state with
        sessions := state.sessions.set envelope.session
          { session.proceed .follow (respond envelope.message) with following := true }
        travelling := update state.travelling client (before ++ after) }
  | _wait_for_control_message (state : ControlState) (position : Nat) (session : RunningSession)
      (side : Side) (envelope : Envelope) (others : List Envelope)
      (rest : Message → Process Message session.kind.Port session.kind.Item Exn session.kind.Local)
      (running : state.sessions[position]? = some session) (started : session.started side)
      (acts : session.code side = .receive rest)
      (ready : state.queue (session.client side) = envelope :: others) :
      Step name state { state with
        sessions := state.sessions.set position (session.proceed side (rest envelope.message))
        queue := update state.queue (session.client side) others
        taken := state.taken ++ [⟨position, side, envelope⟩] }
  | signal (state : ControlState) (position : Nat) (session : RunningSession) (side : Side)
      (port : session.kind.Port) (item : session.kind.Item)
      (rest : Process Message session.kind.Port session.kind.Item Exn session.kind.Local)
      (running : state.sessions[position]? = some session) (started : session.started side)
      (acts : session.code side = .signal port item rest) :
      Step name state { state with
        sessions := state.sessions.set position (session.proceed side rest) }
  | await (state : ControlState) (position : Nat) (session : RunningSession) (side : Side)
      (port : session.kind.Port) (item : session.kind.Item)
      (rest : session.kind.Item → Process Message session.kind.Port session.kind.Item Exn
        session.kind.Local)
      (running : state.sessions[position]? = some session) (started : session.started side)
      (acts : session.code side = .await port rest) :
      Step name state { state with
        sessions := state.sessions.set position (session.proceed side (rest item)) }
  | enter (state : ControlState) (position : Nat) (session : RunningSession) (side : Side)
      (head : session.kind.Local)
      (body : Process Message session.kind.Port session.kind.Item Exn session.kind.Local)
      (running : state.sessions[position]? = some session) (started : session.started side)
      (returned : session.code side = .done head)
      (again : session.kind.enter side head = some body) :
      Step name state { state with
        sessions := state.sessions.set position (session.proceed side body) }
  | giveUp (state : ControlState) (position : Nat) (session : RunningSession) (side : Side)
      (error : Exn) (running : state.sessions[position]? = some session)
      (started : session.started side)
      (waits : (∃ rest, session.code side = .receive rest) ∨
        ∃ port rest, session.code side = .await port rest) :
      Step name state { state with
        sessions := state.sessions.set position (session.proceed side (.raised error)) }

/-- Nothing has happened yet. -/
def initial : ControlState := ⟨[], fun _ => [], fun _ => [], []⟩

abbrev Reaches (name : Client → String) (state : ControlState) : Prop :=
  Relation.ReflTransGen (Step name) initial state

/-- No session runs at either end, and no message is on its way or in a queue. -/
def Clear (state : ControlState) : Prop :=
  (∀ session ∈ state.sessions, ∀ side, session.ended side) ∧
    ∀ client, state.travelling client = [] ∧ state.queue client = []

/-- A run in which a session only starts when all earlier ones are over and have left
nothing behind. -/
abbrev ReachesInTurn (name : Client → String) (state : ControlState) : Prop :=
  Relation.ReflTransGen (fun before after => Step name before after ∧
    (after.sessions.length = before.sessions.length ∨ before.Clear)) initial state

/-- Every message that an end has taken was sent to it by the other end of its session. -/
def Isolated (state : ControlState) : Prop :=
  ∀ take ∈ state.taken, take.envelope.session = take.session ∧ take.envelope.side = take.side

/-- A message to an end at a client, from the session that was started last. -/
def Current (sessions : List RunningSession) (client : Client) (envelope : Envelope) : Prop :=
  envelope.session + 1 = sessions.length ∧
    ∃ session, sessions[envelope.session]? = some session ∧ session.client envelope.side = client

/-- What holds if sessions start in turn: all sessions but the last are over, and all messages
are of the last. So an end that takes a message from the queue of its peer takes one of its own
session. -/
structure Alone (state : ControlState) : Prop where
  earlier : ∀ position session, state.sessions[position]? = some session →
    position + 1 < state.sessions.length → ∀ side, session.ended side
  sent : ∀ client, ∀ envelope ∈ state.travelling client, Current state.sessions client envelope
  queued : ∀ client, ∀ envelope ∈ state.queue client, Current state.sessions client envelope
  isolated : state.Isolated

variable {state : ControlState} {position : Nat} {session : RunningSession} {side : Side}

/-- An end with an action in front of it is not over. -/
theorem not_ended (started : session.started side)
    (raised : ∀ error, session.code side ≠ .raised error)
    (returned : ∀ result, session.code side = .done result →
      session.kind.enter side result ≠ none) : ¬ session.ended side := by
  rintro (idle | ⟨error, failed⟩ | ⟨result, finished, final⟩)
  · exact idle started
  · exact raised error failed
  · exact returned result finished final

/-- Only the last session has an end that is not over. -/
theorem Alone.latest (alone : Alone state) (running : state.sessions[position]? = some session)
    (live : ¬ session.ended side) : position + 1 = state.sessions.length := by
  have within := (List.getElem?_eq_some_iff.mp running).1
  by_contra other
  exact live (alone.earlier position session running (by omega) side)

/-- The two ends of a session are at different clients. -/
theorem client_injective (session : RunningSession) {one two : Side}
    (same : session.client one = session.client two) : one = two := by
  cases one with
  | lead =>
    cases two with
    | lead => rfl
    | follow => exact absurd same.symm (Client.other_ne _)
  | follow =>
    cases two with
    | lead => exact absurd same (Client.other_ne _)
    | follow => rfl

/-- A session that goes on stays the one the messages belong to. -/
theorem Current.set {sessions : List RunningSession} {client : Client} {envelope : Envelope}
    (current : Current sessions client envelope) (running : sessions[position]? = some session)
    {after : RunningSession} (leader : after.leader = session.leader) :
    Current (sessions.set position after) client envelope := by
  obtain ⟨last, owner, found, there⟩ := current
  have within := (List.getElem?_eq_some_iff.mp running).1
  refine ⟨by rwa [List.length_set], ?_⟩
  by_cases same : envelope.session = position
  · rw [same, running] at found
    cases found
    refine ⟨after, by rw [same, List.getElem?_set_self within], ?_⟩
    rw [← there]
    cases envelope.side with
    | lead => exact leader
    | follow => exact congrArg Client.other leader
  · exact ⟨owner, by rwa [List.getElem?_set_ne (Ne.symm same)], there⟩

/-- The last session goes on at one of its ends. -/
theorem Alone.set (alone : Alone state) (running : state.sessions[position]? = some session)
    (last : position + 1 = state.sessions.length) {after : RunningSession}
    (leader : after.leader = session.leader) :
    Alone { state with sessions := state.sessions.set position after } := by
  refine ⟨?_, ?_, ?_, alone.isolated⟩
  · intro place other found before
    rw [List.length_set] at before
    rw [List.getElem?_set_ne (by omega)] at found
    exact alone.earlier place other found before
  · intro client envelope member
    exact (alone.sent client envelope member).set running leader
  · intro client envelope member
    exact (alone.queued client envelope member).set running leader

theorem Alone.step {name : Client → String} {before after : ControlState} (alone : Alone before)
    (stepped : Step name before after)
    (clear : after.sessions.length = before.sessions.length ∨ before.Clear) : Alone after := by
  cases stepped with
  | start leader kind named =>
    obtain ⟨finished, empty⟩ : before.Clear := by
      rcases clear with same | clear
      · simp at same
      · exact clear
    refine ⟨?_, ?_, ?_, alone.isolated⟩
    · intro position session found earlier
      rw [List.length_append, List.length_singleton, Nat.add_lt_add_iff_right] at earlier
      rw [List.getElem?_append_left earlier] at found
      exact finished session (List.mem_of_getElem? found)
    · intro client envelope member
      rw [(empty client).1] at member
      cases member
    · intro client envelope member
      rw [(empty client).2] at member
      cases member
  | send position session side message rest running started acts =>
    have live := not_ended started (by simp [acts]) (by simp [acts])
    have last := alone.latest running live
    have within := (List.getElem?_eq_some_iff.mp running).1
    have kept : Alone { before with
        sessions := before.sessions.set position (session.proceed side rest) } :=
      alone.set running last rfl
    refine ⟨kept.earlier, ?_, kept.queued, kept.isolated⟩
    refine (Function.forall_update_iff _ fun client (messages : List Envelope) =>
      ∀ envelope ∈ messages, Current _ client envelope).mpr ⟨?_, fun client _ => kept.sent client⟩
    intro envelope member
    rcases List.mem_append.mp member with there | new
    · exact kept.sent _ envelope there
    · rw [List.mem_singleton.mp new]
      refine ⟨by simpa using last, _, List.getElem?_set_self within, ?_⟩
      cases side <;> rfl
  | _store_control_message client earlier later envelope pending control =>
    have current := alone.sent client envelope (by simp [pending])
    refine ⟨alone.earlier, ?_, ?_, alone.isolated⟩
    · refine (Function.forall_update_iff _ fun client (messages : List Envelope) =>
        ∀ envelope ∈ messages, Current before.sessions client envelope).mpr
          ⟨?_, fun other _ => alone.sent other⟩
      intro other member
      have there := ((List.sublist_cons_self envelope later).append_left earlier).subset member
      exact alone.sent client other (pending ▸ there)
    · refine (Function.forall_update_iff _ fun client (messages : List Envelope) =>
        ∀ envelope ∈ messages, Current before.sessions client envelope).mpr
          ⟨?_, fun other _ => alone.queued other⟩
      intro other member
      rcases List.mem_append.mp member with there | new
      · exact alone.queued client other there
      · exact List.mem_singleton.mp new ▸ current
  | _follow_protocol client earlier later envelope session respond pending request running waits acts =>
    have current := alone.sent client envelope (by simp [pending])
    have kept : Alone { before with
        sessions := before.sessions.set envelope.session
          { session.proceed .follow (respond envelope.message) with following := true } } :=
      alone.set running current.1 rfl
    refine ⟨kept.earlier, ?_, kept.queued, kept.isolated⟩
    refine (Function.forall_update_iff _ fun client (messages : List Envelope) =>
      ∀ envelope ∈ messages, Current _ client envelope).mpr ⟨?_, fun other _ => kept.sent other⟩
    intro other member
    have there := ((List.sublist_cons_self envelope later).append_left earlier).subset member
    exact kept.sent client other (pending ▸ there)
  | _wait_for_control_message position session side envelope others rest running started acts
      ready =>
    have live := not_ended started (by simp [acts]) (by simp [acts])
    have last := alone.latest running live
    have kept : Alone { before with
        sessions := before.sessions.set position (session.proceed side (rest envelope.message)) } :=
      alone.set running last rfl
    refine ⟨kept.earlier, kept.sent, ?_, ?_⟩
    · refine (Function.forall_update_iff _ fun client (messages : List Envelope) =>
        ∀ envelope ∈ messages, Current _ client envelope).mpr
          ⟨?_, fun other _ => kept.queued other⟩
      intro other member
      exact kept.queued _ other (ready ▸ List.mem_cons_of_mem _ member)
    · intro take member
      rcases List.mem_append.mp member with taken | new
      · exact alone.isolated take taken
      · rw [List.mem_singleton.mp new]
        -- what is queued is of the last session, and this end is one of the last session
        obtain ⟨same, owner, found, there⟩ :=
          alone.queued (session.client side) envelope (by simp [ready])
        have here : envelope.session = position := by omega
        rw [here, running] at found
        cases found
        exact ⟨here, client_injective session there⟩
  | signal position session side port item rest running started acts =>
    have live := not_ended started (by simp [acts]) (by simp [acts])
    exact alone.set running (alone.latest running live) rfl
  | await position session side port item rest running started acts =>
    have live := not_ended started (by simp [acts]) (by simp [acts])
    exact alone.set running (alone.latest running live) rfl
  | enter position session side head body running started returned again =>
    have live := not_ended started (by simp [returned]) (by simp [returned, again])
    exact alone.set running (alone.latest running live) rfl
  | giveUp position session side error running started waits =>
    have live : ¬ session.ended side := by
      rcases waits with ⟨rest, acts⟩ | ⟨port, rest, acts⟩
      · exact not_ended started (by simp [acts]) (by simp [acts])
      · exact not_ended started (by simp [acts]) (by simp [acts])
    exact alone.set running (alone.latest running live) rfl

theorem initial_alone : Alone initial where
  earlier := fun _ _ found => by cases found
  sent := fun _ _ absent => by cases absent
  queued := fun _ _ absent => by cases absent
  isolated := fun _ absent => by cases absent

/-- If sessions start in turn and leave nothing behind, no session takes a message of another
one. A control queue belongs to a user and not to a session, so this is all that keeps the
messages of sessions apart.

Proof: as long as a session runs, every message on its way between the two users, or in their
queues, was sent by one of its ends; and it starts when there is none. -/
theorem isolated_in_turn {name : Client → String} {state : ControlState}
    (reached : ReachesInTurn name state) : state.Isolated := by
  have alone : Alone state := by
    induction reached with
    | refl => exact initial_alone
    | tail _ stepped inductionHypothesis => exact inductionHypothesis.step stepped.1 stepped.2
  exact alone.isolated

/-- A step that starts no session. -/
theorem ReachesInTurn.tail {name : Client → String} {before after : ControlState}
    (reached : ReachesInTurn name before) (stepped : Step name before after)
    (same : after.sessions.length = before.sessions.length) : ReachesInTurn name after :=
  Relation.ReflTransGen.tail reached ⟨stepped, Or.inl same⟩

section handshake

variable (parties : Parties)

/-- The clients are named as leader and follower. -/
def clientNames : Client → String
  | .A => parties.name .lead
  | .B => parties.name .follow

/-- A BB84 session that `A` leads, before and after its request is sent. -/
def begun : RunningSession := ⟨.A, .BB84_Purified parties, parties.session, false⟩

theorem start_begun (state : ControlState) :
    Step (clientNames parties) state { state with sessions := state.sessions ++ [begun parties] } := by
  refine .start state .A (.BB84_Purified parties) fun side => ?_
  cases side <;> rfl

/-- The leader of a first session has sent its request and waits. -/
theorem request_sent {afterReply : Message → Program Instance}
    (leads : parties.session .lead = .send parties.request (.receive afterReply)) :
    ∃ state, ReachesInTurn (clientNames parties) state ∧
      state.sessions = [(begun parties).proceed .lead (.receive afterReply)] ∧
      state.travelling .B = [⟨0, .follow, parties.request⟩] ∧
      state.travelling .A = [] ∧ state.queue .A = [] ∧ state.taken = [] := by
  have clear : Clear initial := ⟨nofun, fun _ => ⟨rfl, rfl⟩⟩
  have started : ReachesInTurn (clientNames parties)
      { initial with sessions := [begun parties] } :=
    Relation.ReflTransGen.refl.tail ⟨start_begun parties initial, Or.inr clear⟩
  have asked := ReachesInTurn.tail started
    (.send _ 0 (begun parties) .lead parties.request (.receive afterReply) rfl trivial leads) rfl
  exact ⟨_, asked, rfl, rfl, rfl, rfl, rfl⟩

/-- The session when the follower has answered. -/
def answered (process : Program Instance) : RunningSession :=
  { ((begun parties).proceed .lead process).proceed .follow (.done (parties.inst 0 .follow)) with
    following := true }

/-- The follower answers, whatever the leader does meanwhile. -/
theorem answer_queued {state : ControlState} {process : Program Instance}
    (reached : ReachesInTurn (clientNames parties) state)
    (running : state.sessions = [(begun parties).proceed .lead process])
    (asked : state.travelling .B = [⟨0, .follow, parties.request⟩])
    (silent : state.travelling .A = []) (empty : state.queue .A = []) :
    ∃ after, ReachesInTurn (clientNames parties) after ∧
      after.sessions = [answered parties process] ∧
      after.queue .A = [⟨0, .lead, parties.acknowledgement⟩] ∧ after.taken = state.taken := by
  obtain ⟨respond, follows, answers⟩ := parties.session_follows
  let waiting := (begun parties).proceed .lead process
  have acts : waiting.code .follow = .receive respond := by
    simpa [waiting, RunningSession.proceed, begun] using follows
  have first : state.sessions[0]? = some waiting := by
    rw [running]
    rfl
  have followed := ReachesInTurn.tail reached
    (._follow_protocol state .B [] [] _ waiting respond asked rfl first rfl acts) (by simp)
  let answering : RunningSession :=
    { waiting.proceed .follow (respond parties.request) with following := true }
  have second : (state.sessions.set 0 answering)[0]? = some answering := by
    rw [running]
    rfl
  have replied := ReachesInTurn.tail followed
    (.send _ 0 answering .follow parties.acknowledgement (.done (parties.inst 0 .follow)) second rfl
      answers) (by simp)
  have stored := ReachesInTurn.tail replied
    (._store_control_message _ .A [] [] ⟨0, .lead, parties.acknowledgement⟩ (by
      simp [answering, waiting, RunningSession.client, RunningSession.proceed, begun, silent])
      (by simp [Parties.acknowledgement])) rfl
  refine ⟨_, stored, ?_, ?_, rfl⟩
  · simp only [running, List.set_cons_zero]
    exact congrArg ([·]) (RunningSession.proceed_proceed { waiting with following := true } .follow
      (respond parties.request) (.done (parties.inst 0 .follow)))
  · simp [empty]

/-- The answer to a leader that has given up is taken by the leader of the next session. -/
theorem leftover_taken : ∃ state, Reaches (clientNames parties) state ∧ ¬ state.Isolated := by
  obtain ⟨afterReply, leads, -⟩ := parties.session_leads
  obtain ⟨state, reached, running, asked, silent, empty, -⟩ := request_sent parties leads
  let timeout : Exn := .ProtocolException "Timed out waiting for control message"
  have first : state.sessions[0]? = some ((begun parties).proceed .lead (.receive afterReply)) := by
    rw [running]
    rfl
  have gaveUp := ReachesInTurn.tail reached (.giveUp state 0 _ .lead timeout first trivial
    (Or.inl ⟨afterReply, rfl⟩)) (by simp)
  obtain ⟨after, reachedAfter, sessions, queued, -⟩ :=
    answer_queued parties gaveUp (by
      simp only [running, List.set_cons_zero]
      exact congrArg ([·]) (RunningSession.proceed_proceed (begun parties) .lead
        (.receive afterReply) (.raised timeout))) asked silent empty
  -- The next session is led while the answer is still queued.
  have allowed : Reaches (clientNames parties) after :=
    Relation.ReflTransGen.mono (fun _ _ both => both.1) _ _ reachedAfter
  have started := allowed.tail (start_begun parties after)
  have second : (after.sessions ++ [begun parties])[1]? = some (begun parties) := by
    rw [sessions]
    rfl
  have asks := started.tail (.send _ 1 (begun parties) .lead parties.request (.receive afterReply)
    second trivial leads)
  have waits : ((after.sessions ++ [begun parties]).set 1
      ((begun parties).proceed .lead (.receive afterReply)))[1]? =
        some ((begun parties).proceed .lead (.receive afterReply)) := by
    rw [sessions]
    rfl
  have takes := asks.tail (._wait_for_control_message _ 1
    ((begun parties).proceed .lead (.receive afterReply)) .lead _ [] afterReply waits trivial rfl
    queued)
  refine ⟨_, takes, fun isolated => ?_⟩
  have wrong := (isolated ⟨1, .lead, ⟨0, .lead, parties.acknowledgement⟩⟩
    (List.mem_append_right _ (List.mem_singleton.mpr rfl))).1
  cases wrong

/-- The answer to a leader that waits is taken by it. -/
theorem answer_taken : ∃ state, ReachesInTurn (clientNames parties) state ∧
    state.taken = [⟨0, .lead, ⟨0, .lead, parties.acknowledgement⟩⟩] := by
  obtain ⟨afterReply, leads, -⟩ := parties.session_leads
  obtain ⟨state, reached, running, asked, silent, empty, untaken⟩ := request_sent parties leads
  obtain ⟨after, reachedAfter, sessions, queued, taken⟩ :=
    answer_queued parties reached running asked silent empty
  have first : after.sessions[0]? = some (answered parties (.receive afterReply)) := by
    rw [sessions]
    rfl
  have takes := ReachesInTurn.tail reachedAfter (._wait_for_control_message after 0
    (answered parties (.receive afterReply)) .lead _ [] afterReply first trivial rfl queued) (by simp)
  refine ⟨_, takes, ?_⟩
  simp [taken, untaken]

end handshake

/-- A message that was left over from an earlier session is taken by a later one. -/
theorem not_isolated : ∃ name state, Reaches name state ∧ ¬ state.Isolated :=
  ⟨_, leftover_taken DeviceParties.plainDevices.toParties⟩

theorem isolated_in_turn_answer : ∃ state : ControlState, state.taken ≠ [] ∧ state.Isolated := by
  obtain ⟨state, reached, taken⟩ := answer_taken DeviceParties.plainDevices.toParties
  refine ⟨state, ?_, isolated_in_turn reached⟩
  rw [taken]
  exact List.cons_ne_nil _ _

end ControlState

end QChat
