import Mathlib.Logic.Relation
import QChat.Process

/-!
# Two communicating parties

`Duet` runs two processes side by side. Messages travel to the other party and
may be delivered in any order; delivered messages are taken from a queue in
order. Items on ports arrive in the order in which they were put. A party whose
process has returned a loop state re-enters the loop; the states it re-entered
at are kept as a history.

`Carries` says what is on the way in a state, wherever it is. `Talk` and `Shows` describe
the states in which that is at most one message; `QChat.Lockstep` proves that some
programs never leave them. In a settled state everything on the way has arrived.
-/

namespace QChat

open Function (update)

/-- The two parties of an exchange. They are named for the roles that the protocols give
them. -/
inductive Side where
  | lead
  | follow
deriving DecidableEq, Repr

/-- The party at the other end, to which the messages of this one go. -/
def Side.other : Side → Side
  | .lead => .follow
  | .follow => .lead

@[simp] theorem Side.other_lead : Side.lead.other = .follow := rfl
@[simp] theorem Side.other_follow : Side.follow.other = .lead := rfl

@[simp] theorem Side.other_other (side : Side) : side.other.other = side := by
  cases side <;> rfl

@[simp] theorem Side.other_ne (side : Side) : side.other ≠ side := by
  cases side <;> decide

@[simp] theorem Side.ne_other (side : Side) : side ≠ side.other := by
  cases side <;> decide

/-- A value for each party, given as the leader's and the follower's. -/
def Side.select {α : Type} (lead follow : α) : Side → α
  | .lead => lead
  | .follow => follow

@[simp] theorem Side.select_lead {α : Type} (lead follow : α) :
    Side.select lead follow .lead = lead := rfl
@[simp] theorem Side.select_follow {α : Type} (lead follow : α) :
    Side.select lead follow .follow = follow := rfl

/-- Two distinct parties are each other's opposite. -/
theorem Side.eq_other {one two : Side} (distinct : one ≠ two) : one = two.other := by
  cases one <;> cases two <;> simp_all

variable {Message Port Item Error α : Type}

/-- A state of the two parties and of everything on the way between them. A message is
travelling or in the queue of its receiver; an item is being shipped or has arrived at its port.
The heads are the loop states a party has gone through. -/
structure Duet (Message Port Item Error α : Type) where
  /-- Messages sent to a party and not yet delivered, in no particular order. -/
  travelling : Side → List Message
  /-- Delivered messages a party has not taken yet, oldest first. -/
  queue : Side → List Message
  /-- Items put on a port that have not arrived yet, oldest first. -/
  shipping : Port → List Item
  /-- Items that can be taken from a port, oldest first. -/
  arrived : Port → List Item
  /-- What each party still has to do. -/
  code : Side → Process Message Port Item Error α
  /-- The loop states at which each party re-entered its loop, oldest first. -/
  heads : Side → List α

namespace Duet

/-- The parties are about to run `code` and nothing is on the way. They have no loop state yet:
a party gets its first one when its code returns. -/
def start (code : Side → Process Message Port Item Error α) :
    Duet Message Port Item Error α where
  travelling := fun _ => []
  queue := fun _ => []
  shipping := fun _ => []
  arrived := fun _ => []
  code := code
  heads := fun _ => []

variable [DecidableEq Port]
variable (enter : Side → α → Option (Process Message Port Item Error α))

/-- One step of either party or of the channel between them. `enter` gives the
loop body for a returned loop state and `none` for a final result. -/
inductive Step : Duet Message Port Item Error α → Duet Message Port Item Error α → Prop where
  | send (state : Duet Message Port Item Error α) (side : Side) (message : Message)
      (rest : Process Message Port Item Error α)
      (acts : state.code side = .send message rest) :
      Step state { state with
        travelling := update state.travelling side.other
          (state.travelling side.other ++ [message])
        code := update state.code side rest }
  | deliver (state : Duet Message Port Item Error α) (side : Side)
      (before after : List Message) (message : Message)
      (pending : state.travelling side = before ++ message :: after) :
      Step state { state with
        travelling := update state.travelling side (before ++ after)
        queue := update state.queue side (state.queue side ++ [message]) }
  | receive (state : Duet Message Port Item Error α) (side : Side) (message : Message)
      (others : List Message) (rest : Message → Process Message Port Item Error α)
      (acts : state.code side = .receive rest)
      (ready : state.queue side = message :: others) :
      Step state { state with
        queue := update state.queue side others
        code := update state.code side (rest message) }
  | signal (state : Duet Message Port Item Error α) (side : Side) (port : Port) (item : Item)
      (rest : Process Message Port Item Error α)
      (acts : state.code side = .signal port item rest) :
      Step state { state with
        shipping := update state.shipping port (state.shipping port ++ [item])
        code := update state.code side rest }
  | arrive (state : Duet Message Port Item Error α) (port : Port) (item : Item)
      (others : List Item) (pending : state.shipping port = item :: others) :
      Step state { state with
        shipping := update state.shipping port others
        arrived := update state.arrived port (state.arrived port ++ [item]) }
  | await (state : Duet Message Port Item Error α) (side : Side) (port : Port) (item : Item)
      (others : List Item) (rest : Item → Process Message Port Item Error α)
      (acts : state.code side = .await port rest)
      (ready : state.arrived port = item :: others) :
      Step state { state with
        arrived := update state.arrived port others
        code := update state.code side (rest item) }
  | enter (state : Duet Message Port Item Error α) (side : Side) (head : α)
      (body : Process Message Port Item Error α)
      (returned : state.code side = .done head) (again : enter side head = some body) :
      Step state { state with
        code := update state.code side body
        heads := update state.heads side (state.heads side ++ [head]) }

/-- Any number of steps, in any order of the parties and the channel. A message may overtake
others that travel to the same party, an item may not. -/
def Reaches : Duet Message Port Item Error α → Duet Message Port Item Error α → Prop :=
  Relation.ReflTransGen (Step enter)

/-- A party has returned a final result, after which no pass follows. -/
def Returned (state : Duet Message Port Item Error α) (side : Side) (result : α) : Prop :=
  state.code side = .done result ∧ enter side result = none

/-- Messages sent and not yet taken, in flight or queued, in both directions. In lockstep this
number is never more than one. -/
def pending (state : Duet Message Port Item Error α) : Nat :=
  (state.travelling .lead).length + (state.queue .lead).length +
    (state.travelling .follow).length + (state.queue .follow).length

/-- A step that delivers no message past one that blocks it. The relation is a parameter: it may
keep all messages in order, or only some kinds of them. -/
def Ordered (blocks : Message → Message → Prop)
    (state next : Duet Message Port Item Error α) : Prop :=
  ∀ side before message after, state.travelling side = before ++ message :: after →
    next.travelling side = before ++ after → next.queue side = state.queue side ++ [message] →
      ∀ earlier ∈ before, ¬ blocks earlier message

/-- Any number of steps that deliver no message past one that blocks it, where this is the order
of sending and not one of contents. -/
def ReachesInOrder (blocks : Message → Message → Prop)
    (enter : Side → α → Option (Process Message Port Item Error α)) :
    Duet Message Port Item Error α → Duet Message Port Item Error α → Prop :=
  Relation.ReflTransGen fun state next => Step enter state next ∧ Ordered blocks state next

variable {enter}

/-- Where no message blocks another, every order of deliveries is allowed, so the runs in order
are all runs. -/
theorem Reaches.inOrder {blocks : Message → Message → Prop}
    {state later : Duet Message Port Item Error α} (reached : Reaches enter state later)
    (free : ∀ earlier message, ¬ blocks earlier message) :
    ReachesInOrder blocks enter state later := by
  induction reached with
  | refl => exact .refl
  | tail _ moves inductionHypothesis =>
    exact inductionHypothesis.tail ⟨moves, fun _ _ message _ _ _ _ earlier _ => free earlier message⟩

/-- A run in order is a run. -/
theorem ReachesInOrder.reaches {blocks : Message → Message → Prop}
    {state later : Duet Message Port Item Error α}
    (reached : ReachesInOrder blocks enter state later) : Reaches enter state later :=
  Relation.ReflTransGen.mono (fun _ _ moves => moves.1) _ _ reached

/-- The state in which everything on the way has arrived. Runs are put together from such
states, by sending and delivering at once. -/
def settled (pending : Side → List Message) (stock : Port → List Item)
    (heads : Side → List α) (code : Side → Process Message Port Item Error α) :
    Duet Message Port Item Error α where
  travelling := fun _ => []
  queue := pending
  shipping := fun _ => []
  arrived := stock
  code := code
  heads := heads

variable {blocks : Message → Message → Prop}
variable {pending : Side → List Message} {stock : Port → List Item} {heads : Side → List α}
variable {code : Side → Process Message Port Item Error α}

omit [DecidableEq Port] in
/-- While at most one message travels to each party none can be passed, whatever blocks what. -/
theorem ordered_of_single {state : Duet Message Port Item Error α}
    (single : ∀ side, (state.travelling side).length ≤ 1) (next : Duet Message Port Item Error α) :
    Ordered blocks state next := by
  intro side before message after travels _ _ earlier member
  have few := single side
  have some := List.length_pos_of_mem member
  rw [travels, List.length_append, List.length_cons] at few
  omega

/-- A step from where everything has arrived is in order, as no message travels that could be
passed. -/
theorem settled_step {next : Duet Message Port Item Error α}
    (moves : Step enter (settled pending stock heads code) next) :
    ReachesInOrder blocks enter (settled pending stock heads code) next :=
  .single ⟨moves, ordered_of_single (fun _ => by simp [settled]) next⟩

/-- What is put on an empty way and arrives leaves the way empty. -/
theorem update_arrived {γ δ : Type} [DecidableEq γ] (place : γ) (list : List δ) :
    update (update (fun _ => []) place list) place [] = fun _ => ([] : List δ) := by
  rw [Function.update_idem]
  exact Function.update_eq_self place fun _ => []

/-- A message is sent and delivered at once, in two steps. -/
theorem settled_send {side : Side} {message : Message} {rest : Process Message Port Item Error α}
    (acts : code side = .send message rest) :
    ReachesInOrder blocks enter (settled pending stock heads code)
      (settled (update pending side.other (pending side.other ++ [message])) stock heads
        (update code side rest)) := by
  let sent : Duet Message Port Item Error α := { settled pending stock heads code with
    travelling := update (fun _ => []) side.other [message]
    code := update code side rest }
  have sends : Step enter (settled pending stock heads code) sent :=
    .send (settled pending stock heads code) side message rest acts
  have delivers : Step enter sent { sent with
      travelling := update sent.travelling side.other ([] ++ [])
      queue := update sent.queue side.other (sent.queue side.other ++ [message]) } :=
    .deliver sent side.other [] [] message (by simp [sent])
  simp only [sent, settled, List.append_nil, update_arrived] at delivers
  refine (settled_step sends).tail ⟨delivers, ordered_of_single (fun party => ?_) _⟩
  by_cases here : party = side.other
  · simp [sent, here]
  · simp [sent, here]

/-- An item is put on a port and arrives at once, in two steps. -/
theorem settled_signal {side : Side} {port : Port} {item : Item}
    {rest : Process Message Port Item Error α} (acts : code side = .signal port item rest) :
    ReachesInOrder blocks enter (settled pending stock heads code)
      (settled pending (update stock port (stock port ++ [item])) heads (update code side rest)) := by
  let put : Duet Message Port Item Error α := { settled pending stock heads code with
    shipping := update (fun _ => []) port [item]
    code := update code side rest }
  have puts : Step enter (settled pending stock heads code) put :=
    .signal (settled pending stock heads code) side port item rest acts
  have arrives : Step enter put { put with
      shipping := update put.shipping port []
      arrived := update put.arrived port (put.arrived port ++ [item]) } :=
    .arrive put port item [] (by simp [put])
  simp only [put, settled, update_arrived] at arrives
  exact (settled_step puts).tail ⟨arrives, ordered_of_single (fun _ => by simp [put, settled]) _⟩

/-- Both parties start their next pass, the leader first. Their loop states are added to what
they have gone through. -/
theorem settled_enter {results : Side → α} {bodies : Side → Process Message Port Item Error α}
    (starts : ∀ side, enter side (results side) = some (bodies side)) :
    ReachesInOrder blocks enter (settled pending stock heads fun side => .done (results side))
      (settled pending stock (fun side => heads side ++ [results side]) bodies) := by
  let waiting : Duet Message Port Item Error α :=
    settled pending stock heads fun side => .done (results side)
  let entered : Duet Message Port Item Error α := { waiting with
    code := update waiting.code .lead (bodies .lead)
    heads := update waiting.heads .lead (waiting.heads .lead ++ [results .lead]) }
  have leads : Step enter waiting entered :=
    .enter waiting .lead (results .lead) (bodies .lead) rfl (starts .lead)
  have follows := Step.enter entered .follow (results .follow) (bodies .follow) rfl (starts .follow)
  have codes : update entered.code .follow (bodies .follow) = bodies := by
    funext side
    cases side <;> rfl
  have histories : update entered.heads .follow (entered.heads .follow ++ [results .follow]) =
      fun side => heads side ++ [results side] := by
    funext side
    cases side <;> rfl
  rw [codes, histories] at follows
  exact (settled_step leads).tail
    ⟨follows, ordered_of_single (fun _ => by simp [entered, waiting, settled]) _⟩

/-- Where both parties have ended and everything has arrived, nothing can happen: no party has
an action in front of it or a pass to start. -/
theorem settled_stuck {results : Side → α} (ends : ∀ side, enter side (results side) = none)
    (next : Duet Message Port Item Error α) :
    ¬ Step enter (settled pending stock heads fun side => .done (results side)) next := by
  have code (side : Side) :
      (settled pending stock heads fun side => .done (results side) :
        Duet Message Port Item Error α).code side = .done (results side) := rfl
  intro moves
  cases moves with
  | send side message rest acts => cases (code side).symm.trans acts
  | deliver side before after message pending => simp [settled] at pending
  | receive side message others rest acts => cases (code side).symm.trans acts
  | signal side port item rest acts => cases (code side).symm.trans acts
  | arrive port item others pending => cases pending
  | await side port item others rest acts => cases (code side).symm.trans acts
  | enter side head body returned again =>
    cases (code side).symm.trans returned
    cases (ends side).symm.trans again

end Duet

/-- Who may speak: the party whose turn it is, or nobody while a message is on
its way to the party that will have the next turn. -/
inductive Talk (Message : Type) where
  | idle (turn : Side)
  | carrying (recipient : Side) (message : Message)

/-- The messages on the way to one party: the one that is carried, if it is for this party. -/
def Talk.toward : Talk Message → Side → List Message
  | .idle _, _ => []
  | .carrying recipient message, side => if side = recipient then [message] else []

@[simp] theorem Talk.toward_carrying (side : Side) (message : Message) :
    (Talk.carrying side message).toward side = [message] := if_pos rfl

/-- A party that sends in its turn puts its message on the way. -/
theorem Talk.toward_send (side other : Side) (message : Message) :
    update (Talk.idle side).toward other ((Talk.idle side).toward other ++ [message]) =
      (Talk.carrying other message).toward := by
  funext party
  by_cases same : party = other
  · simp [same, Talk.toward]
  · simp [same, Talk.toward]

/-- Once the message is taken nothing is on the way. -/
theorem Talk.toward_receive (side turn : Side) (message : Message) :
    update (Talk.carrying side message).toward side [] = (Talk.idle turn).toward := by
  funext party
  by_cases same : party = side
  · simp [same, Talk.toward]
  · simp [same, Talk.toward]

/-- The channel carries at most one message. -/
theorem Talk.toward_length (talk : Talk Message) :
    (talk.toward .lead).length + (talk.toward .follow).length ≤ 1 := by
  cases talk with
  | idle turn => simp [Talk.toward]
  | carrying recipient message => cases recipient <;> simp [Talk.toward]

/-- A message can only be on the way to a party while the channel carries it. -/
theorem Talk.toward_cons {talk : Talk Message} {side : Side} {message : Message} {others : List Message}
    (some : talk.toward side = message :: others) :
    talk = .carrying side message ∧ others = [] := by
  cases talk with
  | idle turn => simp [Talk.toward] at some
  | carrying recipient carried =>
    by_cases same : side = recipient
    · subst same
      simp only [Talk.toward, ↓reduceIte, List.cons.injEq] at some
      exact ⟨by rw [some.1], some.2.symm⟩
    · simp [Talk.toward, same] at some

/-- The messages and items of a state, wherever on their way they are: for each party those in
its queue and behind them those that travel, and for each port those that have arrived and
behind them those that are shipped. -/
structure Carries (state : Duet Message Port Item Error α) (pending : Side → List Message)
    (stock : Port → List Item) : Prop where
  messages : ∀ side, state.queue side ++ state.travelling side = pending side
  items : ∀ port, state.arrived port ++ state.shipping port = stock port

namespace Carries

variable {state : Duet Message Port Item Error α} {pending : Side → List Message}
variable {stock : Port → List Item}

/-- Sending puts the message behind those on the way, to the other party. -/
theorem send {side : Side} (spread : Carries state pending stock) (message : Message)
    (code : Side → Process Message Port Item Error α) :
    Carries { state with
      travelling := update state.travelling side (state.travelling side ++ [message])
      code := code } (update pending side (pending side ++ [message])) stock := by
  refine ⟨?_, spread.items⟩
  intro party
  by_cases same : party = side
  · subst same
    simp [← spread.messages party]
  · simpa [same] using spread.messages party

/-- A queued message is the oldest one on the way, as messages are queued behind those that are
there. -/
theorem receive {side : Side} {message : Message} {others : List Message}
    (spread : Carries state pending stock) (queued : state.queue side = message :: others)
    (code : Side → Process Message Port Item Error α) :
    Carries { state with queue := update state.queue side others, code := code }
      (update pending side (others ++ state.travelling side)) stock := by
  refine ⟨?_, spread.items⟩
  intro party
  by_cases same : party = side
  · subst same
    simp
  · simpa [same] using spread.messages party

/-- A message that equals those before it may be delivered first. What is on the way, taken
together, is the same afterwards, as equal messages cannot be told apart. -/
theorem deliver {side : Side} {before after : List Message} {message : Message}
    (spread : Carries state pending stock)
    (travels : state.travelling side = before ++ message :: after)
    (alike : ∀ earlier ∈ before, earlier = message) :
    Carries { state with
      travelling := update state.travelling side (before ++ after)
      queue := update state.queue side (state.queue side ++ [message]) } pending stock := by
  refine ⟨?_, spread.items⟩
  intro party
  by_cases same : party = side
  · subst same
    obtain repeated := List.eq_replicate_of_mem alike
    have swapped : List.replicate before.length message ++ message :: after =
        message :: (List.replicate before.length message ++ after) := by
      rw [List.append_cons, ← List.replicate_succ', List.replicate_succ, List.cons_append]
    have whole := spread.messages party
    rw [travels, repeated, swapped] at whole
    rw [repeated]
    simpa using whole
  · simpa [same] using spread.messages party

variable [DecidableEq Port]

/-- An item put on a port goes behind the items already there. -/
theorem signal (spread : Carries state pending stock) (port : Port) (item : Item)
    (code : Side → Process Message Port Item Error α) :
    Carries { state with
      shipping := update state.shipping port (state.shipping port ++ [item])
      code := code } pending (update stock port (stock port ++ [item])) := by
  refine ⟨spread.messages, ?_⟩
  intro place
  by_cases same : place = port
  · subst same
    simp [← spread.items place]
  · simpa [same] using spread.items place

/-- The oldest arrived item is the oldest item of the port. -/
theorem await (spread : Carries state pending stock) {port : Port} {item : Item}
    {others : List Item} (arrived : state.arrived port = item :: others)
    (code : Side → Process Message Port Item Error α) :
    Carries { state with arrived := update state.arrived port others, code := code } pending
      (update stock port (others ++ state.shipping port)) := by
  refine ⟨spread.messages, ?_⟩
  intro place
  by_cases same : place = port
  · subst same
    simp
  · simpa [same] using spread.items place

/-- An arrival only moves an item that is already on its way. Items keep their order on a
port. -/
theorem arrive (spread : Carries state pending stock) {port : Port} {item : Item}
    {others : List Item} (travels : state.shipping port = item :: others) :
    Carries { state with
      shipping := update state.shipping port others
      arrived := update state.arrived port (state.arrived port ++ [item]) } pending stock := by
  refine ⟨spread.messages, ?_⟩
  intro place
  by_cases same : place = port
  · subst same
    simp [← spread.items place, travels]
  · simpa [same] using spread.items place

end Carries

/-- At most one message is on the way, as the turn of the parties says. -/
abbrev Shows (state : Duet Message Port Item Error α) (talk : Talk Message)
    (stock : Port → List Item) : Prop :=
  Carries state talk.toward stock

namespace Shows

variable {state : Duet Message Port Item Error α} {talk : Talk Message}
variable {stock : Port → List Item}

/-- Sending puts the message on the way to the other party. -/
theorem send {side : Side} (spread : Shows state (.idle side) stock) (message : Message)
    (code : Side → Process Message Port Item Error α) :
    Shows { state with
      travelling := update state.travelling side.other (state.travelling side.other ++ [message])
      code := code } (.carrying side.other message) stock := by
  unfold Shows
  rw [← Talk.toward_send side]
  exact Carries.send spread message code

/-- Taking the message gives the turn to the party that took it. -/
theorem receive {side : Side} {message : Message} {others : List Message}
    (spread : Shows state (.carrying side message) stock)
    (ready : state.queue side = message :: others)
    (code : Side → Process Message Port Item Error α) :
    Shows { state with queue := update state.queue side others, code := code }
      (.idle side) stock := by
  have here := spread.messages side
  rw [ready, Talk.toward_carrying, List.cons_append, List.cons.injEq] at here
  have taken := Carries.receive spread ready code
  rwa [here.2, Talk.toward_receive] at taken

/-- A queued message is the only one on the way, so it is next in turn. -/
theorem queued (spread : Shows state talk stock) {side : Side} {message : Message}
    {others : List Message} (ready : state.queue side = message :: others) :
    talk = .carrying side message := by
  have here := spread.messages side
  rw [ready, List.cons_append] at here
  exact (Talk.toward_cons here.symm).1

/-- A delivery only moves the one message on the way. -/
theorem deliver (spread : Shows state talk stock) {side : Side} {before after : List Message}
    {message : Message} (travels : state.travelling side = before ++ message :: after) :
    Shows { state with
      travelling := update state.travelling side (before ++ after)
      queue := update state.queue side (state.queue side ++ [message]) } talk stock := by
  have few := talk.toward_length
  have here := congrArg List.length (spread.messages side)
  rw [travels, List.length_append, List.length_append, List.length_cons] at here
  have first : before = [] := by
    apply List.eq_nil_of_length_eq_zero
    cases side <;> omega
  exact Carries.deliver spread travels fun earlier member => by simp [first] at member

/-- At most one message is on the way in either direction. -/
theorem pending_le (spread : Shows state talk stock) : state.pending ≤ 1 := by
  have toLead := congrArg List.length (spread.messages .lead)
  have toFollow := congrArg List.length (spread.messages .follow)
  have bound := talk.toward_length
  rw [List.length_append] at toLead toFollow
  unfold Duet.pending
  omega

end Shows

end QChat
