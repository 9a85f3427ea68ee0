import Mathlib.Tactic.Convert
import QChat.Duet

/-!
# Lockstep

`Lockstep` is a judgement about a pair of processes. It describes one schedule in
which the parties take turns to speak: the right to send passes with each
message, so a second message is sent only after the first one has been taken.
Programs are proved to be in lockstep by following that single schedule.

The `after` lemmas show that the judgement survives any action either party can
take, whatever the schedule says comes first, and `InStep.run` extends this to
every run of the duet. The run rules follow: no error is raised, at most one
message is on the way, some step is possible until both parties have returned,
and the loop states of the two parties correspond.
-/

namespace QChat

open Function (update)

variable {Message Port Item Error α : Type}

/-- Every port has one party that puts items on it and one that takes them. A party may put
items on a port of its own, as where a request brings a pair to both. -/
structure Wiring (Port : Type) where
  writer : Port → Side
  reader : Port → Side

/-- Parties with different actions in front of them are different parties. This is how a proof
about one party's action tells that the schedule's next one is the other's. -/
theorem Side.apart {code : Side → Process Message Port Item Error α} {one two : Side}
    {first second : Process Message Port Item Error α}
    (actsOne : code one = first) (actsTwo : code two = second) (differ : first ≠ second) :
    one ≠ two := by
  rintro rfl
  exact differ (actsOne.symm.trans actsTwo)

variable [DecidableEq Port]

/-- The pair of processes can be run to the end in turns. Each constructor is
one action of one party at the front of such a schedule; at its end the leader
has the turn, no item is left on a port and the results satisfy `final`
together with the histories. -/
inductive Lockstep (wiring : Wiring Port)
    (enter : Side → α → Option (Process Message Port Item Error α))
    (final : (Side → List α) → (Side → α) → Prop) :
    Talk Message → (Port → List Item) → (Side → List α) →
      (Side → Process Message Port Item Error α) → Prop where
  | done (results : Side → α)
      {stock : Port → List Item} {heads : Side → List α}
      {code : Side → Process Message Port Item Error α}
      (ended : ∀ side, code side = .done (results side)) (empty : ∀ port, stock port = [])
      (holds : final heads results) :
      Lockstep wiring enter final (.idle .lead) stock heads code
  | send (side : Side) (message : Message) (rest : Process Message Port Item Error α)
      {stock : Port → List Item} {heads : Side → List α}
      {code : Side → Process Message Port Item Error α}
      (acts : code side = .send message rest)
      (next : Lockstep wiring enter final (.carrying side.other message) stock heads
        (update code side rest)) :
      Lockstep wiring enter final (.idle side) stock heads code
  | receive (side : Side) (message : Message)
      (rest : Message → Process Message Port Item Error α)
      {stock : Port → List Item} {heads : Side → List α}
      {code : Side → Process Message Port Item Error α}
      (acts : code side = .receive rest)
      (next : Lockstep wiring enter final (.idle side) stock heads
        (update code side (rest message))) :
      Lockstep wiring enter final (.carrying side message) stock heads code
  | signal (side : Side) (port : Port) (item : Item)
      (rest : Process Message Port Item Error α)
      {talk : Talk Message} {stock : Port → List Item} {heads : Side → List α}
      {code : Side → Process Message Port Item Error α}
      (writes : wiring.writer port = side) (acts : code side = .signal port item rest)
      (next : Lockstep wiring enter final talk (update stock port (stock port ++ [item])) heads
        (update code side rest)) :
      Lockstep wiring enter final talk stock heads code
  | await (side : Side) (port : Port) (item : Item) (others : List Item)
      (rest : Item → Process Message Port Item Error α)
      {talk : Talk Message} {stock : Port → List Item} {heads : Side → List α}
      {code : Side → Process Message Port Item Error α}
      (reads : wiring.reader port = side) (acts : code side = .await port rest)
      (ready : stock port = item :: others)
      (next : Lockstep wiring enter final talk (update stock port others) heads
        (update code side (rest item))) :
      Lockstep wiring enter final talk stock heads code
  | enter (side : Side) (head : α) (body : Process Message Port Item Error α)
      {talk : Talk Message} {stock : Port → List Item} {heads : Side → List α}
      {code : Side → Process Message Port Item Error α}
      (returned : code side = .done head) (again : enter side head = some body)
      (next : Lockstep wiring enter final talk stock
        (update heads side (heads side ++ [head])) (update code side body)) :
      Lockstep wiring enter final talk stock heads code

namespace Lockstep

variable {wiring : Wiring Port} {enter : Side → α → Option (Process Message Port Item Error α)}
variable {final : (Side → List α) → (Side → α) → Prop}
variable {talk : Talk Message} {stock : Port → List Item} {heads : Side → List α}
variable {code : Side → Process Message Port Item Error α}

/-- A party about to send has the turn, and sending is the next thing that may
happen: actions of the other party before it can be done after it. -/
theorem after_send (runs : Lockstep wiring enter final talk stock heads code) (side : Side)
    (message : Message) (rest : Process Message Port Item Error α)
    (acts : code side = .send message rest) :
    talk = .idle side ∧ Lockstep wiring enter final (.carrying side.other message) stock heads
      (update code side rest) := by
  induction runs with
  | done results ended empty holds => simp [ended] at acts
  | send sender sent continued sends next inductionHypothesis =>
    by_cases same : sender = side
    · subst same
      obtain ⟨rfl, rfl⟩ : message = sent ∧ rest = continued := by simpa [acts] using sends
      exact ⟨rfl, next⟩
    · have impossible := (inductionHypothesis (by simp [Ne.symm same, acts])).1
      cases impossible
  | receive receiver received continued takes next inductionHypothesis =>
    by_cases same : receiver = side
    · subst same
      simp [acts] at takes
    · have turn := (inductionHypothesis (by simp [Ne.symm same, acts])).1
      exact absurd (by simpa using turn) same
  | signal putter port item continued writes puts next inductionHypothesis =>
    have distinct : putter ≠ side := Side.apart puts acts (by simp)
    obtain ⟨turn, after⟩ := inductionHypothesis (by simp [distinct.symm, acts])
    refine ⟨turn, .signal putter port item continued writes (by simp [distinct, puts]) ?_⟩
    rwa [Function.update_comm distinct.symm]
  | await taker port item others continued reads takes ready next inductionHypothesis =>
    have distinct : taker ≠ side := Side.apart takes acts (by simp)
    obtain ⟨turn, after⟩ := inductionHypothesis (by simp [distinct.symm, acts])
    refine ⟨turn, .await taker port item others continued reads (by simp [distinct, takes])
      ready ?_⟩
    rwa [Function.update_comm distinct.symm]
  | enter enterer head body returned again next inductionHypothesis =>
    have distinct : enterer ≠ side := Side.apart returned acts (by simp)
    obtain ⟨turn, after⟩ := inductionHypothesis (by simp [distinct.symm, acts])
    refine ⟨turn, .enter enterer head body (by simp [distinct, returned]) again ?_⟩
    rwa [Function.update_comm distinct.symm]

/-- Taking the message on the way to a party gives that party the turn. -/
theorem after_receive (runs : Lockstep wiring enter final talk stock heads code) (side : Side)
    (message : Message) (rest : Message → Process Message Port Item Error α)
    (carried : talk = .carrying side message) (acts : code side = .receive rest) :
    Lockstep wiring enter final (.idle side) stock heads (update code side (rest message)) := by
  induction runs with
  | done results ended empty holds => cases carried
  | send sender sent continued sends next inductionHypothesis => cases carried
  | receive receiver received continued takes next inductionHypothesis =>
    obtain ⟨rfl, rfl⟩ : receiver = side ∧ received = message := by simpa using carried
    obtain rfl : rest = continued := by simpa [acts] using takes
    exact next
  | signal putter port item continued writes puts next inductionHypothesis =>
    have distinct : putter ≠ side := Side.apart puts acts (by simp)
    have after := inductionHypothesis carried (by simp [distinct.symm, acts])
    refine .signal putter port item continued writes (by simp [distinct, puts]) ?_
    rwa [Function.update_comm distinct.symm]
  | await taker port item others continued reads takes ready next inductionHypothesis =>
    have distinct : taker ≠ side := Side.apart takes acts (by simp)
    have after := inductionHypothesis carried (by simp [distinct.symm, acts])
    refine .await taker port item others continued reads (by simp [distinct, takes]) ready ?_
    rwa [Function.update_comm distinct.symm]
  | enter enterer head body returned again next inductionHypothesis =>
    have distinct : enterer ≠ side := Side.apart returned acts (by simp)
    have after := inductionHypothesis carried (by simp [distinct.symm, acts])
    refine .enter enterer head body (by simp [distinct, returned]) again ?_
    rwa [Function.update_comm distinct.symm]

/-- A party about to put an item on a port may do so at once: only it writes the
port, and the other party's taking from the front does not disturb the back. -/
theorem after_signal (runs : Lockstep wiring enter final talk stock heads code) (side : Side)
    (port : Port) (item : Item) (rest : Process Message Port Item Error α)
    (acts : code side = .signal port item rest) :
    wiring.writer port = side ∧
      Lockstep wiring enter final talk (update stock port (stock port ++ [item])) heads
        (update code side rest) := by
  induction runs with
  | done results ended empty holds => simp [ended] at acts
  | send sender sent continued sends next inductionHypothesis =>
    have distinct : sender ≠ side := Side.apart sends acts (by simp)
    obtain ⟨writes, after⟩ := inductionHypothesis (by simp [distinct.symm, acts])
    refine ⟨writes, .send sender sent continued (by simp [distinct, sends]) ?_⟩
    rwa [Function.update_comm distinct.symm]
  | receive receiver received continued takes next inductionHypothesis =>
    have distinct : receiver ≠ side := Side.apart takes acts (by simp)
    obtain ⟨writes, after⟩ := inductionHypothesis (by simp [distinct.symm, acts])
    refine ⟨writes, .receive receiver received continued (by simp [distinct, takes]) ?_⟩
    rwa [Function.update_comm distinct.symm]
  | signal putter place put continued writes puts next inductionHypothesis =>
    by_cases same : putter = side
    · subst same
      obtain ⟨rfl, rfl, rfl⟩ : port = place ∧ item = put ∧ rest = continued := by
        simpa [acts] using puts
      exact ⟨writes, next⟩
    · obtain ⟨writesHere, after⟩ := inductionHypothesis (by simp [Ne.symm same, acts])
      have elsewhere : port ≠ place := by
        rintro rfl
        exact same (writes.symm.trans writesHere)
      refine ⟨writesHere, .signal putter place put continued writes (by simp [same, puts]) ?_⟩
      rw [Function.update_of_ne elsewhere] at after
      rwa [Function.update_comm (Ne.symm same), Function.update_of_ne elsewhere.symm,
        Function.update_comm elsewhere]
  | await taker place taken others continued reads takes ready next inductionHypothesis =>
    have distinct : taker ≠ side := Side.apart takes acts (by simp)
    obtain ⟨writes, after⟩ := inductionHypothesis (by simp [distinct.symm, acts])
    by_cases same : place = port
    · subst same
      refine ⟨writes, .await taker place taken (others ++ [item]) continued reads
        (by simp [distinct, takes]) (by simp [ready]) ?_⟩
      rw [Function.update_comm distinct.symm]
      simpa using after
    · refine ⟨writes, .await taker place taken others continued reads
        (by simp [distinct, takes]) (by simp [same, ready]) ?_⟩
      rw [Function.update_of_ne (Ne.symm same)] at after
      rwa [Function.update_comm distinct.symm, Function.update_comm (Ne.symm same)]
  | enter enterer head body returned again next inductionHypothesis =>
    have distinct : enterer ≠ side := Side.apart returned acts (by simp)
    obtain ⟨writes, after⟩ := inductionHypothesis (by simp [distinct.symm, acts])
    refine ⟨writes, .enter enterer head body (by simp [distinct, returned]) again ?_⟩
    rwa [Function.update_comm distinct.symm]

/-- A party that takes from a port is its only reader. -/
theorem reads_port (runs : Lockstep wiring enter final talk stock heads code) (side : Side)
    (port : Port) (rest : Item → Process Message Port Item Error α)
    (acts : code side = .await port rest) : wiring.reader port = side := by
  induction runs with
  | done results ended empty holds => simp [ended] at acts
  | send sender sent continued sends next inductionHypothesis =>
    have distinct : sender ≠ side := Side.apart sends acts (by simp)
    exact inductionHypothesis (by simp [distinct.symm, acts])
  | receive receiver received continued takes next inductionHypothesis =>
    have distinct : receiver ≠ side := Side.apart takes acts (by simp)
    exact inductionHypothesis (by simp [distinct.symm, acts])
  | signal putter place put continued writes puts next inductionHypothesis =>
    have distinct : putter ≠ side := Side.apart puts acts (by simp)
    exact inductionHypothesis (by simp [distinct.symm, acts])
  | await taker place taken others continued reads takes ready next inductionHypothesis =>
    by_cases same : taker = side
    · subst same
      obtain ⟨rfl, rfl⟩ : port = place ∧ rest = continued := by simpa [acts] using takes
      exact reads
    · exact inductionHypothesis (by simp [Ne.symm same, acts])
  | enter enterer head body returned again next inductionHypothesis =>
    have distinct : enterer ≠ side := Side.apart returned acts (by simp)
    exact inductionHypothesis (by simp [distinct.symm, acts])

/-- A party may take the oldest item of its port as soon as there is one: items
put later go behind it, and nobody else takes from the port. -/
theorem after_await (runs : Lockstep wiring enter final talk stock heads code) (side : Side)
    (port : Port) (item : Item) (others : List Item)
    (rest : Item → Process Message Port Item Error α)
    (acts : code side = .await port rest) (ready : stock port = item :: others) :
    Lockstep wiring enter final talk (update stock port others) heads
      (update code side (rest item)) := by
  have reader : wiring.reader port = side := runs.reads_port side port rest acts
  induction runs generalizing others with
  | done results ended empty holds => simp [ended] at acts
  | send sender sent continued sends next inductionHypothesis =>
    have distinct : sender ≠ side := Side.apart sends acts (by simp)
    have after := inductionHypothesis others (by simp [distinct.symm, acts]) ready
    refine .send sender sent continued (by simp [distinct, sends]) ?_
    rwa [Function.update_comm distinct.symm]
  | receive receiver received continued takes next inductionHypothesis =>
    have distinct : receiver ≠ side := Side.apart takes acts (by simp)
    have after := inductionHypothesis others (by simp [distinct.symm, acts]) ready
    refine .receive receiver received continued (by simp [distinct, takes]) ?_
    rwa [Function.update_comm distinct.symm]
  | signal putter place put continued writes puts next inductionHypothesis =>
    have distinct : putter ≠ side := Side.apart puts acts (by simp)
    by_cases same : place = port
    · subst same
      have after := inductionHypothesis (others ++ [put]) (by simp [distinct.symm, acts])
        (by simp [ready])
      refine .signal putter place put continued writes (by simp [distinct, puts]) ?_
      rw [Function.update_comm distinct.symm]
      simpa using after
    · have after := inductionHypothesis others (by simp [distinct.symm, acts])
        (by simp [Ne.symm same, ready])
      refine .signal putter place put continued writes (by simp [distinct, puts]) ?_
      rwa [Function.update_comm distinct.symm, Function.update_of_ne same,
        Function.update_comm (Ne.symm same)]
  | await taker place taken left continued reads takes available next inductionHypothesis =>
    by_cases same : taker = side
    · subst same
      obtain ⟨rfl, rfl⟩ : port = place ∧ rest = continued := by simpa [acts] using takes
      obtain ⟨rfl, rfl⟩ : item = taken ∧ others = left := by simpa [ready] using available
      exact next
    · have elsewhere : place ≠ port := by
        rintro rfl
        exact same (reads.symm.trans reader)
      have after := inductionHypothesis others (by simp [Ne.symm same, acts])
        (by simp [elsewhere.symm, ready])
      refine .await taker place taken left continued reads (by simp [same, takes])
        (by simp [elsewhere, available]) ?_
      rwa [Function.update_comm (Ne.symm same), Function.update_comm elsewhere.symm]
  | enter enterer head body returned again next inductionHypothesis =>
    have distinct : enterer ≠ side := Side.apart returned acts (by simp)
    have after := inductionHypothesis others (by simp [distinct.symm, acts]) ready
    refine .enter enterer head body (by simp [distinct, returned]) again ?_
    rwa [Function.update_comm distinct.symm]

/-- Every joint loop state accepted by `final` is either the end for both
parties or the start of another pass that ends in such a state. -/
def Closed (wiring : Wiring Port)
    (enter : Side → α → Option (Process Message Port Item Error α))
    (final : (Side → List α) → (Side → α) → Prop) : Prop :=
  ∀ heads results, final heads results →
    (∀ side, enter side (results side) = none) ∨
    ∃ bodies, (∀ side, enter side (results side) = some (bodies side)) ∧
      Lockstep wiring enter final (.idle .lead) (fun _ => [])
        (fun side => heads side ++ [results side]) bodies

/-- A party at a loop state may start its next pass before the other party does. -/
theorem after_enter (closed : Closed wiring enter final)
    (runs : Lockstep wiring enter final talk stock heads code) (side : Side)
    (head : α) (body : Process Message Port Item Error α)
    (acts : code side = .done head) (again : enter side head = some body) :
    Lockstep wiring enter final talk stock (update heads side (heads side ++ [head]))
      (update code side body) := by
  induction runs with
  | @done results stock heads code ended empty holds =>
    obtain rfl : results side = head := by simpa [ended] using acts
    obtain stop | ⟨bodies, starts, next⟩ := closed heads results holds
    · simp [stop] at again
    obtain rfl : bodies side = body := by simpa [starts] using again
    obtain rfl : stock = fun _ => [] := funext empty
    refine .enter side.other (results side.other) (bodies side.other) (by simp [ended])
      (starts side.other) ?_
    convert next using 1
    · funext party
      cases side <;> cases party <;> simp
    · funext party
      cases side <;> cases party <;> simp
  | send sender sent continued sends next inductionHypothesis =>
    have distinct : sender ≠ side := Side.apart sends acts (by simp)
    have after := inductionHypothesis (by simp [distinct.symm, acts])
    refine .send sender sent continued (by simp [distinct, sends]) ?_
    rwa [Function.update_comm distinct.symm]
  | receive receiver received continued takes next inductionHypothesis =>
    have distinct : receiver ≠ side := Side.apart takes acts (by simp)
    have after := inductionHypothesis (by simp [distinct.symm, acts])
    refine .receive receiver received continued (by simp [distinct, takes]) ?_
    rwa [Function.update_comm distinct.symm]
  | signal putter port item continued writes puts next inductionHypothesis =>
    have distinct : putter ≠ side := Side.apart puts acts (by simp)
    have after := inductionHypothesis (by simp [distinct.symm, acts])
    refine .signal putter port item continued writes (by simp [distinct, puts]) ?_
    rwa [Function.update_comm distinct.symm]
  | await taker port item others continued reads takes ready next inductionHypothesis =>
    have distinct : taker ≠ side := Side.apart takes acts (by simp)
    have after := inductionHypothesis (by simp [distinct.symm, acts])
    refine .await taker port item others continued reads (by simp [distinct, takes]) ready ?_
    rwa [Function.update_comm distinct.symm]
  | enter enterer start started returned restarts next inductionHypothesis =>
    by_cases same : enterer = side
    · subst same
      obtain rfl : head = start := by simpa [acts] using returned
      obtain rfl : body = started := by simpa [again] using restarts
      exact next
    · have after := inductionHypothesis (by simp [Ne.symm same, acts])
      refine .enter enterer start started (by simp [same, returned]) restarts ?_
      rw [Function.update_of_ne (Ne.symm same)] at after
      rwa [Function.update_comm (Ne.symm same), Function.update_of_ne same,
        Function.update_comm (Ne.symm same)]

/-- The invariant of a duet whose parties are in lockstep: what is on the way is what the
schedule says, wherever it is, and from here the two programs are in lockstep again. -/
def InStep (wiring : Wiring Port)
    (enter : Side → α → Option (Process Message Port Item Error α))
    (final : (Side → List α) → (Side → α) → Prop)
    (state : Duet Message Port Item Error α) : Prop :=
  ∃ talk stock, Shows state talk stock ∧
    Lockstep wiring enter final talk stock state.heads state.code

/-- The initial state is in lockstep when the two programs are. -/
theorem start_inStep (programs : Side → Process Message Port Item Error α)
    (runs : Lockstep wiring enter final (.idle .lead) (fun _ => []) (fun _ => []) programs) :
    InStep wiring enter final (Duet.start programs) :=
  ⟨.idle .lead, fun _ => [], ⟨fun _ => rfl, fun _ => rfl⟩, runs⟩

/-- Each step of either party and of the channel keeps the parties in lockstep.
The party's own action is moved to the front of the schedule by the `after`
lemmas; deliveries and arrivals only move what is already on the way. -/
theorem InStep.step (closed : Closed wiring enter final)
    {state next : Duet Message Port Item Error α} (before : InStep wiring enter final state)
    (moves : Duet.Step enter state next) : InStep wiring enter final next := by
  obtain ⟨talk, stock, spread, runs⟩ := before
  cases moves with
  | send side message rest acts =>
    obtain ⟨rfl, after⟩ := runs.after_send side message rest acts
    exact ⟨_, stock, spread.send message _, after⟩
  | deliver side earlier later message pending =>
    exact ⟨talk, stock, spread.deliver pending, runs⟩
  | receive side message others rest acts ready =>
    obtain rfl := spread.queued ready
    exact ⟨_, stock, spread.receive ready _, runs.after_receive side message rest rfl acts⟩
  | signal side port item rest acts =>
    obtain ⟨-, after⟩ := runs.after_signal side port item rest acts
    exact ⟨talk, _, spread.signal port item _, after⟩
  | arrive port item others pending =>
    exact ⟨talk, stock, spread.arrive pending, runs⟩
  | await side port item others rest acts ready =>
    have here := spread.items port
    rw [ready, List.cons_append] at here
    exact ⟨talk, _, spread.await ready _,
      runs.after_await side port item _ rest acts here.symm⟩
  | enter side head body returned again =>
    exact ⟨talk, stock, ⟨spread.messages, spread.items⟩,
      runs.after_enter closed side head body returned again⟩

/-- Lockstep is an invariant of every run, by induction from the step lemma. From here on
nothing is said of single steps. -/
theorem InStep.run (closed : Closed wiring enter final)
    {state later : Duet Message Port Item Error α} (before : InStep wiring enter final state)
    (reached : Duet.Reaches enter state later) : InStep wiring enter final later := by
  induction reached with
  | refl => exact before
  | tail _ moves inductionHypothesis => exact inductionHypothesis.step closed moves

/-- No party in lockstep has raised an error. -/
theorem not_raised (runs : Lockstep wiring enter final talk stock heads code) (side : Side)
    (error : Error) : code side ≠ .raised error := by
  intro failed
  induction runs with
  | done results ended empty holds => simp [ended] at failed
  | send sender sent continued sends next inductionHypothesis =>
    have distinct : side ≠ sender := Side.apart failed sends (by simp)
    exact inductionHypothesis (by simp [distinct, failed])
  | receive receiver received continued takes next inductionHypothesis =>
    have distinct : side ≠ receiver := Side.apart failed takes (by simp)
    exact inductionHypothesis (by simp [distinct, failed])
  | signal putter port item continued writes puts next inductionHypothesis =>
    have distinct : side ≠ putter := Side.apart failed puts (by simp)
    exact inductionHypothesis (by simp [distinct, failed])
  | await taker port item others continued reads takes ready next inductionHypothesis =>
    have distinct : side ≠ taker := Side.apart failed takes (by simp)
    exact inductionHypothesis (by simp [distinct, failed])
  | enter enterer head body returned again next inductionHypothesis =>
    have distinct : side ≠ enterer := Side.apart failed returned (by simp)
    exact inductionHypothesis (by simp [distinct, failed])

/-- Unless both parties have returned a final result, some step is possible. What the schedule
puts first can be done, or a message or an item can be brought nearer for it. -/
theorem InStep.progress {state : Duet Message Port Item Error α}
    (closed : Closed wiring enter final) (inStep : InStep wiring enter final state) :
    (∀ side, ∃ result, state.Returned enter side result) ∨ ∃ next, Duet.Step enter state next := by
  obtain ⟨talk, stock, spread, runs⟩ := inStep
  cases runs with
  | done results ended empty holds =>
    obtain stop | ⟨bodies, starts, -⟩ := closed state.heads results holds
    · exact .inl fun side => ⟨results side, ended side, stop side⟩
    · exact .inr ⟨_, .enter state .lead (results .lead) (bodies .lead) (ended .lead)
        (starts .lead)⟩
  | send side message rest acts next => exact .inr ⟨_, .send state side message rest acts⟩
  | receive side message rest acts next =>
    have here := spread.messages side
    simp only [Talk.toward, ↓reduceIte] at here
    cases queued : state.queue side with
    | cons head tail => exact .inr ⟨_, .receive state side head tail rest acts queued⟩
    | nil =>
      rw [queued, List.nil_append] at here
      exact .inr ⟨_, .deliver state side [] [] message here⟩
  | signal side port item rest writes acts next =>
    exact .inr ⟨_, .signal state side port item rest acts⟩
  | await side port item others rest reads acts ready next =>
    have here := spread.items port
    cases present : state.arrived port with
    | cons head tail => exact .inr ⟨_, .await state side port head tail rest acts present⟩
    | nil =>
      rw [present, List.nil_append, ready] at here
      exact .inr ⟨_, .arrive state port item others here⟩
  | enter side head body returned again next =>
    exact .inr ⟨_, .enter state side head body returned again⟩

/-- The schedule ends in a joint result that `final` accepts; until then the
histories only grow. -/
theorem ends (runs : Lockstep wiring enter final talk stock heads code) :
    ∃ (after : Side → List α) (results : Side → α), final after results ∧
      ∀ side, heads side <+: after side := by
  induction runs with
  | done results ended empty holds =>
    exact ⟨_, results, holds, fun side => List.prefix_rfl⟩
  | send sender sent continued sends next inductionHypothesis => exact inductionHypothesis
  | receive receiver received continued takes next inductionHypothesis =>
    exact inductionHypothesis
  | signal putter port item continued writes puts next inductionHypothesis =>
    exact inductionHypothesis
  | await taker port item others continued reads takes ready next inductionHypothesis =>
    exact inductionHypothesis
  | @enter enterer head body talk stock heads code returned again next inductionHypothesis =>
    obtain ⟨after, results, holds, grows⟩ := inductionHypothesis
    refine ⟨after, results, holds, fun side => ?_⟩
    have grown := grows side
    by_cases same : side = enterer
    · subst same
      rw [Function.update_self] at grown
      exact (List.prefix_append _ _).trans grown
    · rwa [Function.update_of_ne same] at grown

/-- A final result of the leader is only possible while nothing is on the way
and the turn is the leader's: a turn of the follower could never come back. -/
theorem lead_returned (runs : Lockstep wiring enter final talk stock heads code)
    (result : α) (returned : code .lead = .done result) (stops : enter .lead result = none) :
    talk = .idle .lead := by
  induction runs with
  | done results ended empty holds => rfl
  | send sender sent continued sends next inductionHypothesis =>
    have distinct : .lead ≠ sender := Side.apart returned sends (by simp)
    have impossible := inductionHypothesis (by simp [distinct, returned])
    cases impossible
  | receive receiver received continued takes next inductionHypothesis =>
    have distinct : .lead ≠ receiver := Side.apart returned takes (by simp)
    have turn := inductionHypothesis (by simp [distinct, returned])
    simp [distinct.symm] at turn
  | signal putter port item continued writes puts next inductionHypothesis =>
    have distinct : .lead ≠ putter := Side.apart returned puts (by simp)
    exact inductionHypothesis (by simp [distinct, returned])
  | await taker port item others continued reads takes ready next inductionHypothesis =>
    have distinct : .lead ≠ taker := Side.apart returned takes (by simp)
    exact inductionHypothesis (by simp [distinct, returned])
  | enter enterer head body started again next inductionHypothesis =>
    have distinct : .lead ≠ enterer := by
      rintro rfl
      simp_all
    exact inductionHypothesis (by simp [distinct, returned])

/-- After a final result of the follower the leader may still have the last
message to take, and has the turn from then on. -/
theorem follow_returned (runs : Lockstep wiring enter final talk stock heads code)
    (result : α) (returned : code .follow = .done result) (stops : enter .follow result = none) :
    talk = .idle .lead ∨ ∃ message, talk = .carrying .lead message := by
  induction runs with
  | done results ended empty holds => exact .inl rfl
  | send sender sent continued sends next inductionHypothesis =>
    have distinct : .follow ≠ sender := Side.apart returned sends (by simp)
    obtain rfl : sender = .lead := Side.eq_other distinct.symm
    obtain impossible | ⟨message, impossible⟩ :=
      inductionHypothesis (by simp [returned]) <;> cases impossible
  | receive receiver received continued takes next inductionHypothesis =>
    have distinct : .follow ≠ receiver := Side.apart returned takes (by simp)
    obtain rfl : receiver = .lead := Side.eq_other distinct.symm
    exact .inr ⟨received, rfl⟩
  | signal putter port item continued writes puts next inductionHypothesis =>
    have distinct : .follow ≠ putter := Side.apart returned puts (by simp)
    exact inductionHypothesis (by simp [distinct, returned])
  | await taker port item others continued reads takes ready next inductionHypothesis =>
    have distinct : .follow ≠ taker := Side.apart returned takes (by simp)
    exact inductionHypothesis (by simp [distinct, returned])
  | enter enterer head body started again next inductionHypothesis =>
    have distinct : .follow ≠ enterer := by
      rintro rfl
      simp_all
    exact inductionHypothesis (by simp [distinct, returned])

/-- After the follower's final result the leader cannot be about to speak. -/
theorem lead_silent (runs : Lockstep wiring enter final talk stock heads code)
    (result : α) (returned : code .follow = .done result) (stops : enter .follow result = none)
    (speaks : (code .lead).speaksFirst) : False := by
  induction runs with
  | done results ended empty holds => simp [ended, Process.speaksFirst] at speaks
  | @send sender sent stock heads code continued sends next inductionHypothesis =>
    have distinct : .follow ≠ sender := Side.apart returned sends (by simp)
    obtain rfl : sender = .lead := Side.eq_other distinct.symm
    obtain impossible | ⟨message, impossible⟩ :=
      next.follow_returned result (by simp [returned]) stops <;> cases impossible
  | receive receiver received continued takes next inductionHypothesis =>
    have distinct : .follow ≠ receiver := Side.apart returned takes (by simp)
    obtain rfl : receiver = .lead := Side.eq_other distinct.symm
    simp [takes, Process.speaksFirst] at speaks
  | signal putter port item continued writes puts next inductionHypothesis =>
    have distinct : .follow ≠ putter := Side.apart returned puts (by simp)
    obtain rfl : putter = .lead := Side.eq_other distinct.symm
    rw [puts] at speaks
    exact inductionHypothesis (by simp [returned]) (by simpa [Process.speaksFirst] using speaks)
  | await taker port item others continued reads takes ready next inductionHypothesis =>
    have distinct : .follow ≠ taker := Side.apart returned takes (by simp)
    obtain rfl : taker = .lead := Side.eq_other distinct.symm
    rw [takes] at speaks
    exact inductionHypothesis (by simp [returned]) (by simpa [Process.speaksFirst] using speaks item)
  | enter enterer head body started again next inductionHypothesis =>
    have distinct : .follow ≠ enterer := by
      rintro rfl
      simp_all
    obtain rfl : enterer = .lead := Side.eq_other distinct.symm
    simp [started, Process.speaksFirst] at speaks

/-- After the leader's final result the follower cannot be about to listen. -/
theorem follow_silent (runs : Lockstep wiring enter final talk stock heads code)
    (result : α) (returned : code .lead = .done result) (stops : enter .lead result = none)
    (listens : (code .follow).listensFirst) : False := by
  induction runs with
  | done results ended empty holds => simp [ended, Process.listensFirst] at listens
  | send sender sent continued sends next inductionHypothesis =>
    have distinct : .lead ≠ sender := Side.apart returned sends (by simp)
    obtain rfl : sender = .follow := Side.eq_other distinct.symm
    simp [sends, Process.listensFirst] at listens
  | receive receiver received continued takes next inductionHypothesis =>
    have distinct : .lead ≠ receiver := Side.apart returned takes (by simp)
    obtain rfl : receiver = .follow := Side.eq_other distinct.symm
    have turn := next.lead_returned result (by simp [returned]) stops
    cases turn
  | signal putter port item continued writes puts next inductionHypothesis =>
    have distinct : .lead ≠ putter := Side.apart returned puts (by simp)
    obtain rfl : putter = .follow := Side.eq_other distinct.symm
    rw [puts] at listens
    exact inductionHypothesis (by simp [returned]) (by simpa [Process.listensFirst] using listens)
  | await taker port item others continued reads takes ready next inductionHypothesis =>
    have distinct : .lead ≠ taker := Side.apart returned takes (by simp)
    obtain rfl : taker = .follow := Side.eq_other distinct.symm
    rw [takes] at listens
    exact inductionHypothesis (by simp [returned]) (by simpa [Process.listensFirst] using listens item)
  | enter enterer head body started again next inductionHypothesis =>
    have distinct : .lead ≠ enterer := by
      rintro rfl
      simp_all
    obtain rfl : enterer = .follow := Side.eq_other distinct.symm
    simp [started, Process.listensFirst] at listens

/-- Every pass that occurs in an accepted history begins with a message from
the leader to the follower. -/
def Opens (enter : Side → α → Option (Process Message Port Item Error α))
    (final : (Side → List α) → (Side → α) → Prop) : Prop :=
  ∀ heads results, final heads results →
    (∀ head ∈ heads .lead, ∀ body, enter .lead head = some body → body.speaksFirst) ∧
      ∀ head ∈ heads .follow, ∀ body, enter .follow head = some body → body.listensFirst

/-- Once a party has returned a final result neither party starts another pass:
the histories are complete and the joint result agrees with the returned one. -/
theorem last_pass (opens : Opens enter final)
    (runs : Lockstep wiring enter final talk stock heads code) (side : Side)
    (result : α) (returned : code side = .done result) (stops : enter side result = none) :
    ∃ results, final heads results ∧ results side = result := by
  induction runs with
  | done results ended empty holds =>
    exact ⟨results, holds, by simpa [ended] using returned⟩
  | send sender sent continued sends next inductionHypothesis =>
    have distinct : side ≠ sender := Side.apart returned sends (by simp)
    exact inductionHypothesis (by simp [distinct, returned])
  | receive receiver received continued takes next inductionHypothesis =>
    have distinct : side ≠ receiver := Side.apart returned takes (by simp)
    exact inductionHypothesis (by simp [distinct, returned])
  | signal putter port item continued writes puts next inductionHypothesis =>
    have distinct : side ≠ putter := Side.apart returned puts (by simp)
    exact inductionHypothesis (by simp [distinct, returned])
  | await taker port item others continued reads takes ready next inductionHypothesis =>
    have distinct : side ≠ taker := Side.apart returned takes (by simp)
    exact inductionHypothesis (by simp [distinct, returned])
  | enter enterer head body started again next inductionHypothesis =>
    have distinct : side ≠ enterer := by
      rintro rfl
      simp_all
    exfalso
    obtain ⟨after, results, holds, grows⟩ := next.ends
    have entered : head ∈ after enterer := (grows enterer).subset (by simp)
    cases side with
    | lead =>
      obtain rfl : enterer = .follow := Side.eq_other distinct.symm
      exact next.follow_silent result (by simp [returned]) stops
        (by simpa using (opens after results holds).2 head entered body again)
    | follow =>
      obtain rfl : enterer = .lead := Side.eq_other distinct.symm
      exact next.lead_silent result (by simp [returned]) stops
        (by simpa using (opens after results holds).1 head entered body again)

end Lockstep

end QChat
