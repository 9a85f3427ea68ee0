import QChat.Lockstep

/-!
# Eager schedules

`Scheduled` is a judgement about a pair of processes. Like `Lockstep` it describes
one schedule, but a party may send again before its last message has been taken.
The schedule is eager: a party takes a message only when the other party can send
no further one before it takes a message itself. Along such a schedule a queue is
as full as it can be in any run, and the messages that are pending together are
equal or may not overtake each other.

Programs are proved to have such a schedule by following it. The `after` lemmas
move any action either party can take to its front; the run rules say what holds
in every state that any order of steps reaches, whatever order the deliveries of
equal messages have.
-/

namespace QChat

open Function (update)

variable {Message Port Item Error α β : Type}

/-- What does not change while a pair of programs runs: who uses which port, which messages keep
their order, and how the parties may fail. -/
structure Terms (Message Port Item Error : Type) where
  wiring : Wiring Port
  /-- The second message is not delivered while the first is on its way. -/
  blocks : Message → Message → Prop
  /-- Nobody takes from a port before the item is there. -/
  prompt : Prop
  /-- The errors with which both parties may end. -/
  fails : (Side → Error) → Prop

/-- Messages of one sender that can be delivered in one order only: of any two, either they are
equal or the second is blocked by the first. -/
def Settled (blocks : Message → Message → Prop) (messages : List Message) : Prop :=
  messages.Pairwise fun earlier later => earlier = later ∨ blocks earlier later

/-- The party takes a message before it sends its next one, or returns a result
after which it will. -/
def Process.calm (idle : α → Prop) : Process Message Port Item Error α → Prop
  | .done result => idle result
  | .send _ _ => False
  | .signal _ _ rest => rest.calm idle
  | .await _ rest => ∀ item, (rest item).calm idle
  | .receive _ | .raised _ => True

/-- A calm part stays calm when calm parts follow it. -/
theorem Process.calm_bind {idle : α → Prop} {resting : β → Prop}
    (process : Process Message Port Item Error α) (next : α → Process Message Port Item Error β)
    (calm : process.calm idle) (continues : ∀ result, idle result → (next result).calm resting) :
    (process >>= next).calm resting := by
  induction process with
  | done result => exact continues result calm
  | raised error => trivial
  | send message rest inductionHypothesis => exact False.elim calm
  | receive rest inductionHypothesis => trivial
  | signal port item rest inductionHypothesis => exact inductionHypothesis calm
  | await port rest inductionHypothesis =>
    exact fun item => inductionHypothesis item (calm item)

/-- The loop two parties re-enter, and what is known at its passes. Whoever proves a schedule
for a pass may use it, and has to show it for the next. -/
structure Loop (Message Port Item Error α : Type) where
  /-- The loop body for a returned loop state, `none` for a final result. -/
  enter : Side → α → Option (Process Message Port Item Error α)
  /-- What a party that takes from a port after these passes may find there. -/
  ready : Side → List α → Port → Item → Prop
  /-- The results after which a party sends nothing before it takes a message. -/
  idle : Side → α → Prop
  /-- The histories and results with which a pass may end on both sides. -/
  final : (Side → List α) → (Side → α) → Prop
  calm : ∀ side head body, idle side head → enter side head = some body →
    body.calm (idle side)

/-- The party cannot act: it waits for a message and none is pending. So what happens at its
ports now comes before its next action. -/
def Stuck (pending : List Message) (process : Process Message Port Item Error α) : Prop :=
  pending = [] ∧ ∃ rest, process = .receive rest

variable [DecidableEq Port]

/-- The pair of processes can be run to the end by an eager schedule. Each
constructor is one action of one party at its front. At the end nothing is
pending, and either the results satisfy `final` or the errors are expected. -/
inductive Scheduled (terms : Terms Message Port Item Error)
    (loop : Loop Message Port Item Error α) :
    (Side → List Message) → (Port → List Item) → (Side → List α) →
      (Side → Process Message Port Item Error α) → Prop where
  | done (results : Side → α)
      {pending : Side → List Message} {stock : Port → List Item} {heads : Side → List α}
      {code : Side → Process Message Port Item Error α}
      (ended : ∀ side, code side = .done (results side)) (quiet : ∀ side, pending side = [])
      (empty : ∀ port, stock port = []) (holds : loop.final heads results) :
      Scheduled terms loop pending stock heads code
  | raised (errors : Side → Error)
      {pending : Side → List Message} {stock : Port → List Item} {heads : Side → List α}
      {code : Side → Process Message Port Item Error α}
      (failed : ∀ side, code side = .raised (errors side)) (quiet : ∀ side, pending side = [])
      (expected : terms.fails errors) :
      Scheduled terms loop pending stock heads code
  | send (side : Side) (message : Message) (rest : Process Message Port Item Error α)
      {pending : Side → List Message} {stock : Port → List Item} {heads : Side → List α}
      {code : Side → Process Message Port Item Error α}
      (acts : code side = .send message rest)
      (next : Scheduled terms loop
        (update pending side.other (pending side.other ++ [message])) stock heads
        (update code side rest)) :
      Scheduled terms loop pending stock heads code
  | receive (side : Side) (message : Message) (others : List Message)
      (rest : Message → Process Message Port Item Error α)
      {pending : Side → List Message} {stock : Port → List Item} {heads : Side → List α}
      {code : Side → Process Message Port Item Error α}
      (acts : code side = .receive rest) (present : pending side = message :: others)
      (alone : pending side.other = []) (settled : Settled terms.blocks (pending side))
      (calm : (code side.other).calm (loop.idle side.other))
      (next : Scheduled terms loop (update pending side others) stock heads
        (update code side (rest message))) :
      Scheduled terms loop pending stock heads code
  | signal (side : Side) (port : Port) (item : Item)
      (rest : Process Message Port Item Error α)
      {pending : Side → List Message} {stock : Port → List Item} {heads : Side → List α}
      {code : Side → Process Message Port Item Error α}
      (writes : terms.wiring.writer port = side) (acts : code side = .signal port item rest)
      (waits : terms.prompt → Stuck (pending side.other) (code side.other))
      (next : Scheduled terms loop pending
        (update stock port (stock port ++ [item])) heads (update code side rest)) :
      Scheduled terms loop pending stock heads code
  | await (side : Side) (port : Port) (item : Item) (others : List Item)
      (rest : Item → Process Message Port Item Error α)
      {pending : Side → List Message} {stock : Port → List Item} {heads : Side → List α}
      {code : Side → Process Message Port Item Error α}
      (reads : terms.wiring.reader port = side) (acts : code side = .await port rest)
      (present : stock port = item :: others) (suits : loop.ready side (heads side) port item)
      (next : Scheduled terms loop pending (update stock port others) heads
        (update code side (rest item))) :
      Scheduled terms loop pending stock heads code
  | enter (side : Side) (head : α) (body : Process Message Port Item Error α)
      {pending : Side → List Message} {stock : Port → List Item} {heads : Side → List α}
      {code : Side → Process Message Port Item Error α}
      (returned : code side = .done head) (again : loop.enter side head = some body)
      (next : Scheduled terms loop pending stock
        (update heads side (heads side ++ [head])) (update code side body)) :
      Scheduled terms loop pending stock heads code

namespace Scheduled

variable {terms : Terms Message Port Item Error}
variable {loop : Loop Message Port Item Error α}
variable {pending : Side → List Message} {stock : Port → List Item} {heads : Side → List α}
variable {code : Side → Process Message Port Item Error α}

/-- A party about to send may do so at once: the other party takes no message
before, and whatever else it does is done as well afterwards. -/
theorem after_send (runs : Scheduled terms loop pending stock heads code)
    (side : Side) (message : Message) (rest : Process Message Port Item Error α)
    (acts : code side = .send message rest) :
    Scheduled terms loop
      (update pending side.other (pending side.other ++ [message])) stock heads
      (update code side rest) := by
  induction runs with
  | done results ended quiet empty holds => simp [ended] at acts
  | raised errors failed quiet expected => simp [failed] at acts
  | send sender sent continued sends next inductionHypothesis =>
    by_cases same : sender = side
    · subst same
      obtain ⟨rfl, rfl⟩ : message = sent ∧ rest = continued := by simpa [acts] using sends
      exact next
    · obtain rfl : sender = side.other := Side.eq_other same
      have after := inductionHypothesis (by simp [acts])
      refine .send side.other sent continued (by simp [sends]) ?_
      simpa [Function.update_comm (Side.other_ne side)] using after
  | receive receiver received others continued takes present alone settled calm next
      inductionHypothesis =>
    have distinct : receiver ≠ side := Side.apart takes acts (by simp)
    obtain rfl : receiver = side.other := Side.eq_other distinct
    simp [acts, Process.calm] at calm
  | signal putter port item continued writes puts waits next inductionHypothesis =>
    have distinct : putter ≠ side := Side.apart puts acts (by simp)
    obtain rfl : putter = side.other := Side.eq_other distinct
    have after := inductionHypothesis (by simp [acts])
    refine .signal side.other port item continued writes (by simp [puts]) ?_ ?_
    · intro prompt
      obtain ⟨-, held, here⟩ := waits prompt
      simp [acts] at here
    · rwa [Function.update_comm (Side.ne_other side)]
  | await taker port item others continued reads takes present suits next inductionHypothesis =>
    have distinct : taker ≠ side := Side.apart takes acts (by simp)
    have after := inductionHypothesis (by simp [distinct.symm, acts])
    refine .await taker port item others continued reads (by simp [distinct, takes]) present
      suits ?_
    rwa [Function.update_comm distinct.symm]
  | enter enterer head body returned again next inductionHypothesis =>
    have distinct : enterer ≠ side := Side.apart returned acts (by simp)
    have after := inductionHypothesis (by simp [distinct.symm, acts])
    refine .enter enterer head body (by simp [distinct, returned]) again ?_
    rwa [Function.update_comm distinct.symm]

/-- A party may take its oldest pending message at once: further ones go behind
it, and while it has one pending the other party takes none. -/
theorem after_receive (runs : Scheduled terms loop pending stock heads code)
    (side : Side) (message : Message) (others : List Message)
    (rest : Message → Process Message Port Item Error α)
    (acts : code side = .receive rest) (present : pending side = message :: others) :
    Scheduled terms loop (update pending side others) stock heads
      (update code side (rest message)) := by
  induction runs generalizing others with
  | done results ended quiet empty holds => simp [ended] at acts
  | raised errors failed quiet expected => simp [failed] at acts
  | send sender sent continued sends next inductionHypothesis =>
    have distinct : sender ≠ side := Side.apart sends acts (by simp)
    obtain rfl : sender = side.other := Side.eq_other distinct
    have after := inductionHypothesis (others ++ [sent]) (by simp [acts]) (by simp [present])
    refine .send side.other sent continued (by simp [sends]) ?_
    simpa [Function.update_comm (Side.other_ne side)] using after
  | receive receiver received left continued takes here alone settled calm next
      inductionHypothesis =>
    by_cases same : receiver = side
    · subst same
      obtain rfl : rest = continued := by simpa [acts] using takes
      obtain ⟨rfl, rfl⟩ : message = received ∧ others = left := by simpa [present] using here
      exact next
    · obtain rfl : receiver = side.other := Side.eq_other same
      simp [present] at alone
  | signal putter port item continued writes puts waits next inductionHypothesis =>
    have distinct : putter ≠ side := Side.apart puts acts (by simp)
    obtain rfl : putter = side.other := Side.eq_other distinct
    have after := inductionHypothesis others (by simp [acts]) present
    refine .signal side.other port item continued writes (by simp [puts]) ?_ ?_
    · intro prompt
      have nothing := (waits prompt).1
      simp [present] at nothing
    · rwa [Function.update_comm (Side.ne_other side)]
  | await taker port item left continued reads takes there suits next inductionHypothesis =>
    have distinct : taker ≠ side := Side.apart takes acts (by simp)
    have after := inductionHypothesis others (by simp [distinct.symm, acts]) present
    refine .await taker port item left continued reads (by simp [distinct, takes]) there suits ?_
    rwa [Function.update_comm distinct.symm]
  | enter enterer head body returned again next inductionHypothesis =>
    have distinct : enterer ≠ side := Side.apart returned acts (by simp)
    have after := inductionHypothesis others (by simp [distinct.symm, acts]) present
    refine .enter enterer head body (by simp [distinct, returned]) again ?_
    rwa [Function.update_comm distinct.symm]

/-- A party about to put an item on a port may do so at once: only it writes the
port, and taking from the front does not disturb the back. -/
theorem after_signal (runs : Scheduled terms loop pending stock heads code)
    (side : Side) (port : Port) (item : Item) (rest : Process Message Port Item Error α)
    (acts : code side = .signal port item rest) :
    terms.wiring.writer port = side ∧ Scheduled terms loop pending
      (update stock port (stock port ++ [item])) heads (update code side rest) := by
  induction runs with
  | done results ended quiet empty holds => simp [ended] at acts
  | raised errors failed quiet expected => simp [failed] at acts
  | send sender sent continued sends next inductionHypothesis =>
    have distinct : sender ≠ side := Side.apart sends acts (by simp)
    obtain ⟨writes, after⟩ := inductionHypothesis (by simp [distinct.symm, acts])
    refine ⟨writes, .send sender sent continued (by simp [distinct, sends]) ?_⟩
    rwa [Function.update_comm distinct.symm]
  | @receive receiver received left continued pending stock heads code takes here alone settled
      calm next inductionHypothesis =>
    have distinct : receiver ≠ side := Side.apart takes acts (by simp)
    obtain rfl : side = receiver.other := Side.eq_other distinct.symm
    obtain ⟨writes, after⟩ := inductionHypothesis (by simp [acts])
    refine ⟨writes, .receive receiver received left continued (by simp [takes]) here alone
      settled ?_ ?_⟩
    · rw [acts] at calm
      simpa [Process.calm] using calm
    · rwa [Function.update_comm distinct.symm]
  | signal putter place put continued writes puts waits next inductionHypothesis =>
    by_cases same : putter = side
    · subst same
      obtain ⟨rfl, rfl, rfl⟩ : port = place ∧ item = put ∧ rest = continued := by
        simpa [acts] using puts
      exact ⟨writes, next⟩
    · obtain rfl : putter = side.other := Side.eq_other same
      obtain ⟨writesHere, after⟩ := inductionHypothesis (by simp [acts])
      have elsewhere : port ≠ place := by
        rintro rfl
        exact same (writes.symm.trans writesHere)
      refine ⟨writesHere, .signal side.other place put continued writes (by simp [puts]) ?_ ?_⟩
      · intro prompt
        obtain ⟨-, held, here⟩ := waits prompt
        simp [acts] at here
      · rw [Function.update_of_ne elsewhere] at after
        rwa [Function.update_comm (Side.ne_other side), Function.update_of_ne elsewhere.symm,
          Function.update_comm elsewhere]
  | await taker place taken others continued reads takes present suits next inductionHypothesis =>
    have distinct : taker ≠ side := Side.apart takes acts (by simp)
    obtain ⟨writes, after⟩ := inductionHypothesis (by simp [distinct.symm, acts])
    by_cases same : place = port
    · subst same
      refine ⟨writes, .await taker place taken (others ++ [item]) continued reads
        (by simp [distinct, takes]) (by simp [present]) suits ?_⟩
      rw [Function.update_comm distinct.symm]
      simpa using after
    · refine ⟨writes, .await taker place taken others continued reads
        (by simp [distinct, takes]) (by simp [same, present]) suits ?_⟩
      rw [Function.update_of_ne (Ne.symm same)] at after
      rwa [Function.update_comm distinct.symm, Function.update_comm (Ne.symm same)]
  | enter enterer head body returned again next inductionHypothesis =>
    have distinct : enterer ≠ side := Side.apart returned acts (by simp)
    obtain ⟨writes, after⟩ := inductionHypothesis (by simp [distinct.symm, acts])
    refine ⟨writes, .enter enterer head body (by simp [distinct, returned]) again ?_⟩
    rwa [Function.update_comm distinct.symm]

/-- A party that takes from a port is its only reader. -/
theorem reads_port (runs : Scheduled terms loop pending stock heads code)
    (side : Side) (port : Port) (rest : Item → Process Message Port Item Error α)
    (acts : code side = .await port rest) : terms.wiring.reader port = side := by
  induction runs with
  | done results ended quiet empty holds => simp [ended] at acts
  | raised errors failed quiet expected => simp [failed] at acts
  | send sender sent continued sends next inductionHypothesis =>
    have distinct : sender ≠ side := Side.apart sends acts (by simp)
    exact inductionHypothesis (by simp [distinct.symm, acts])
  | receive receiver received left continued takes here alone settled calm next
      inductionHypothesis =>
    have distinct : receiver ≠ side := Side.apart takes acts (by simp)
    exact inductionHypothesis (by simp [distinct.symm, acts])
  | signal putter place put continued writes puts waits next inductionHypothesis =>
    have distinct : putter ≠ side := Side.apart puts acts (by simp)
    exact inductionHypothesis (by simp [distinct.symm, acts])
  | await taker place taken others continued reads takes present suits next inductionHypothesis =>
    by_cases same : taker = side
    · subst same
      obtain ⟨rfl, rfl⟩ : port = place ∧ rest = continued := by simpa [acts] using takes
      exact reads
    · exact inductionHypothesis (by simp [Ne.symm same, acts])
  | enter enterer head body returned again next inductionHypothesis =>
    have distinct : enterer ≠ side := Side.apart returned acts (by simp)
    exact inductionHypothesis (by simp [distinct.symm, acts])

/-- A party may take the oldest item of its port as soon as there is one. -/
theorem after_await (runs : Scheduled terms loop pending stock heads code)
    (side : Side) (port : Port) (item : Item) (others : List Item)
    (rest : Item → Process Message Port Item Error α)
    (acts : code side = .await port rest) (present : stock port = item :: others) :
    Scheduled terms loop pending (update stock port others) heads
      (update code side (rest item)) := by
  have reader : terms.wiring.reader port = side := runs.reads_port side port rest acts
  induction runs generalizing others with
  | done results ended quiet empty holds => simp [ended] at acts
  | raised errors failed quiet expected => simp [failed] at acts
  | send sender sent continued sends next inductionHypothesis =>
    have distinct : sender ≠ side := Side.apart sends acts (by simp)
    have after := inductionHypothesis others (by simp [distinct.symm, acts]) present
    refine .send sender sent continued (by simp [distinct, sends]) ?_
    rwa [Function.update_comm distinct.symm]
  | @receive receiver received left continued pending stock heads code takes here alone settled
      calm next inductionHypothesis =>
    have distinct : receiver ≠ side := Side.apart takes acts (by simp)
    obtain rfl : side = receiver.other := Side.eq_other distinct.symm
    have after := inductionHypothesis others (by simp [acts]) present
    refine .receive receiver received left continued (by simp [takes]) here alone settled ?_ ?_
    · rw [acts] at calm
      simpa using calm item
    · rwa [Function.update_comm distinct.symm]
  | @signal putter place put continued pending stock heads code writes puts waits next
      inductionHypothesis =>
    have distinct : putter ≠ side := Side.apart puts acts (by simp)
    obtain rfl : putter = side.other := Side.eq_other distinct
    have held : terms.prompt → Stuck (pending side) (update code side (rest item) side) := by
      intro prompt
      obtain ⟨-, continued, here⟩ := waits prompt
      simp [acts] at here
    by_cases same : place = port
    · subst same
      have after := inductionHypothesis (others ++ [put]) (by simp [acts]) (by simp [present])
      refine .signal side.other place put continued writes (by simp [puts])
        (by simpa using held) ?_
      rw [Function.update_comm (Side.other_ne side)] at after
      simpa using after
    · have after := inductionHypothesis others (by simp [acts]) (by simp [Ne.symm same, present])
      refine .signal side.other place put continued writes (by simp [puts])
        (by simpa using held) ?_
      rw [Function.update_of_ne same]
      rwa [Function.update_comm (Side.other_ne side), Function.update_comm same] at after
  | await taker place taken left continued reads takes there suits next inductionHypothesis =>
    by_cases same : taker = side
    · subst same
      obtain ⟨rfl, rfl⟩ : port = place ∧ rest = continued := by simpa [acts] using takes
      obtain ⟨rfl, rfl⟩ : item = taken ∧ others = left := by simpa [present] using there
      exact next
    · have elsewhere : place ≠ port := by
        rintro rfl
        exact same (reads.symm.trans reader)
      have after := inductionHypothesis others (by simp [Ne.symm same, acts])
        (by simp [elsewhere.symm, present])
      refine .await taker place taken left continued reads (by simp [same, takes])
        (by simp [elsewhere, there]) suits ?_
      rwa [Function.update_comm (Ne.symm same), Function.update_comm elsewhere.symm]
  | enter enterer head body returned again next inductionHypothesis =>
    have distinct : enterer ≠ side := Side.apart returned acts (by simp)
    have after := inductionHypothesis others (by simp [distinct.symm, acts]) present
    refine .enter enterer head body (by simp [distinct, returned]) again ?_
    rwa [Function.update_comm distinct.symm]

/-- Every joint loop state accepted by `final` is either the end for both
parties or the start of another pass that ends in such a state. -/
def Closed (terms : Terms Message Port Item Error) (loop : Loop Message Port Item Error α) :
    Prop :=
  ∀ heads results, loop.final heads results →
    (∀ side, loop.enter side (results side) = none) ∨
    ∃ bodies, (∀ side, loop.enter side (results side) = some (bodies side)) ∧
      Scheduled terms loop (fun _ => []) (fun _ => [])
        (fun side => heads side ++ [results side]) bodies

/-- A party at a loop state may start its next pass before the other party does. -/
theorem after_enter (closed : Closed terms loop)
    (runs : Scheduled terms loop pending stock heads code) (side : Side)
    (head : α) (body : Process Message Port Item Error α)
    (acts : code side = .done head) (again : loop.enter side head = some body) :
    Scheduled terms loop pending stock (update heads side (heads side ++ [head]))
      (update code side body) := by
  induction runs with
  | @done results pending stock heads code ended quiet empty holds =>
    obtain rfl : results side = head := by simpa [ended] using acts
    obtain stop | ⟨bodies, starts, next⟩ := closed heads results holds
    · simp [stop] at again
    obtain rfl : bodies side = body := by simpa [starts] using again
    obtain rfl : stock = fun _ => [] := funext empty
    obtain rfl : pending = fun _ => [] := funext quiet
    refine .enter side.other (results side.other) (bodies side.other) (by simp [ended])
      (starts side.other) ?_
    convert next using 1
    · funext party
      cases side <;> cases party <;> simp
    · funext party
      cases side <;> cases party <;> simp
  | raised errors failed quiet expected => simp [failed] at acts
  | send sender sent continued sends next inductionHypothesis =>
    have distinct : sender ≠ side := Side.apart sends acts (by simp)
    have after := inductionHypothesis (by simp [distinct.symm, acts])
    refine .send sender sent continued (by simp [distinct, sends]) ?_
    rwa [Function.update_comm distinct.symm]
  | @receive receiver received left continued pending stock heads code takes here alone settled
      calm next inductionHypothesis =>
    have distinct : receiver ≠ side := Side.apart takes acts (by simp)
    obtain rfl : side = receiver.other := Side.eq_other distinct.symm
    have after := inductionHypothesis (by simp [acts])
    refine .receive receiver received left continued (by simp [takes]) here alone settled ?_ ?_
    · rw [acts] at calm
      simpa using loop.calm _ _ _ calm again
    · rwa [Function.update_comm distinct.symm]
  | signal putter port item continued writes puts waits next inductionHypothesis =>
    have distinct : putter ≠ side := Side.apart puts acts (by simp)
    obtain rfl : putter = side.other := Side.eq_other distinct
    have after := inductionHypothesis (by simp [acts])
    refine .signal side.other port item continued writes (by simp [puts]) ?_ ?_
    · intro prompt
      obtain ⟨-, held, here⟩ := waits prompt
      simp [acts] at here
    · rwa [Function.update_comm (Side.ne_other side)]
  | await taker port item others continued reads takes present suits next inductionHypothesis =>
    have distinct : taker ≠ side := Side.apart takes acts (by simp)
    have after := inductionHypothesis (by simp [distinct.symm, acts])
    refine .await taker port item others continued reads (by simp [distinct, takes]) present
      (by simpa [distinct] using suits) ?_
    rwa [Function.update_comm distinct.symm]
  | enter enterer start started returned restarts next inductionHypothesis =>
    by_cases same : enterer = side
    · subst same
      obtain rfl : head = start := by simpa [acts] using returned
      obtain rfl : body = started := by simpa [again] using restarts
      exact next
    · have after := inductionHypothesis (by simp [Ne.symm same, acts])
      refine .enter enterer start started (by simp [same, returned]) restarts ?_
      rw [Function.update_of_ne (Ne.symm same)] at after
      rwa [Function.update_comm (Ne.symm same), Function.update_of_ne same,
        Function.update_comm (Ne.symm same)]

/-- Messages that are pending together can be delivered in one order only. The schedule asks for
this when one of them is taken, so it holds from the first one on. -/
theorem settled (runs : Scheduled terms loop pending stock heads code)
    (side : Side) : Settled terms.blocks (pending side) := by
  induction runs with
  | done results ended quiet empty holds =>
    rw [quiet side]
    exact .nil
  | raised errors failed quiet expected =>
    rw [quiet side]
    exact .nil
  | send sender sent continued sends next inductionHypothesis =>
    by_cases same : side = sender.other
    · subst same
      rw [Function.update_self] at inductionHypothesis
      exact inductionHypothesis.sublist (List.sublist_append_left _ _)
    · rwa [Function.update_of_ne same] at inductionHypothesis
  | receive receiver received left continued takes here alone settled calm next
      inductionHypothesis =>
    by_cases same : side = receiver
    · exact same ▸ settled
    · obtain rfl : side = receiver.other := Side.eq_other same
      rw [alone]
      exact .nil
  | signal putter port item continued writes puts waits next inductionHypothesis =>
    exact inductionHypothesis
  | await taker port item others continued reads takes present suits next inductionHypothesis =>
    exact inductionHypothesis
  | enter enterer head body returned again next inductionHypothesis => exact inductionHypothesis

/-- The invariant of a duet whose parties have an eager schedule: what is on the way is what is
pending and in stock, and from here there is an eager schedule again. -/
def OnSchedule (terms : Terms Message Port Item Error) (loop : Loop Message Port Item Error α)
    (state : Duet Message Port Item Error α) : Prop :=
  ∃ pending stock, Carries state pending stock ∧
    Scheduled terms loop pending stock state.heads state.code

omit [DecidableEq Port] in
/-- In a settled queue a message that nothing blocks equals all before it. -/
theorem alike {blocks : Message → Message → Prop} {queue before after : List Message}
    {message : Message} (settled : Settled blocks (queue ++ (before ++ message :: after)))
    (free : ∀ earlier ∈ before, ¬ blocks earlier message) :
    ∀ earlier ∈ before, earlier = message := by
  intro earlier member
  have tail := (List.pairwise_append.mp settled).2.1
  obtain same | blocked := (List.pairwise_append.mp tail).2.2 earlier member message (by simp)
  · exact same
  · exact absurd blocked (free earlier member)

/-- Each step of either party and of the channel keeps the parties on schedule. -/
theorem OnSchedule.step (closed : Closed terms loop)
    {state next : Duet Message Port Item Error α}
    (before : OnSchedule terms loop state) (moves : Duet.Step loop.enter state next)
    (inOrder : Duet.Ordered terms.blocks state next) :
    OnSchedule terms loop next := by
  obtain ⟨pending, stock, spread, runs⟩ := before
  cases moves with
  | send side message rest acts =>
    exact ⟨_, stock, spread.send message _, runs.after_send side message rest acts⟩
  | deliver side earlier later message travels =>
    have whole := runs.settled side
    rw [← spread.messages side, travels] at whole
    have free := inOrder side earlier message later travels (by simp) (by simp)
    exact ⟨pending, stock, spread.deliver travels (alike whole free), runs⟩
  | receive side message others rest acts queued =>
    have here := spread.messages side
    rw [queued, List.cons_append] at here
    exact ⟨_, stock, spread.receive queued _,
      runs.after_receive side message _ rest acts here.symm⟩
  | signal side port item rest acts =>
    exact ⟨pending, _, spread.signal port item _, (runs.after_signal side port item rest acts).2⟩
  | arrive port item others travels =>
    exact ⟨pending, stock, spread.arrive travels, runs⟩
  | await side port item others rest acts arrived =>
    have here := spread.items port
    rw [arrived, List.cons_append] at here
    exact ⟨pending, _, spread.await arrived _,
      runs.after_await side port item _ rest acts here.symm⟩
  | enter side head body returned again =>
    exact ⟨pending, stock, ⟨spread.messages, spread.items⟩,
      runs.after_enter closed side head body returned again⟩

/-- Being on schedule is an invariant of every run in order, by induction over the run. -/
theorem OnSchedule.run (closed : Closed terms loop)
    {state later : Duet Message Port Item Error α}
    (before : OnSchedule terms loop state)
    (reached : Duet.ReachesInOrder terms.blocks loop.enter state later) :
    OnSchedule terms loop later := by
  induction reached with
  | refl => exact before
  | tail _ moves inductionHypothesis => exact inductionHypothesis.step closed moves.1 moves.2

/-- The initial state is on schedule when the two programs have one. -/
theorem start_onSchedule (programs : Side → Process Message Port Item Error α)
    (runs : Scheduled terms loop (fun _ => []) (fun _ => []) (fun _ => [])
      programs) : OnSchedule terms loop (Duet.start programs) :=
  ⟨fun _ => [], fun _ => [], ⟨fun _ => rfl, fun _ => rfl⟩, runs⟩

/-- A party on schedule has raised no error but an expected one. Both parties end with errors
then, though one may not have come to it yet. -/
theorem raised_fails (runs : Scheduled terms loop pending stock heads code)
    (side : Side) (error : Error) (failed : code side = .raised error) :
    ∃ errors, terms.fails errors ∧ errors side = error := by
  induction runs with
  | done results ended quiet empty holds => simp [ended] at failed
  | raised errors ended quiet expected =>
    exact ⟨errors, expected, by simpa [ended] using failed⟩
  | send sender sent continued sends next inductionHypothesis =>
    have distinct : side ≠ sender := Side.apart failed sends (by simp)
    exact inductionHypothesis (by simp [distinct, failed])
  | receive receiver received left continued takes here alone settled calm next
      inductionHypothesis =>
    have distinct : side ≠ receiver := Side.apart failed takes (by simp)
    exact inductionHypothesis (by simp [distinct, failed])
  | signal putter port item continued writes puts waits next inductionHypothesis =>
    have distinct : side ≠ putter := Side.apart failed puts (by simp)
    exact inductionHypothesis (by simp [distinct, failed])
  | await taker port item others continued reads takes present suits next inductionHypothesis =>
    have distinct : side ≠ taker := Side.apart failed takes (by simp)
    exact inductionHypothesis (by simp [distinct, failed])
  | enter enterer head body returned again next inductionHypothesis =>
    have distinct : side ≠ enterer := Side.apart failed returned (by simp)
    exact inductionHypothesis (by simp [distinct, failed])

/-- When one party has raised an error the other has not returned a final result. -/
theorem not_half (runs : Scheduled terms loop pending stock heads code) {side : Side}
    {error : Error} (failed : code side = .raised error) {result : α}
    (returned : code side.other = .done result)
    (stops : loop.enter side.other result = none) : False := by
  -- the next action would be one of either party
  have acting (party : Side) : party = side ∨ party = side.other := by
    cases party <;> cases side <;> decide
  cases runs with
  | done results ended quiet empty holds => cases failed.symm.trans (ended side)
  | raised errors raises quiet expected => cases returned.symm.trans (raises side.other)
  | send party message rest acts next =>
    obtain rfl | rfl := acting party
    · cases failed.symm.trans acts
    · cases returned.symm.trans acts
  | receive party message others rest acts present alone settled calm next =>
    obtain rfl | rfl := acting party
    · cases failed.symm.trans acts
    · cases returned.symm.trans acts
  | signal party port item rest writes acts waits next =>
    obtain rfl | rfl := acting party
    · cases failed.symm.trans acts
    · cases returned.symm.trans acts
  | await party port item others rest reads acts present suits next =>
    obtain rfl | rfl := acting party
    · cases failed.symm.trans acts
    · cases returned.symm.trans acts
  | enter party head body ended again next =>
    obtain rfl | rfl := acting party
    · cases failed.symm.trans ended
    · obtain rfl := Process.done.inj (returned.symm.trans ended)
      cases stops.symm.trans again

/-- Under prompt terms a party that takes from a port finds its item there. -/
theorem supplied (runs : Scheduled terms loop pending stock heads code)
    (prompt : terms.prompt) (side : Side) (port : Port)
    (rest : Item → Process Message Port Item Error α) (acts : code side = .await port rest) :
    ∃ item others, stock port = item :: others ∧ loop.ready side (heads side) port item := by
  have reader : terms.wiring.reader port = side := runs.reads_port side port rest acts
  induction runs with
  | done results ended quiet empty holds => simp [ended] at acts
  | raised errors failed quiet expected => simp [failed] at acts
  | send sender sent continued sends next inductionHypothesis =>
    have distinct : side ≠ sender := Side.apart acts sends (by simp)
    exact inductionHypothesis (by simp [distinct, acts])
  | receive receiver received left continued takes here alone settled calm next
      inductionHypothesis =>
    have distinct : side ≠ receiver := Side.apart acts takes (by simp)
    exact inductionHypothesis (by simp [distinct, acts])
  | signal putter place item continued writes puts waits next inductionHypothesis =>
    have distinct : side ≠ putter := Side.apart acts puts (by simp)
    obtain rfl : side = putter.other := Side.eq_other distinct
    obtain ⟨-, held, here⟩ := waits prompt
    simp [acts] at here
  | await taker place item others continued reads takes present suits next inductionHypothesis =>
    by_cases same : side = taker
    · subst same
      obtain ⟨rfl, rfl⟩ : port = place ∧ rest = continued := by simpa [acts] using takes
      exact ⟨item, others, present, suits⟩
    · have elsewhere : port ≠ place := by
        rintro rfl
        exact same (reader.symm.trans reads)
      have found := inductionHypothesis (by simp [same, acts])
      rwa [Function.update_of_ne elsewhere] at found
  | enter enterer head body returned again next inductionHypothesis =>
    have distinct : side ≠ enterer := Side.apart acts returned (by simp)
    have found := inductionHypothesis (by simp [distinct, acts])
    rwa [Function.update_of_ne distinct] at found

/-- When both parties have returned final results these are the scheduled ones. -/
theorem both_returned (runs : Scheduled terms loop pending stock heads code)
    (results : Side → α) (returned : ∀ side, code side = .done (results side))
    (stops : ∀ side, loop.enter side (results side) = none) : loop.final heads results := by
  cases runs with
  | done others ended quiet empty holds =>
    have same : others = results := by
      funext side
      simpa [returned side] using (ended side).symm
    exact same ▸ holds
  | raised errors failed quiet expected => simpa [returned] using failed .lead
  | send side message rest acts next => simp [returned side] at acts
  | receive side message others rest acts present alone settled calm next =>
    simp [returned side] at acts
  | signal side port item rest writes acts waits next => simp [returned side] at acts
  | await side port item others rest reads acts present suits next =>
    simp [returned side] at acts
  | enter side head body ended again next =>
    obtain rfl : results side = head := by simpa [returned side] using ended
    simp [stops side] at again

/-- Unless both parties have ended, some step is possible: the one that comes next in the
schedule, or a delivery that it waits for. -/
theorem OnSchedule.progress {state : Duet Message Port Item Error α}
    (closed : Closed terms loop)
    (onSchedule : OnSchedule terms loop state) :
    (∀ side, (∃ result, state.Returned loop.enter side result) ∨
      ∃ error, state.code side = .raised error) ∨ ∃ next, Duet.Step loop.enter state next := by
  obtain ⟨pending, stock, spread, runs⟩ := onSchedule
  cases runs with
  | done results ended quiet empty holds =>
    obtain stop | ⟨bodies, starts, -⟩ := closed state.heads results holds
    · exact .inl fun side => .inl ⟨results side, ended side, stop side⟩
    · exact .inr ⟨_, .enter state .lead (results .lead) (bodies .lead) (ended .lead)
        (starts .lead)⟩
  | raised errors failed quiet expected =>
    exact .inl fun side => .inr ⟨errors side, failed side⟩
  | send side message rest acts next => exact .inr ⟨_, .send state side message rest acts⟩
  | receive side message others rest acts present alone settled calm next =>
    have here := spread.messages side
    cases queued : state.queue side with
    | cons head tail => exact .inr ⟨_, .receive state side head tail rest acts queued⟩
    | nil =>
      rw [queued, List.nil_append, present] at here
      exact .inr ⟨_, .deliver state side [] others message here⟩
  | signal side port item rest writes acts waits next =>
    exact .inr ⟨_, .signal state side port item rest acts⟩
  | await side port item others rest reads acts present suits next =>
    have here := spread.items port
    cases arrived : state.arrived port with
    | cons head tail => exact .inr ⟨_, .await state side port head tail rest acts arrived⟩
    | nil =>
      rw [arrived, List.nil_append, present] at here
      exact .inr ⟨_, .arrive state port item others here⟩
  | enter side head body returned again next =>
    exact .inr ⟨_, .enter state side head body returned again⟩

end Scheduled

end QChat
