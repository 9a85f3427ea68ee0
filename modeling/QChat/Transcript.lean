import QChat.Together

/-!
# What a party says

A process that also returns the messages it has sent. It takes the same actions as
the process itself, so a two-party triple for it is one for the process, and what
the triple says of the messages holds of everything that was sent.
-/

namespace QChat

variable {Message Port Item Error α β : Type}

namespace Process

/-- The process with its messages: those in `said`, and all that it sends, in the order in which
it sends them. A process that raises loses its messages with its result. -/
def keeping : Process Message Port Item Error α → List Message →
    Process Message Port Item Error (α × List Message)
  | .done result, said => .done (result, said)
  | .raised error, _ => .raised error
  | .send message rest, said => .send message (rest.keeping (said ++ [message]))
  | .receive rest, said => .receive fun message => (rest message).keeping said
  | .signal port item rest, said => .signal port item (rest.keeping said)
  | .await port rest, said => .await port fun item => (rest item).keeping said

variable (said : List Message)

/-- At its end the process has said what it has said. -/
@[simp] theorem keeping_done (result : α) :
    (Process.done result : Process Message Port Item Error α).keeping said =
      .done (result, said) := rfl

/-- A message that is sent is added behind the others. -/
@[simp] theorem keeping_send (message : Message) (rest : Process Message Port Item Error α) :
    (Process.send message rest).keeping said = .send message (rest.keeping (said ++ [message])) :=
  rfl

/-- Taking a message adds nothing. -/
@[simp] theorem keeping_receive (rest : Message → Process Message Port Item Error α) :
    (Process.receive rest).keeping said = .receive fun message => (rest message).keeping said :=
  rfl

/-- What the second part says comes behind what the first part has said. -/
theorem keeping_bind (process : Process Message Port Item Error α)
    (next : α → Process Message Port Item Error β) :
    (process >>= next).keeping said =
      process.keeping said >>= fun kept => (next kept.1).keeping kept.2 := by
  induction process generalizing said with
  | done result => rfl
  | raised error => rfl
  | send message rest inductionHypothesis =>
    exact congrArg (Process.send message) (inductionHypothesis (said ++ [message]))
  | receive rest inductionHypothesis =>
    exact congrArg Process.receive (funext fun message => inductionHypothesis message said)
  | signal port item rest inductionHypothesis =>
    exact congrArg (Process.signal port item) (inductionHypothesis said)
  | await port rest inductionHypothesis =>
    exact congrArg (Process.await port) (funext fun item => inductionHypothesis item said)

/-- Without its messages it is the process again. This is what makes a statement about the
messages one about the process itself: the two take the same actions. -/
theorem keeping_forget (process : Process Message Port Item Error α) :
    (process.keeping said >>= fun kept => Process.done kept.1) = process := by
  induction process generalizing said with
  | done result => rfl
  | raised error => rfl
  | send message rest inductionHypothesis =>
    exact congrArg (Process.send message) (inductionHypothesis (said ++ [message]))
  | receive rest inductionHypothesis =>
    exact congrArg Process.receive (funext fun message => inductionHypothesis message said)
  | signal port item rest inductionHypothesis =>
    exact congrArg (Process.signal port item) (inductionHypothesis said)
  | await port rest inductionHypothesis =>
    exact congrArg (Process.await port) (funext fun item => inductionHypothesis item said)

end Process

variable [DecidableEq Port] {wiring : Wiring Port}

/-- A triple for the processes with their messages is one for the processes, with messages of
which the triple's postcondition holds. -/
theorem Together.of_keeping {code : Side → Process Message Port Item Error α}
    {post : (Side → α × List Message) → Prop}
    (runs : Together wiring (fun side => (code side).keeping []) post) :
    Together wiring code fun results =>
      ∃ said : Side → List Message, post fun side => (results side, said side) := by
  have forgotten : Together wiring
      (fun side => (code side).keeping [] >>= fun kept => Process.done kept.1)
      (fun results => ∃ said : Side → List Message, post fun side => (results side, said side)) :=
    runs.bind fun kept holds => Together.done _ ⟨fun side => (kept side).2, holds⟩
  simpa only [Process.keeping_forget] using forgotten

/-- Results that are given along with the messages are results. -/
theorem Together.forget {code : Side → Process Message Port Item Error α} {value : Side → α}
    {said : Side → List Message}
    (runs : Together wiring (fun side => (code side).keeping [])
      (fun results => ∀ side, results side = (value side, said side))) :
    Together wiring code fun results => ∀ side, results side = value side := by
  refine runs.of_keeping.weaken ?_
  rintro results ⟨_, same⟩ side
  exact congrArg Prod.fst (same side)

end QChat
