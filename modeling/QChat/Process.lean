import Mathlib.Logic.Function.Basic

/-!
# Interactive processes

A process is a finite tree of the actions one party of a two-party exchange
performs: it sends a message to the other party, takes the next message the
other party sent, puts an item on a named port, takes the next item from a
port, returns a result or raises an error. Everything between two actions is
ordinary computation and is evaluated when the tree is built.

Unbounded iteration is not part of the tree. A loop is a step function from a
loop state to a process that returns the next loop state; the two-party
semantics in `QChat.Duet` re-enters it.
-/

namespace QChat

/-- Actions of one party. Messages go to the other party; ports carry items
that are not messages, in the order in which they were put. -/
inductive Process (Message Port Item Error α : Type) where
  | done (result : α)
  | raised (error : Error)
  | send (message : Message) (rest : Process Message Port Item Error α)
  | receive (rest : Message → Process Message Port Item Error α)
  | signal (port : Port) (item : Item) (rest : Process Message Port Item Error α)
  | await (port : Port) (rest : Item → Process Message Port Item Error α)

namespace Process

variable {Message Port Item Error α β γ : Type}

/-- Continue with `next` at every normal result; an error ends the whole. The actions of the
first part are kept in their order, so `next` starts only after all of them. -/
def andThen : Process Message Port Item Error α →
    (α → Process Message Port Item Error β) → Process Message Port Item Error β
  | .done result, next => next result
  | .raised error, _ => .raised error
  | .send message rest, next => .send message (rest.andThen next)
  | .receive rest, next => .receive (fun message => (rest message).andThen next)
  | .signal port item rest, next => .signal port item (rest.andThen next)
  | .await port rest, next => .await port (fun item => (rest item).andThen next)

instance : Monad (Process Message Port Item Error) where
  pure := .done
  bind := andThen

@[simp] theorem pure_eq (result : α) :
    (pure result : Process Message Port Item Error α) = .done result := rfl

@[simp] theorem done_bind (result : α) (next : α → Process Message Port Item Error β) :
    (Process.done result >>= next) = next result := rfl

/-- Nothing follows an error. -/
@[simp] theorem raised_bind (error : Error) (next : α → Process Message Port Item Error β) :
    (Process.raised error >>= next) = .raised error := rfl

/-- What follows a process follows the rest behind its first action. This and the next three
lemmas push a continuation behind the first action, whatever it is. -/
@[simp] theorem send_bind (message : Message) (rest : Process Message Port Item Error α)
    (next : α → Process Message Port Item Error β) :
    (Process.send message rest >>= next) = .send message (rest >>= next) := rfl

/-- What follows may depend on the message that is taken. -/
@[simp] theorem receive_bind (rest : Message → Process Message Port Item Error α)
    (next : α → Process Message Port Item Error β) :
    (Process.receive rest >>= next) = .receive (fun message => rest message >>= next) := rfl

/-- Putting an item on a port comes before all that follows. -/
@[simp] theorem signal_bind (port : Port) (item : Item)
    (rest : Process Message Port Item Error α) (next : α → Process Message Port Item Error β) :
    (Process.signal port item rest >>= next) = .signal port item (rest >>= next) := rfl

/-- What follows may depend on the item that is taken. -/
@[simp] theorem await_bind (port : Port) (rest : Item → Process Message Port Item Error α)
    (next : α → Process Message Port Item Error β) :
    (Process.await port rest >>= next) = .await port (fun item => rest item >>= next) := rfl

/-- Sequencing is associative, and returning the result unchanged adds no
action: induction follows the actions of the first part. -/
instance : LawfulMonad (Process Message Port Item Error) := LawfulMonad.mk' _
  (by
    intro α process
    change process.andThen .done = process
    induction process with
    | done result => rfl
    | raised error => rfl
    | send message rest inductionHypothesis => simp only [andThen, inductionHypothesis]
    | receive rest inductionHypothesis => simp only [andThen, inductionHypothesis]
    | signal port item rest inductionHypothesis => simp only [andThen, inductionHypothesis]
    | await port rest inductionHypothesis => simp only [andThen, inductionHypothesis])
  (fun _ _ => rfl)
  (by
    intro α β γ process second third
    change (process.andThen second).andThen third =
      process.andThen (fun result => (second result).andThen third)
    induction process with
    | done result => rfl
    | raised error => rfl
    | send message rest inductionHypothesis => simp only [andThen, inductionHypothesis]
    | receive rest inductionHypothesis => simp only [andThen, inductionHypothesis]
    | signal port item rest inductionHypothesis => simp only [andThen, inductionHypothesis]
    | await port rest inductionHypothesis => simp only [andThen, inductionHypothesis])

@[simp] theorem bind_done (process : Process Message Port Item Error α) :
    (process >>= Process.done) = process := bind_pure process

/-- The first message action on every path is a send. Port actions may come
before it; a process that returns or raises without a message action does not
qualify. -/
def speaksFirst : Process Message Port Item Error α → Prop
  | .send _ _ => True
  | .signal _ _ rest => rest.speaksFirst
  | .await _ rest => ∀ item, (rest item).speaksFirst
  | _ => False

/-- The first message action on every path takes a message. -/
def listensFirst : Process Message Port Item Error α → Prop
  | .receive _ => True
  | .signal _ _ rest => rest.listensFirst
  | .await _ rest => ∀ item, (rest item).listensFirst
  | _ => False

/-- What follows a process that speaks first does not change who speaks. -/
theorem speaksFirst_bind (process : Process Message Port Item Error α)
    (next : α → Process Message Port Item Error β) (speaks : process.speaksFirst) :
    (process >>= next).speaksFirst := by
  induction process with
  | done result => exact False.elim speaks
  | raised error => exact False.elim speaks
  | send message rest inductionHypothesis => trivial
  | receive rest inductionHypothesis => exact False.elim speaks
  | signal port item rest inductionHypothesis => exact inductionHypothesis speaks
  | await port rest inductionHypothesis =>
    exact fun item => inductionHypothesis item (speaks item)

/-- What follows a process that listens first does not change that either. -/
theorem listensFirst_bind (process : Process Message Port Item Error α)
    (next : α → Process Message Port Item Error β) (listens : process.listensFirst) :
    (process >>= next).listensFirst := by
  induction process with
  | done result => exact False.elim listens
  | raised error => exact False.elim listens
  | send message rest inductionHypothesis => exact False.elim listens
  | receive rest inductionHypothesis => trivial
  | signal port item rest inductionHypothesis => exact inductionHypothesis listens
  | await port rest inductionHypothesis =>
    exact fun item => inductionHypothesis item (listens item)

end Process

end QChat
