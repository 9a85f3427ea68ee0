import QChat.Messages
import QChat.Threads

/-!
# Mailbox and message queue

The two lists of messages that the threads of a node share: the mailbox, which the
threads of the handlers fill and any thread may read or empty, and the queue of the
connection, which the threads of the accepted sockets fill and one thread empties. That
thread looks at the queue without the lock before it takes a message.

What was put in and what was taken out is noted beside the lists.
-/

namespace QChat

open Function (update)

def sampleMessage : Message := ⟨.QCHTMessage, "alice", .obj [], alice_short⟩

/-- The messages of a mailbox, the ones that were stored, and what the calls of `popMessages`
returned. The last two are not in the source: they are what the calls are compared with. -/
structure QChatMailbox where
  messages : List Message
  stored : List Message
  popped : List (List Message)

namespace QChatMailbox

variable {Place Thread : Type}

/-- Stores a message into the mailbox. -/
def storeMessage (message : Message) (next : Place) : Section QChatMailbox Place :=
  .update (fun mailbox => { mailbox with
    messages := mailbox.messages ++ [message]
    stored := mailbox.stored ++ [message] }) fun _ => next

/-- Returns a list of the messages that are currently stored in the mailbox. -/
def getMessages (next : List Message → Place) : Section QChatMailbox Place :=
  .update id fun mailbox => next mailbox.messages

/-- Pops all messages that are stored and returns them. -/
def popMessages (next : List Message → Place) : Section QChatMailbox Place :=
  .read fun mailbox => .update (fun now => { now with
    messages := []
    popped := now.popped ++ [mailbox.messages] }) fun _ => next mailbox.messages

/-- The next call of a thread, and where the thread goes on with its result. A thread may make
any number of calls, and decide on the next by what the last has returned. -/
inductive Call (Place : Type) where
  | none
  | storeMessage (message : Message) (next : Place)
  | getMessages (next : List Message → Place)
  | popMessages (next : List Message → Place)

def Call.action : Call Place → Action QChatMailbox Place
  | .none => .stop
  | .storeMessage message next => .guarded (QChatMailbox.storeMessage message next)
  | .getMessages next => .guarded (QChatMailbox.getMessages next)
  | .popMessages next => .guarded (QChatMailbox.popMessages next)

def init : QChatMailbox := ⟨[], [], []⟩

/-- The messages that were popped, then those that are there, are the stored ones. -/
def Exact (mailbox : QChatMailbox) : Prop :=
  mailbox.stored = mailbox.popped.flatten ++ mailbox.messages

/-- A call keeps the messages exact. -/
theorem Exact.call {mailbox : QChatMailbox} (exact : mailbox.Exact) {call : Call Place}
    {body : Section QChatMailbox Place} (acts : call.action = .guarded body) :
    (body.run mailbox).1.Exact := by
  cases call with
  | none => cases acts
  | storeMessage message next =>
    cases acts
    change mailbox.stored ++ [message] =
      mailbox.popped.flatten ++ (mailbox.messages ++ [message])
    rw [exact, List.append_assoc]
  | getMessages next =>
    cases acts
    exact exact
  | popMessages next =>
    cases acts
    change mailbox.stored = (mailbox.popped ++ [mailbox.messages]).flatten ++ []
    rw [exact, List.flatten_append, List.flatten_singleton, List.append_nil]

variable [DecidableEq Thread] (calls : Place → Call Place)

/-- However the calls of any number of threads interleave, every stored message is returned by
exactly one call of `popMessages` or still there, in the order of the calls of `storeMessage`.
The methods do all they do under the lock of the mailbox. -/
theorem popped_once {place : Thread → Place}
    {threads : Threads Thread QChatMailbox Place}
    (reached : Threads.Reaches (fun place => (calls place).action) (Threads.start init place)
      threads) : threads.state.Exact := by
  refine reached.invariant (fun mailbox _ => mailbox.Exact) rfl ?_
  rintro _ _ exact step
  cases step with
  | peek mailbox place thread next acts =>
    cases called : calls (place thread) with
    | _ => simp [Call.action, called] at acts
  | guarded mailbox place thread body acts => exact exact.call acts

/-- One thread stores a message and another one pops it. -/
theorem popped_once_pair : ∃ threads : Threads Bool QChatMailbox Nat,
    threads.state.popped = [[sampleMessage]] ∧ threads.state.Exact := by
  let calls : Nat → Call Nat
    | 0 => .storeMessage sampleMessage 2
    | 1 => .popMessages fun _ => 2
    | _ => .none
  let place (thread : Bool) : Nat := if thread then 0 else 1
  have stored := Relation.ReflTransGen.refl.tail
    (show Threads.Atomic (fun place => (calls place).action) (init, place) _ from
      .guarded init place true _ rfl)
  have popped := stored.tail (.guarded _ _ false _ rfl)
  exact ⟨_, rfl, popped_once calls (Threads.Reaches.of_atomic popped)⟩

end QChatMailbox

/-- The queue of a connection, the messages that were appended, and the ones that the
reader has passed on to threads of their own. -/
structure MessageQueue where
  message_queue : List Message
  appended : List Message
  processed : List Message

namespace MessageQueue

variable {Thread : Type}

/-- Where a thread is: at the end of its socket, reading the queue in a loop, about to
pop a message, or through. -/
inductive Place where
  | handling (received : Except Exn Message)
  | reading
  | popping
  | ended
  | raised (error : Exn)

/-- Appends message to the inbound message queue. -/
def _append_message_to_queue (message : Message) : Section MessageQueue Place :=
  .update (fun queue => { queue with
    message_queue := queue.message_queue ++ [message]
    appended := queue.appended ++ [message] }) fun _ => .ended

/-- Removes the oldest message and starts its thread. -/
def _pop_message_from_queue : Section MessageQueue Place :=
  .update (fun queue => { queue with
    message_queue := queue.message_queue.tail
    processed := queue.processed ++ queue.message_queue.head?.toList }) fun queue =>
    if queue.message_queue = [] then .raised .IndexError else .reading

/-- `recv_message` in the loop of `read_from_connection`: the queue is looked at before
the lock is taken. -/
def program : Place → Action MessageQueue Place
  | .handling (.ok message) => .guarded (_append_message_to_queue message)
  | .handling (.error _) => .stop
  | .reading => .peek fun queue => if queue.message_queue = [] then .reading else .popping
  | .popping => .guarded _pop_message_from_queue
  | .ended => .stop
  | .raised _ => .stop

def init : MessageQueue := ⟨[], [], []⟩

variable [DecidableEq Thread] {reader : Thread}

/-- The reader reads, and every other thread has received a message or failed to. No thread but
the reader takes a message out of the queue. -/
structure Started (reader : Thread) (place : Thread → Place) : Prop where
  reads : place reader = .reading
  handles : ∀ thread, thread ≠ reader → ∃ received, place thread = .handling received

/-- Nothing is lost, and the reader pops only what is there: where it has found the queue
filled, it still is, whatever the other threads have done since. -/
structure Sound (reader : Thread) (queue : MessageQueue) (place : Thread → Place) : Prop where
  exact : queue.appended = queue.processed ++ queue.message_queue
  reads : place reader = .reading ∨ place reader = .popping ∧ queue.message_queue ≠ []
  handles : ∀ thread, thread ≠ reader →
    (∃ received, place thread = .handling received) ∨ place thread = .ended

omit [DecidableEq Thread] in
theorem Started.sound {place : Thread → Place} (started : Started reader place) :
    Sound reader init place :=
  ⟨rfl, Or.inl started.reads, fun thread other => Or.inl (started.handles thread other)⟩

/-- The reader looks at the queue. -/
theorem Sound.peek {queue : MessageQueue} {place : Thread → Place}
    (sound : Sound reader queue place) {thread : Thread} {next : MessageQueue → Place}
    (acts : program (place thread) = .peek next) :
    Sound reader queue (update place thread (next queue)) := by
  obtain rfl : thread = reader := by
    by_contra other
    rcases sound.handles thread other with ⟨received | message, here⟩ | here
    · simp [program, here] at acts
    · simp [program, here] at acts
    · simp [program, here] at acts
  rcases sound.reads with here | ⟨here, -⟩
  · obtain rfl : next = _ := (Action.peek.inj (by simpa [program, here] using acts)).symm
    refine ⟨sound.exact, ?_, fun other apart => ?_⟩
    · by_cases empty : queue.message_queue = []
      · simp [empty]
      · simp [empty]
    · simpa [apart] using sound.handles other apart
  · simp [program, here] at acts

/-- A thread appends its message. -/
theorem Sound.append {queue : MessageQueue} {place : Thread → Place}
    (sound : Sound reader queue place) {thread : Thread} (other : thread ≠ reader)
    (message : Message) :
    Sound reader ((_append_message_to_queue message).run queue).1
      (update place thread ((_append_message_to_queue message).run queue).2) := by
  refine ⟨?_, ?_, fun party apart => ?_⟩
  · change queue.appended ++ [message] = queue.processed ++ (queue.message_queue ++ [message])
    rw [sound.exact, List.append_assoc]
  · rw [Function.update_of_ne (Ne.symm other)]
    exact sound.reads.imp_right fun waits => ⟨waits.1, by simp [_append_message_to_queue]⟩
  · by_cases same : party = thread
    · subst same
      exact Or.inr (by simp [_append_message_to_queue])
    · simpa [same] using sound.handles party apart

/-- What the reader has seen is still there when it pops. -/
theorem Sound.pop {queue : MessageQueue} {place : Thread → Place}
    (sound : Sound reader queue place) (present : queue.message_queue ≠ []) :
    Sound reader (_pop_message_from_queue.run queue).1
      (update place reader (_pop_message_from_queue.run queue).2) := by
  obtain ⟨message, others, whole⟩ := List.exists_cons_of_ne_nil present
  refine ⟨?_, Or.inl ?_, fun party apart => ?_⟩
  · simp [_pop_message_from_queue, whole, sound.exact]
  · simp [_pop_message_from_queue, whole]
  · simpa [apart] using sound.handles party apart

theorem Sound.step {before after : MessageQueue × (Thread → Place)}
    (sound : Sound reader before.1 before.2) (step : Threads.Atomic program before after) :
    Sound reader after.1 after.2 := by
  cases step with
  | peek queue place thread next acts => exact sound.peek acts
  | guarded queue place thread body acts =>
    dsimp only at sound ⊢
    by_cases same : thread = reader
    · subst same
      rcases sound.reads with here | ⟨here, present⟩
      · simp [program, here] at acts
      · obtain rfl : _pop_message_from_queue = body := by simpa [program, here] using acts
        exact sound.pop present
    · rcases sound.handles thread same with ⟨error | message, here⟩ | here
      · simp [program, here] at acts
      · obtain rfl : _append_message_to_queue message = body := by
          simpa [program, here] using acts
        exact sound.append same message
      · simp [program, here] at acts

/-- With one reader, however the threads interleave: the pop never fails on an empty queue, and
the reader passes on every appended message once, in their order. The check comes before the
lock is taken, so this needs that nobody else pops. -/
theorem processed_once {place : Thread → Place} (started : Started reader place)
    {threads : Threads Thread MessageQueue Place}
    (reached : Threads.Reaches program (Threads.start init place) threads) :
    (∀ thread error, threads.place thread ≠ .raised error) ∧
      threads.state.appended = threads.state.processed ++ threads.state.message_queue := by
  have sound : Sound reader threads.state threads.place :=
    reached.invariant (Sound reader) started.sound fun _ _ holds step => holds.step step
  refine ⟨?_, sound.exact⟩
  intro thread error failed
  by_cases same : thread = reader
  · subst same
    rcases sound.reads with here | ⟨here, -⟩
    · cases here.symm.trans failed
    · cases here.symm.trans failed
  · rcases sound.handles thread same with ⟨received, here⟩ | here
    · cases here.symm.trans failed
    · cases here.symm.trans failed

/-- A handler appends a message, and the reader finds it. -/
theorem processed_once_pair : ∃ threads : Threads Bool MessageQueue Place,
    threads.state.processed = [sampleMessage] ∧
      (∀ thread error, threads.place thread ≠ .raised error) ∧
      threads.state.appended = threads.state.processed ++ threads.state.message_queue := by
  let place (thread : Bool) : Place := if thread then .reading else .handling (.ok sampleMessage)
  have started : Started true place := by
    refine ⟨rfl, fun thread other => ⟨.ok sampleMessage, ?_⟩⟩
    simp [place, other]
  have appended := Relation.ReflTransGen.refl.tail
    (show Threads.Atomic program (init, place) _ from .guarded init place false _ rfl)
  have popped := (appended.tail (.peek _ _ true _ rfl)).tail (.guarded _ _ true _ rfl)
  have found := processed_once started (Threads.Reaches.of_atomic popped)
  exact ⟨_, rfl, found⟩

end MessageQueue

end QChat
