import QChat.Signing

/-!
# The outbound queue

All messages of a client go through one queue. A thread takes the pairs out one by
one and calls `sendMessage`. Nothing catches what a call raises, so the first call
that raises ends the thread, and what is put on the queue stays there.

What a call meets is not decided by the queue: the node at its start, the answer
of the registry and what the socket does are given for every call.
-/

namespace QChat

/-- A pair on the outbound queue: a user and the message for it. -/
abbrev Outbound : Type := String × Message

/-- What a call of `sendMessage` meets: the node at its start, what becomes of it
until the wait for the registry's answer is over, and what its writes come to. -/
structure Surroundings where
  node : Node
  wait : Node → Node
  socket : Except Exn Unit

/-- The result of a call of `sendMessage`: it raises, or one of its writes does. -/
def QChatCore.sendResult (self : QChatCore) (around : Surroundings) (pair : Outbound) :
    Except Exn Unit := do
  (self.sendMessage around.wait pair.1 (around.node, pair.2)).1
  around.socket

/-- A call for a user that the registry does not name in time raises. -/
theorem QChatCore.sendResult_unknown (self : QChatCore) (around : Surroundings) {user : String}
    (message : Message) (named : user ≠ "*")
    (unknown : around.node.userDB.hasUser (.str user) = false)
    (unanswered : (around.wait (self.requestUserInfo user around.node).2).userDB.hasUser
      (.str user) = false) :
    ∃ exception, self.sendResult around (user, message) = .error exception := by
  have unresolved : ∃ exception after,
      self.resolveUser around.wait user around.node = (.error exception, after) := by
    simp only [resolveUser, Method.get_bind, unknown, Bool.false_eq_true, if_false]
    cases asked : self.requestUserInfo user around.node with
    | mk result after =>
      rw [asked] at unanswered
      cases result with
      | error exception => exact ⟨exception, after, by rw [Method.bind_apply, asked]⟩
      | ok done =>
        rw [Method.bind_of_ok asked]
        simp only [Method.modify_bind, Method.get_bind, named, unanswered, Bool.false_eq_true,
          or_self, if_false, Method.raise_apply]
        exact ⟨_, _, rfl⟩
  obtain ⟨exception, after, raised⟩ := unresolved
  have first : Method.onFirst (self.resolveUser around.wait user) (around.node, message) =
      (.error exception, (after, message)) := by
    simp only [Method.onFirst, raised]
  refine ⟨exception, ?_⟩
  have sent : (self.sendMessage around.wait user (around.node, message)).1 = .error exception := by
    rw [sendMessage, Method.bind_apply, first]
  simp only [sendResult, sent, error_bind]

/-- The outbound queue and its thread: what is still to be put, what is on the queue,
the calls made so far, and whether the thread is alive. -/
structure Sender where
  coming : List Outbound
  outbound_queue : List Outbound
  calls : List Outbound
  alive : Bool

/-- What happens at the outbound queue: the next pair is put there by one thread, or the first
one is taken out and sent by the other. -/
inductive Queueing where
  | put
  | send
deriving DecidableEq, Repr

namespace Sender

/-- At the start nothing has been put. -/
def start (pairs : List Outbound) : Sender := ⟨pairs, [], [], true⟩

/-- The next pair is put on the queue. -/
def put (sender : Sender) : Option Sender :=
  match sender.coming with
  | [] => none
  | pair :: coming =>
    some { sender with coming := coming, outbound_queue := sender.outbound_queue ++ [pair] }

variable (core : QChatCore) (around : Nat → Surroundings)

/-- Method for daemon thread, empties the outbound queue: one turn of its loop. -/
def send_outbound_messages (sender : Sender) : Option Sender :=
  match sender.alive, sender.outbound_queue with
  | true, (user, message) :: rest =>
    let called := { sender with
      outbound_queue := rest, calls := sender.calls ++ [(user, message)] }
    match core.sendResult (around sender.calls.length) (user, message) with
    | .ok () => some called
    | .error _ => some { called with alive := false }
  | _, _ => none

/-- A step of the queue or of its thread. -/
def Step (before : Sender) (event : Queueing) (after : Sender) : Prop :=
  match event with
  | .put => before.put = some after
  | .send => before.send_outbound_messages core around = some after

/-- Everything has been put, and the thread does nothing any more. -/
def Finished (sender : Sender) : Prop :=
  ∀ event after, ¬ Step core around sender event after

/-- The `n`th pair can be sent. -/
def Sendable (pairs : List Outbound) (n : Nat) : Prop :=
  ∀ pair ∈ pairs[n]?, core.sendResult (around n) pair = .ok ()

/-- What a turn of the thread does. -/
theorem send_cases {before after : Sender}
    (turn : before.send_outbound_messages core around = some after) :
    before.alive = true ∧ ∃ pair rest, before.outbound_queue = pair :: rest ∧
      after.coming = before.coming ∧ after.outbound_queue = rest ∧
      after.calls = before.calls ++ [pair] ∧
      (after.alive = true ↔ core.sendResult (around before.calls.length) pair = .ok ()) := by
  obtain ⟨coming, outbound_queue, calls, alive⟩ := before
  cases alive with
  | false => cases turn
  | true =>
    cases outbound_queue with
    | nil => cases turn
    | cons pair rest =>
      refine ⟨rfl, pair, rest, rfl, ?_⟩
      simp only [send_outbound_messages] at turn
      cases result : core.sendResult (around calls.length) pair with
      | ok done =>
        rw [result] at turn
        cases turn
        exact ⟨rfl, rfl, rfl, iff_of_true rfl rfl⟩
      | error exception =>
        rw [result] at turn
        cases turn
        exact ⟨rfl, rfl, rfl, iff_of_false Bool.false_ne_true nofun⟩

/-- What holds at all times: the pairs were called in order, the others wait in order,
and the thread lives as long as no call has raised. -/
structure Consistent (pairs : List Outbound) (sender : Sender) : Prop where
  whole : sender.calls ++ (sender.outbound_queue ++ sender.coming) = pairs
  earlier : ∀ n, n + 1 < sender.calls.length → Sendable core around pairs n
  living : sender.alive = true ↔ ∀ n < sender.calls.length, Sendable core around pairs n

variable {core around} {pairs : List Outbound}

theorem consistent_start : Consistent core around pairs (start pairs) where
  whole := rfl
  earlier := fun _ below => absurd below (Nat.not_lt_zero _)
  living := iff_of_true rfl fun _ below => absurd below (Nat.not_lt_zero _)

/-- The called pair is the one after those called before. -/
theorem Consistent.next {sender : Sender} (consistent : Consistent core around pairs sender)
    {pair : Outbound} {rest : List Outbound} (queued : sender.outbound_queue = pair :: rest) :
    pairs[sender.calls.length]? = some pair := by
  rw [← consistent.whole, queued, List.getElem?_append_right (Nat.le_refl _), Nat.sub_self]
  rfl

theorem Consistent.step {before after : Sender} {event : Queueing}
    (consistent : Consistent core around pairs before)
    (stepped : Step core around before event after) : Consistent core around pairs after := by
  cases event with
  | put =>
    obtain ⟨coming, outbound_queue, calls, alive⟩ := before
    cases coming with
    | nil => cases stepped
    | cons pair coming =>
      cases stepped
      refine ⟨?_, consistent.earlier, consistent.living⟩
      rw [← consistent.whole]
      simp only [List.append_assoc, List.cons_append, List.nil_append]
  | send =>
    obtain ⟨alive, pair, rest, queued, coming, queue, calls, result⟩ := send_cases core around stepped
    have sendable := consistent.living.mp alive
    have here : Sendable core around pairs before.calls.length ↔
        core.sendResult (around before.calls.length) pair = .ok () := by
      simp only [Sendable, consistent.next queued, Option.mem_some_iff, forall_eq']
    have length : after.calls.length = before.calls.length + 1 := by
      rw [calls, List.length_append, List.length_singleton]
    refine ⟨?_, ?_, ?_⟩
    · rw [← consistent.whole, calls, queue, coming, queued]
      simp only [List.append_assoc, List.cons_append, List.nil_append]
    · intro n below
      exact sendable n (by omega)
    · rw [result, ← here, length]
      constructor
      · intro last n below
        rcases Nat.lt_succ_iff_lt_or_eq.mp below with earlier | rfl
        · exact sendable n earlier
        · exact last
      · intro each
        exact each _ (Nat.lt_succ_self _)

theorem consistent_run {steps : List (Sender × Queueing)} {final : Sender}
    (run : Run (Step core around) (start pairs) steps final) :
    Consistent core around pairs final :=
  run.invariant (Consistent core around pairs) consistent_start
    fun _ _ _ _ stepped consistent => consistent.step stepped

/-- A thread that is over leaves the queue as it is: it has raised, or all is sent. -/
theorem Finished.cases {sender : Sender} (finished : Finished core around sender) :
    sender.coming = [] ∧ (sender.alive = false ∨ sender.outbound_queue = []) := by
  obtain ⟨coming, outbound_queue, calls, alive⟩ := sender
  constructor
  · cases coming with
    | nil => rfl
    | cons pair coming => exact absurd rfl (finished .put _)
  · cases alive with
    | false => exact Or.inl rfl
    | true =>
      cases outbound_queue with
      | nil => exact Or.inr rfl
      | cons pair rest =>
        have stuck := finished .send
        simp only [Step, send_outbound_messages] at stuck
        cases result : core.sendResult (around calls.length) pair with
        | ok done =>
          rw [result] at stuck
          exact absurd rfl (stuck _)
        | error exception =>
          rw [result] at stuck
          exact absurd rfl (stuck _)

/-- From any state the queue and its thread come to an end. -/
theorem exists_finished {steps : List (Sender × Queueing)} (sender : Sender)
    (run : Run (Step core around) (start pairs) steps sender) :
    ∃ steps final, Run (Step core around) (start pairs) steps final ∧
      Finished core around final := by
  by_cases finished : Finished core around sender
  · exact ⟨steps, sender, run, finished⟩
  · simp only [Finished, not_forall, not_not] at finished
    obtain ⟨event, after, stepped⟩ := finished
    have fewer : 2 * after.coming.length + after.outbound_queue.length <
        2 * sender.coming.length + sender.outbound_queue.length := by
      cases event with
      | put =>
        obtain ⟨coming, outbound_queue, calls, alive⟩ := sender
        cases coming with
        | nil => cases stepped
        | cons pair coming =>
          cases stepped
          simp only [List.length_append, List.length_cons, List.length_nil]
          omega
      | send =>
        obtain ⟨_, pair, rest, queued, coming, queue, _⟩ := send_cases core around stepped
        simp only [coming, queue, queued, List.length_cons]
        omega
    exact exists_finished after (run.snoc stepped)
termination_by 2 * sender.coming.length + sender.outbound_queue.length

/-- At any time the calls are the first of the pairs, each once and in order. In the end they
are all the pairs exactly if no pair that others follow makes `sendMessage` raise: the thread
ends with the first exception and the queue keeps the rest. -/
theorem send_outbound_exact (core : QChatCore) (around : Nat → Surroundings)
    (pairs : List Outbound) {steps : List (Sender × Queueing)} {final : Sender}
    (run : Run (Step core around) (start pairs) steps final) :
    final.calls <+: pairs ∧
    (Finished core around final → (final.calls = pairs ↔
      ∀ n, n + 1 < pairs.length → Sendable core around pairs n)) := by
  have consistent := consistent_run run
  have initial : final.calls <+: pairs := ⟨_, consistent.whole⟩
  refine ⟨initial, fun finished => ?_⟩
  obtain ⟨put, sent⟩ := finished.cases
  constructor
  · intro all n below
    exact consistent.earlier n (by rwa [all])
  · intro sendable
    rcases sent with dead | empty
    · -- The call that raised was the last one, so it was the call of the last pair.
      have raised : ¬ ∀ n < final.calls.length, Sendable core around pairs n := by
        rw [← consistent.living, dead]
        exact Bool.false_ne_true
      push Not at raised
      obtain ⟨n, called, failing⟩ := raised
      have last : ¬ n + 1 < pairs.length := fun below => failing (sendable n below)
      exact initial.eq_of_length_le (by omega)
    · have whole := consistent.whole
      rwa [put, empty, List.append_nil, List.append_nil] at whole

end Sender

/-- A message for a user nobody knows, and one that can be sent. -/
def samplePairs : List Outbound := [("carol", sampleObject), ("bob", sampleObject)]

/-- The registry does not answer, and the sockets work. -/
def noAnswer (_ : Nat) : Surroundings := ⟨sampleSender, id, .ok ()⟩

theorem noAnswer_carol : ∃ exception,
    sampleSigner.sendResult (noAnswer 0) ("carol", sampleObject) = .error exception := by
  have unknown : sampleSender.userDB.hasUser (.str "carol") = false := rfl
  have asked := (sampleSigner.requestUserInfo_untouched sampleSender "carol").userDB
  exact sampleSigner.sendResult_unknown (noAnswer 0) sampleObject (by decide) unknown
    (by simp only [noAnswer, id, asked, unknown])

theorem noAnswer_bob : sampleSigner.sendResult (noAnswer 1) ("bob", sampleObject) = .ok () := by
  have sent := congrArg Prod.fst
    (sampleSigner.sendMessage_resolved (sampleSender_addressed.resolves id) sampleObject)
  simp only [QChatCore.sendResult, noAnswer, sent]
  rfl

/-- The queue after the first call. -/
def stopped : Sender := ⟨[], [("bob", sampleObject)], [("carol", sampleObject)], false⟩

theorem stopped_reached :
    ∃ steps, Run (Sender.Step sampleSigner noAnswer) (Sender.start samplePairs) steps stopped := by
  obtain ⟨exception, raised⟩ := noAnswer_carol
  have queued : Run (Sender.Step sampleSigner noAnswer) (Sender.start samplePairs) _
      ⟨[], samplePairs, [], true⟩ :=
    .snoc (.snoc .nil (show Sender.Step _ _ _ .put _ from rfl))
      (show Sender.Step _ _ _ .put _ from rfl)
  have called : Sender.Step sampleSigner noAnswer ⟨[], samplePairs, [], true⟩ .send stopped := by
    simp only [Sender.Step, Sender.send_outbound_messages, samplePairs, List.length_nil, raised]
    rfl
  exact ⟨_, queued.snoc called⟩

theorem stopped_finished : Sender.Finished sampleSigner noAnswer stopped := by
  intro event after stepped
  cases event <;> cases stepped

/-- The second message could be sent and never is: the first ended the thread. -/
theorem second_pair_not_sent :
    Sender.Sendable sampleSigner noAnswer samplePairs 1 ∧
    ∃ steps final, Run (Sender.Step sampleSigner noAnswer) (Sender.start samplePairs) steps final ∧
      Sender.Finished sampleSigner noAnswer final ∧ final.calls ≠ samplePairs := by
  constructor
  · rintro pair ⟨⟩
    exact noAnswer_bob
  · obtain ⟨steps, run⟩ := stopped_reached
    refine ⟨steps, stopped, run, stopped_finished, ?_⟩
    intro same
    cases congrArg List.length same

theorem send_outbound_exact_stopped :
    stopped.calls <+: samplePairs ∧
    (stopped.calls = samplePairs ↔ ∀ n, n + 1 < samplePairs.length →
      Sender.Sendable sampleSigner noAnswer samplePairs n) := by
  obtain ⟨steps, run⟩ := stopped_reached
  have outcome := Sender.send_outbound_exact sampleSigner noAnswer samplePairs run
  exact ⟨outcome.1, outcome.2 stopped_finished⟩

end QChat
