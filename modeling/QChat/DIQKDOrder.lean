import QChat.BB84Session
import QChat.DeviceRecord
import QChat.Passes

/-!
# Device independent sessions and the order of deliveries

A leader and a follower of `DIQKD` from the handshake to the end. In the device
test the leader sends the test rounds and its outcomes for them one after the
other, without waiting for an answer in between. As long as the outcomes are not
delivered before the rounds, every message a party takes is the one it expects;
a run in which they are is shown to fail.
-/

namespace QChat

open Bits Process

/-- An ordinary computation uses no port. -/
theorem attempt_portless {α : Type} (outcome : Except Exn α) :
    (attempt outcome : Program α).portless := by
  cases outcome <;> trivial

theorem send_portless (self : Endpoint) (data : List (String × Value))
    (message_type : MessageClass) :
    (self._send_control_message data message_type : Program Unit).portless :=
  portless_bind _ _ (attempt_portless _) fun _ => trivial

theorem wait_portless (message_type : MessageClass) :
    (_wait_for_control_message message_type : Program Message).portless := by
  intro message
  dsimp only
  split <;> trivial

theorem exchange_portless (self : Endpoint) (data : List (String × Value))
    (message_type : MessageClass) :
    (self.exchange_messages data message_type : Program Message).portless := by
  unfold Endpoint.exchange_messages
  cases self.role with
  | lead => exact portless_bind _ _ (send_portless self data message_type) fun _ => wait_portless _
  | follow =>
    exact portless_bind _ _ (wait_portless _) fun _ =>
      portless_bind _ _ (send_portless self data message_type) fun _ => trivial

theorem require_portless (m : Message) (key failure : String) :
    (Endpoint.require m key failure : Program Unit).portless := by
  refine portless_bind _ _ (attempt_portless _) fun value => ?_
  split <;> trivial

/-- Reconciliation and amplification use messages only. -/
theorem syndrome_portless (self : Endpoint) (codeword : List Bit) :
    (BB84_Purified.syndrome self codeword).portless := by
  unfold BB84_Purified.syndrome
  cases self.role with
  | lead =>
    refine portless_bind _ _ (attempt_portless _) fun s => ?_
    refine portless_bind _ _ (exchange_portless _ _ _) fun m => ?_
    exact portless_bind _ _ (require_portless _ _ _) fun _ => trivial
  | follow => exact portless_bind _ _ (exchange_portless _ _ _) fun m => attempt_portless _

theorem reconcile_portless (self : Endpoint) (chunks : List (List Bit)) (reconciled : List Bit) :
    (BB84_Purified.reconcile_loop self chunks reconciled).portless := by
  induction chunks generalizing reconciled with
  | nil => trivial
  | cons codeword rest inductionHypothesis =>
    unfold BB84_Purified.reconcile_loop
    split
    · trivial
    · refine portless_bind _ _ (syndrome_portless self codeword) fun s => ?_
      exact portless_bind _ _ (attempt_portless _) fun corrected => inductionHypothesis _

theorem amplify_portless (self : Endpoint) (attempts : Nat) (X : Bytes) :
    (BB84_Purified._amplify_privacy self attempts X).portless := by
  unfold BB84_Purified._amplify_privacy
  cases self.role with
  | lead =>
    refine portless_bind _ _ (attempt_portless _) fun temp => ?_
    refine portless_bind _ _ (attempt_portless _) fun R => ?_
    refine portless_bind _ _ (attempt_portless _) fun T => ?_
    refine portless_bind _ _ (exchange_portless _ _ _) fun m => ?_
    refine portless_bind _ _ (attempt_portless _) fun ack => ?_
    split <;> trivial
  | follow =>
    refine portless_bind _ _ (wait_portless _) fun m => ?_
    refine portless_bind _ _ (attempt_portless _) fun Y => ?_
    refine portless_bind _ _ (attempt_portless _) fun T => ?_
    refine portless_bind _ _ (attempt_portless _) fun temp => ?_
    refine portless_bind _ _ (attempt_portless _) fun tag => ?_
    split
    · refine portless_bind _ _ (attempt_portless _) fun R => ?_
      exact portless_bind _ _ (send_portless _ _ _) fun _ => trivial
    · exact portless_bind _ _ (send_portless _ _ _) fun _ => trivial

/-- A leader and a follower with their devices, on the same interpreter: they visit a set of
rounds in one order. What the devices measure is free. -/
structure DeviceParties extends Parties where
  device : Side → DeviceChances
  common : (device .follow).visits = (device .lead).visits

/-- The leader's test rounds must be delivered before its outcomes for them. -/
def roundsFirst (earlier later : Message) : Prop :=
  (earlier.cls = .DQKDMessage ∧ ∃ T, earlier.data.item "T" = .ok T) ∧
    later.cls = .DQKDMessage ∧ ∃ x_T, later.data.item "x_T" = .ok x_T

/-- The errors of a failed device test. -/
def testErrors (error : Exn) : Prop :=
  error = .ZeroDivisionError ∨ error = DIQKD.test_failure

/-- Rounds come before outcomes, and both parties may end with the given errors. -/
def deviceTerms (fails : (Side → Exn) → Prop) : Terms Message Side Unit Exn where
  wiring := sourceWiring
  blocks := roundsFirst
  prompt := False
  fails := fails

/-- A device test may fail on both sides. -/
abbrev testTerms : Terms Message Side Unit Exn :=
  deviceTerms fun errors => ∀ side, testErrors (errors side)

namespace DeviceParties

variable (users : DeviceParties)

/-- The protocol object of a party. -/
def endpoint (side : Side) : Endpoint := users.toPeers.endpoint .DIQKD (.num users.key_size) side

/-- Another pass of a running object. -/
def pass (side : Side) (inst : Instance) : Option (Program Instance) :=
  (DIQKD.execute inst.self (users.device side) inst.execution).map fun body => do
    let execution ← body
    return ⟨inst.self, execution⟩

/-- The leader establishes its role and starts; the follower waits to be asked. -/
def session : Side → Program Instance
  | .lead => do
    (users.endpoint .lead)._lead_protocol
    return ⟨users.endpoint .lead, .running .init⟩
  | .follow => do
    let self ← QChatClient._follow_protocol (users.name .follow) (users.chances .follow)
    return ⟨self, .running .init⟩

/-- The states of a session, under any order of its steps and deliveries. -/
def Reachable (state : Duet Message Side Unit Exn Instance) : Prop :=
  Duet.Reaches users.pass (Duet.start users.session) state

/-- The states of the runs that never deliver outcomes past their rounds. -/
def ReachableInOrder (state : Duet Message Side Unit Exn Instance) : Prop :=
  Duet.ReachesInOrder roundsFirst users.pass (Duet.start users.session) state

/-- The inherited methods do not depend on the class of the object. -/
theorem reconcile_inherited (side : Side) (x : List Bit) :
    BB84_Purified._reconcile_information (users.endpoint side) x =
      BB84_Purified._reconcile_information (users.toParties.endpoint side) x := by
  have words (codeword : List Bit) : BB84_Purified.syndrome (users.endpoint side) codeword =
      BB84_Purified.syndrome (users.toParties.endpoint side) codeword := by
    cases side <;> rfl
  have loops (chunks : List (List Bit)) (reconciled : List Bit) :
      BB84_Purified.reconcile_loop (users.endpoint side) chunks reconciled =
        BB84_Purified.reconcile_loop (users.toParties.endpoint side) chunks reconciled := by
    induction chunks generalizing reconciled with
    | nil => rfl
    | cons codeword rest inductionHypothesis =>
      simp only [BB84_Purified.reconcile_loop, words, inductionHypothesis]
  exact loops _ _

theorem amplify_inherited (side : Side) (attempts : Nat) (X : Bytes) :
    BB84_Purified._amplify_privacy (users.endpoint side) attempts X =
      BB84_Purified._amplify_privacy (users.toParties.endpoint side) attempts X := by
  cases side <;> rfl

/-- A follower with rounds left waits for its half of the next pair, then for the
leader's message. -/
theorem receive_calm (round : Nat) (theta : List Nat) (x : List Bit) :
    (DIQKD.receive_loop (users.endpoint .follow) (users.device .follow) round theta x).calm
      fun _ => True := by
  cases theta with
  | nil => trivial
  | cons basis rest =>
    intro half
    exact users.toPeers.exchange_calm _ _ _ _

/-- The bases of a round of a party; the follower has one more to choose from. -/
def bases (round : Nat) (side : Side) (i : Nat) : Nat :=
  randint (side.select 1 2) ((users.device side).basis round i)

/-- The outcomes of a party at the first positions of a round. -/
def measured (round position : Nat) (side : Side) : List Bit :=
  (List.range position).map ((users.device side).measure round)

theorem measured_next (round position : Nat) (side : Side) :
    users.measured round position side ++ [(users.device side).measure round position] =
      users.measured round (position + 1) side := by
  simp [measured, List.range_succ]

/-- Distributing the pairs still missing completes the outcomes of both parties. -/
theorem distribute_triple (fails : (Side → Exn) → Prop) (round : Nat) (leading following : List Nat)
    (same : following.length = leading.length) (position : Nat)
    (count : position + leading.length = ROUND_SIZE) :
    Triple (deviceTerms fails) (fun _ _ _ => True) (fun _ => True)
      (Side.select
        (DIQKD.distribute_loop (users.endpoint .lead) (users.device .lead) round leading
          (users.measured round position .lead))
        (DIQKD.receive_loop (users.endpoint .follow) (users.device .follow) round following
          (users.measured round position .follow)))
      (fun results => ∀ side, results side = users.measured round ROUND_SIZE side) := by
  induction leading generalizing following position with
  | nil =>
    obtain rfl : following = [] := List.length_eq_zero_iff.mp same
    obtain rfl : position = ROUND_SIZE := count
    have both : Side.select
        (DIQKD.distribute_loop (users.endpoint .lead) (users.device .lead) round []
          (users.measured round ROUND_SIZE .lead))
        (DIQKD.receive_loop (users.endpoint .follow) (users.device .follow) round []
          (users.measured round ROUND_SIZE .follow)) =
        fun side => .done (users.measured round ROUND_SIZE side) := by
      funext side
      cases side <;> rfl
    rw [both]
    exact Triple.done _ fun _ => rfl
  | cons basis leading inductionHypothesis =>
    obtain ⟨other, following, rfl⟩ : ∃ other rest, following = other :: rest := by
      cases following with
      | nil => cases same
      | cons other rest => exact ⟨other, rest, rfl⟩
    simp only [List.length_cons, Nat.add_right_cancel_iff] at same
    simp only [List.length_cons] at count
    have length (side : Side) : (users.measured round position side).length = position := by
      simp [measured]
    let next : Side → Message → Program (List Bit) :=
      Side.select
        (fun m => do
          Endpoint.require m "ack" "Error distributing DI states"
          DIQKD.distribute_loop (users.endpoint .lead) (users.device .lead) round leading
            (users.measured round (position + 1) .lead))
        (fun m => do
          Endpoint.require m "ack" "Error receiving DI states"
          DIQKD.receive_loop (users.endpoint .follow) (users.device .follow) round following
            (users.measured round (position + 1) .follow))
    refine Triple.share id (fun _ => ()) (fun side _ =>
      (users.endpoint side).exchange_messages [("ack", .bool true)] .DQKDMessage >>= next side)
      (by decide) id (fun _ => rfl) (fun _ => rfl) (fun _ => trivial) (by
        simp only [Side.select_lead, DIQKD.distribute_loop, Endpoint.requestEPR,
          Endpoint.receiveEPR, signal_bind, done_bind, await_bind, length, measured_next]
        rfl) (by
        simp only [Side.select_follow, DIQKD.receive_loop, Endpoint.receiveEPR, done_bind,
          await_bind, length, measured_next]
        rfl) ?_
    intro ended rests
    obtain rfl : ended = _ := funext rests
    refine Triple.exchange_messages users.toPeers (fun _ => [("ack", .bool true)]) .DQKDMessage next
      _ ?_ ?_
    · simp only [next, Side.select_follow, Peers.require_message, done_bind]
      exact users.receive_calm _ _ _
    · have both : (fun side => next side
          (users.toPeers.message side.other .DQKDMessage [("ack", .bool true)])) = Side.select
          (DIQKD.distribute_loop (users.endpoint .lead) (users.device .lead) round leading
            (users.measured round (position + 1) .lead))
          (DIQKD.receive_loop (users.endpoint .follow) (users.device .follow) round following
            (users.measured round (position + 1) .follow)) := by
        funext side
        cases side <;>
          simp only [next, Side.select_lead, Side.select_follow, Peers.require_message, done_bind]
      rw [both]
      exact inductionHypothesis following same (position + 1) (by omega)

/-- The positions the leader samples for testing in a round. -/
def sampled (round : Nat) : List Nat :=
  (users.device .lead).sample round ROUND_SIZE (ROUND_SIZE / 2)

/-- The bases of a round as they are sent. -/
def theta (round : Nat) (side : Side) : List Nat :=
  (List.range ROUND_SIZE).map (users.bases round side)

/-- The positions that are kept. -/
def keptRounds (round : Nat) : List Nat :=
  ((users.device .lead).visits
    ((List.range ROUND_SIZE).filter fun j => j ∉ users.sampled round)).filter
    (DIQKD.matchRound (users.bases round .lead) (users.bases round .follow))

/-- Both parties before the device test of a round. -/
def examinees (round : Nat) : Examinees where
  toPeers := users.toPeers
  key_size := .num users.key_size
  device := users.device
  common := users.common
  round := round
  count := ROUND_SIZE
  measure := fun side => (users.device side).measure round
  basis := users.bases round

/-- Both parties compare bases and test the devices. -/
theorem epr_test_triple (fails : (Side → Exn) → Prop) (round : Nat)
    (expected : ∀ error, (users.examinees round).verdict = .error error → fails fun _ => error) :
    Triple (deviceTerms fails) (fun _ _ _ => True) (fun _ => True)
      (fun side => DIQKD._device_independent_epr_test (users.endpoint side) (users.device side)
        round (users.measured round ROUND_SIZE side) (users.theta round side))
      (fun results => (users.examinees round).verdict = .ok () ∧ ∀ side, results side =
        (users.keptRounds round).map ((users.device side).measure round)) := by
  have blocked : roundsFirst (users.examinees round).rounds_message
      ((users.examinees round).outcomes_message .lead) :=
    ⟨⟨rfl, _, Value.item_single _ _⟩, rfl, _, Value.item_single _ _⟩
  exact (users.examinees round).test_triple _ _ blocked expected

/-- A device test fails with one of its own errors. -/
theorem verdict_errors (round : Nat) (error : Exn)
    (judged : (users.examinees round).verdict = .error error) : testErrors error := by
  rcases DIQKD.verdict_cases (users.bases round .lead) (users.bases round .follow)
    ((users.device .lead).measure round) ((users.device .follow).measure round)
    (users.sampled round) with passed | failed | failed
  · cases judged.symm.trans passed
  · exact Or.inl (Except.error.inj (judged.symm.trans failed))
  · exact Or.inr (Except.error.inj (judged.symm.trans failed))

/-- The distribution of one party. -/
def distribution (round : Nat) : Side → Program (List Bit) :=
  Side.select
    (DIQKD.distribute_loop (users.endpoint .lead) (users.device .lead) round
      (users.theta round .lead) [])
    (DIQKD.receive_loop (users.endpoint .follow) (users.device .follow) round
      (users.theta round .follow) [])

theorem distill_distribution (round : Nat) (side : Side) :
    DIQKD.distill_device_independent_data (users.endpoint side) (users.device side) round =
      (users.distribution round side >>= fun x =>
        DIQKD._device_independent_epr_test (users.endpoint side) (users.device side) round x
          (users.theta round side)) := by
  cases side with
  | lead =>
    simp only [DIQKD.distill_device_independent_data, endpoint, Peers.endpoint_role,
      DIQKD._device_independent_distribute_bb84, bind_assoc, pure_eq, done_bind, distribution,
      Side.select_lead]
    rfl
  | follow =>
    simp only [DIQKD.distill_device_independent_data, endpoint, Peers.endpoint_role,
      DIQKD._device_independent_receive_bb84, bind_assoc, pure_eq, done_bind, distribution,
      Side.select_follow]
    rfl

theorem distribution_triple (fails : (Side → Exn) → Prop) (round : Nat) :
    Triple (deviceTerms fails) (fun _ _ _ => True) (fun _ => True) (users.distribution round)
      (fun results => ∀ side, results side = users.measured round ROUND_SIZE side) := by
  have lengths (side : Side) : (users.theta round side).length = ROUND_SIZE := by simp [theta]
  exact users.distribute_triple fails round (users.theta round .lead) (users.theta round .follow)
    (by rw [lengths, lengths]) 0 (by rw [lengths, Nat.zero_add])

/-- A round adds as many bits to both secrets, or fails for both parties. -/
theorem distill_triple (fails : (Side → Exn) → Prop) (round : Nat)
    (expected : ∀ error, (users.examinees round).verdict = .error error → fails fun _ => error) :
    Triple (deviceTerms fails) (fun _ _ _ => True) (fun _ => True)
      (fun side => DIQKD.distill_device_independent_data (users.endpoint side)
        (users.device side) round)
      (fun results => (users.examinees round).verdict = .ok () ∧ ∀ side, results side =
        (users.keptRounds round).map ((users.device side).measure round)) := by
  simp only [distill_distribution]
  refine Triple.bind (users.distribution_triple _ round)
    (fun x _ => users.toPeers.exchange_calm _ _ _ _) fun results same => ?_
  simp only [same]
  exact users.epr_test_triple fails round expected

/-- Both parties are between the same two passes, or have returned. -/
def Together (results : Side → Execution) : Prop :=
  (∃ progress, Aligned progress ∧ ∀ side, results side = .running (progress side)) ∨
    ∃ keys : Side → Bytes, ∀ side, results side = .finished (keys side)

/-- A round of distillation on both sides. -/
def distill (progress : Side → Progress) (side : Side) : Progress :=
  { progress side with
    secret_bits := (progress side).secret_bits ++
      (users.keptRounds (progress side).rounds).map
        ((users.device side).measure (progress side).rounds)
    rounds := (progress side).rounds + 1 }

theorem distill_aligned (progress : Side → Progress) (aligned : Aligned progress) :
    Aligned (users.distill progress) where
  key := aligned.key
  secret_bits := by
    intro side
    simp only [distill, List.length_append, List.length_map, aligned.secret_bits side,
      aligned.rounds side]
  reconciled := aligned.reconciled
  rounds := fun side => congrArg (· + 1) (aligned.rounds side)
  attempts := aligned.attempts

/-- One pass on both sides leads from one stage to the next, and a pass that distills has
passed its device test. -/
theorem execute_pass_stage (fails : (Side → Exn) → Prop) (progress : Side → Progress)
    (aligned : Aligned progress)
    (expected : Distills users.toParties progress → ∀ error,
      (users.examinees (progress .lead).rounds).verdict = .error error → fails fun _ => error) :
    Triple (deviceTerms fails) (fun _ _ _ => True) (fun _ => True)
      (fun side => DIQKD.execute_pass (users.endpoint side) (users.device side) (progress side))
      (fun results =>
        (∀ side, results side = (advanceBy users.toParties users.distill progress).view side) ∧
        (Distills users.toParties progress →
          (users.examinees (progress .lead).rounds).verdict = .ok ())) := by
  have bound (side : Side) : (users.endpoint side).key_size.exceeds (progress side).key.length =
      .ok (decide (((progress .lead).key.length : Int) < users.key_size)) := by
    rw [aligned.key side]
    rfl
  by_cases more : ((progress .lead).key.length : Int) < users.key_size
  · by_cases few : (progress .lead).reconciled.length < 2 * BYTE_LEN
    · by_cases short : (progress .lead).secret_bits.length < ECC_Golay.codeword_length
      · simp only [DIQKD.execute_pass, bound, attempt_ok, done_bind, decide_eq_true_eq,
          aligned.reconciled, aligned.secret_bits, aligned.rounds, more, few, short, ↓reduceIte]
        refine Triple.bind (users.distill_triple fails (progress .lead).rounds
          (expected ⟨more, few, short⟩)) (fun _ _ => trivial) ?_
        rintro bits ⟨passed, same⟩
        simp only [same, pure_eq]
        refine Triple.done _ ⟨fun side => ?_, fun _ => passed⟩
        rw [advanceBy, if_pos more, if_pos few, if_pos short, Stage.view_running, distill,
          aligned.rounds side]
      · simp only [DIQKD.execute_pass, bound, attempt_ok, done_bind, decide_eq_true_eq,
          aligned.reconciled, aligned.secret_bits, more, few, short, ↓reduceIte,
          reconcile_inherited]
        have runs := QChat.Together._reconcile_information users.toParties
          (fun side => (progress side).secret_bits) aligned.secret_bits
        refine Triple.bind (Triple.of_together runs fun side => reconcile_portless _ _ _)
          (fun _ _ => trivial) fun pairs same => ?_
        simp only [same, pure_eq]
        refine Triple.done _ ⟨fun side => ?_, fun distills => absurd distills.2.2 short⟩
        rw [advanceBy, if_pos more, if_pos few, if_neg short, Stage.view_running]
        rfl
    · have bytes (side : Side) := reconciled_bytes_ok (progress side).reconciled (by
        rw [aligned.reconciled side]
        omega)
      simp only [DIQKD.execute_pass, bound, attempt_ok, done_bind, decide_eq_true_eq,
        aligned.reconciled, aligned.attempts, bytes, more, few, ↓reduceIte, amplify_inherited]
      have runs := QChat.Together._amplify_privacy users.toParties (progress .lead).attempts
        (fun side => firstByte (progress side).reconciled)
        (fun side => secondByte (progress side).reconciled)
      refine Triple.bind (Triple.of_together runs fun side => amplify_portless _ _ _)
        (fun _ _ => trivial) fun byte same => ?_
      simp only [same, pure_eq]
      refine Triple.done _ ⟨fun side => ?_, fun distills => absurd distills.2.1 few⟩
      rw [advanceBy, if_pos more, if_neg few, Stage.view_running]
      simp only [amplify, amplified, accepts, decide_eq_true_eq, aligned.attempts side]
  · simp only [DIQKD.execute_pass, bound, attempt_ok, done_bind, decide_eq_true_eq, more,
      ↓reduceIte, Endpoint._end_protocol, bind_assoc]
    refine Triple.exchange_messages users.toPeers (fun _ => [("FIN", .bool true)]) .DQKDMessage
      (fun side m => do
        Endpoint.require m "FIN" ("Failed to terminate " ++ ProtocolClass.DIQKD.name ++ " protocol")
        return Execution.finished (progress side).key) _ ?_ ?_
    · rw [Peers.require_message]
      trivial
    · simp only [Peers.require_message, done_bind, pure_eq]
      refine Triple.done _ ⟨fun side => ?_, fun distills => absurd distills.1 more⟩
      rw [advanceBy, if_neg more, Stage.view_finished]

/-- One pass on both sides. -/
theorem execute_pass (progress : Side → Progress) (aligned : Aligned progress) :
    Triple testTerms (fun _ _ _ => True) (fun _ => True)
      (fun side => DIQKD.execute_pass (users.endpoint side) (users.device side) (progress side))
      Together := by
  refine Triple.weaken (users.execute_pass_stage _ progress aligned fun _ error judged _ =>
    users.verdict_errors _ error judged) (fun _ known => known) fun results ended => ?_
  cases next : advanceBy users.toParties users.distill progress with
  | finished keys => exact .inr ⟨keys, fun side => by rw [ended.1 side, next, Stage.view_finished]⟩
  | running later =>
    refine .inl ⟨later, ?_, fun side => by rw [ended.1 side, next, Stage.view_running]⟩
    rcases (advanceBy_running next).2 with ⟨-, rfl⟩ | ⟨-, -, rfl⟩ | ⟨-, rfl⟩
    · exact users.distill_aligned progress aligned
    · exact aligned.reconcile
    · exact aligned.amplify users.toParties

/-- Whatever progress a follower has made, it takes a message before it sends one. -/
theorem follow_calm (progress : Progress) :
    (DIQKD.execute_pass (users.endpoint .follow) (users.device .follow) progress).calm
      fun _ => True := by
  have bound : (users.endpoint .follow).key_size.exceeds progress.key.length =
      .ok (decide ((progress.key.length : Int) < users.key_size)) := rfl
  simp only [DIQKD.execute_pass, bound, attempt_ok, done_bind]
  split
  · split
    · split
      · rw [distill_distribution, bind_assoc]
        exact calm_bind _ _ (users.receive_calm _ _ _) fun x _ => by
          rw [DIQKD._device_independent_epr_test, bind_assoc]
          exact users.toPeers.exchange_calm _ _ _ _
      · next enough =>
        obtain ⟨codeword, rest, chunks, width⟩ := Parties.chunk_first progress.secret_bits enough
        simp only [BB84_Purified._reconcile_information, chunks, BB84_Purified.reconcile_loop,
          golay_codeword_length, width, Nat.lt_irrefl, ↓reduceIte, BB84_Purified.syndrome,
          endpoint, Peers.endpoint_role, bind_assoc]
        exact users.toPeers.exchange_calm _ _ _ _
    · next enough =>
      have bytes := reconciled_bytes_ok progress.reconciled (by omega)
      simp only [bytes, attempt_ok, done_bind, BB84_Purified._amplify_privacy, endpoint,
        Peers.endpoint_role, bind_assoc]
      exact Peers.wait_calm _ _ _
  · rw [Endpoint._end_protocol, bind_assoc]
    exact users.toPeers.exchange_calm _ _ _ _

/-- The objects of both parties after a pass. -/
def Final (results : Side → Instance) : Prop :=
  (∀ side, (results side).self = users.endpoint side) ∧
    Together fun side => (results side).execution

/-- The loop of both `execute` methods. -/
def loop : Loop Message Side Unit Exn Instance where
  enter := users.pass
  ready := fun _ _ _ _ => True
  idle := Side.select (fun _ => False) fun inst => inst.self = users.endpoint .follow
  final := fun _ results => users.Final results
  calm := by
    intro side inst body idle again
    cases side with
    | lead => exact False.elim idle
    | follow =>
      obtain ⟨self, execution⟩ := inst
      obtain rfl : self = users.endpoint .follow := idle
      cases execution with
      | finished key => cases again
      | running progress =>
        cases again
        exact calm_bind _ _ (users.follow_calm progress) fun _ _ => rfl

/-- The leader's request is understood as it is meant. -/
theorem protocolRequest_device :
    protocolRequest (.obj [("name", .str ProtocolClass.DIQKD.name),
      ("key_size", .num users.key_size)]) = .ok (.DIQKD, .num users.key_size) := by
  have other : ¬ "key_size" = "name" := by decide
  simp only [protocolRequest, Dict.lookup, Dict.remove, ↓reduceIte,
    ProtocolClass.createProtocol_name, ProtocolClass.isKeyProtocol]

/-- The handshake gives both parties their protocol objects. -/
theorem session_triple (fails : (Side → Exn) → Prop) :
    Triple (deviceTerms fails) (fun _ _ _ => True) (fun inst => inst.self = users.endpoint .follow)
      users.session
      (fun results => ∀ side, results side = ⟨users.endpoint side, .running .init⟩) := by
  have whole : users.session = Side.select
      ((users.endpoint .lead)._lead_protocol >>= fun _ =>
        .done ⟨users.endpoint .lead, .running .init⟩)
      (QChatClient._follow_protocol (users.toPeers.name .follow) (users.toPeers.chances .follow) >>=
        fun self => .done ⟨self, .running .init⟩) := by
    funext side
    cases side <;> rfl
  rw [whole]
  refine Triple.handshake users.toPeers _ users.protocolRequest_device rfl _ _ rfl ?_
  have both : Side.select (.done ⟨users.endpoint .lead, .running .init⟩)
      (.done ⟨users.endpoint .follow, .running .init⟩) = fun side =>
      (.done ⟨users.endpoint side, .running .init⟩ : Program Instance) := by
    funext side
    cases side <;> rfl
  exact both ▸ Triple.done _ fun _ => rfl

/-- Every pass of both parties ends where they can make another one each, or with
both of them returned, or with a failed device test. -/
theorem closed : Scheduled.Closed testTerms users.loop := by
  rintro heads results ⟨objects, ⟨progress, aligned, running⟩ | ⟨keys, finished⟩⟩
  · have here (side : Side) : results side = ⟨users.endpoint side, .running (progress side)⟩ := by
      rw [← objects side, ← running side]
    have body : Triple testTerms (fun _ _ _ => True)
        (fun inst => inst.self = users.endpoint .follow)
        (fun side => do
          let execution ← DIQKD.execute_pass (users.endpoint side) (users.device side)
            (progress side)
          return (⟨users.endpoint side, execution⟩ : Instance)) users.Final := by
      refine Triple.bind (users.execute_pass progress aligned) (fun _ _ => rfl)
        fun ended both => ?_
      exact Triple.done _ ⟨fun _ => rfl, both⟩
    exact .inr ⟨_, fun side => by rw [here]; rfl,
      body.pass (fun _ _ _ _ => trivial) (fun _ known => known) fun _ ends => ends⟩
  · refine .inl fun side => ?_
    have here := finished side
    simp only [loop, pass, here, DIQKD.execute, Option.map_none]

/-- In every run that delivers no outcomes past their rounds the parties are on
schedule. -/
theorem onSchedule {state : Duet Message Side Unit Exn Instance}
    (reached : users.ReachableInOrder state) :
    Scheduled.OnSchedule testTerms users.loop state := by
  have first : Scheduled testTerms users.loop (fun _ => []) (fun _ => []) (fun _ => [])
      users.session := by
    refine (users.session_triple _).pass (fun _ _ _ _ => trivial) (fun _ known => known)
      fun results same => ⟨fun side => by rw [same], .inl ⟨fun _ => .init, ?_, ?_⟩⟩
    · exact ⟨fun _ => rfl, fun _ => rfl, fun _ => rfl, fun _ => rfl, fun _ => rfl⟩
    · exact fun side => congrArg Instance.execution (same side)
  exact (Scheduled.start_onSchedule users.session first).run users.closed reached

/-- Each message a party takes is the one its step expects, in every state of a run that
delivers no outcomes past their rounds: no party has raised an error, and none will over the
message it takes next, unless the device test fails.

Proof: such a run is scheduled: the parties speak in turn, but for the leader's two messages in
the test, and these are kept in order by assumption. In every scheduled state the next message
of a queue is one for which a triple has been shown. -/
theorem messages_expected (state : Duet Message Side Unit Exn Instance)
    (reached : users.ReachableInOrder state) :
    (∀ side error, state.code side = .raised error → testErrors error) ∧
    (∀ side rest message others error, state.code side = .receive rest →
      state.queue side = message :: others → rest message = .raised error → testErrors error) := by
  have expected (later : Duet Message Side Unit Exn Instance)
      (arrived : users.ReachableInOrder later) (side : Side) (error : Exn)
      (failed : later.code side = .raised error) : testErrors error := by
    obtain ⟨pending, stock, -, runs⟩ := users.onSchedule arrived
    obtain ⟨errors, known, rfl⟩ := runs.raised_fails side error failed
    exact known side
  refine ⟨expected state reached, ?_⟩
  intro side rest message others error acts queued failed
  have takes : Duet.Step users.pass state _ :=
    .receive state side message others rest acts queued
  refine expected _ (reached.tail ⟨takes, ?_⟩) side error (by simp [failed])
  -- Taking a message delivers none.
  intro party before delivered after travels left
  have lengths := congrArg List.length (travels.symm.trans left)
  simp at lengths

/-- The object of a party after a first pass with these secret bits. -/
def firstPass (side : Side) (bits : List Bit) : Program Instance :=
  .done ⟨users.endpoint side, .running { Progress.init with secret_bits := bits, rounds := 1 }⟩

/-- The first pass of a session for a positive key size. -/
theorem first_pass (positive : 0 < users.key_size) (side : Side) :
    users.pass side ⟨users.endpoint side, .running .init⟩ =
      some (users.distribution 0 side >>= fun x =>
        DIQKD._device_independent_epr_test (users.endpoint side) (users.device side) 0 x
          (users.theta 0 side) >>= users.firstPass side) := by
  have bound : (users.endpoint side).key_size.exceeds Progress.init.key.length = .ok true := by
    simp only [endpoint, Peers.endpoint, Progress.init, Value.exceeds, List.length_nil,
      Nat.cast_zero, positive, decide_true]
  have few : Progress.init.reconciled.length < 2 * BYTE_LEN := by decide
  have short : Progress.init.secret_bits.length < ECC_Golay.codeword_length := by decide
  simp only [pass, DIQKD.execute, DIQKD.execute_pass, bound, attempt_ok, done_bind, Option.map_some,
    few, short, ↓reduceIte, distill_distribution, bind_assoc, pure_eq]
  rfl

/-- A party that has the peer's bases. -/
def afterBases (side : Side) (m : Message) : Program Instance :=
  (attempt (m.data.item "theta") >>= DIQKD.chsh_test (users.endpoint side) (users.device side) 0
    (users.measured 0 ROUND_SIZE side) (.ofNats (users.theta 0 side))) >>= users.firstPass side

/-- The message with a party's bases. -/
def bases_message (side : Side) : Message :=
  users.toPeers.message side .DQKDMessage [("theta", .ofNats (users.theta 0 side))]

/-- The handshake can be run to its end. -/
theorem reaches_handshake : users.ReachableInOrder
    (.settled (fun _ => []) (fun _ => []) (fun _ => []) fun side =>
      .done ⟨users.endpoint side, .running .init⟩) := by
  obtain ⟨objects, reached, same⟩ | ⟨_, _, _, _, never⟩ :=
    Scheduled.reaches users.pass (users.session_triple fun _ => False) (fun _ => Process.done)
      fun _ => []
  · simp only [bind_done, same] at reached
    exact reached
  · exact False.elim never

/-- A session can be run to where both parties know both bases of the first round
and nothing is on the way. -/
theorem reaches_test (positive : 0 < users.key_size) :
    users.ReachableInOrder (.settled (fun _ => []) (fun _ => [])
      (fun side => [⟨users.endpoint side, .running .init⟩])
      fun side => users.afterBases side (users.bases_message side.other)) := by
  let heads (side : Side) : List Instance := [⟨users.endpoint side, .running .init⟩]
  have entered := users.reaches_handshake.trans (Duet.settled_enter (users.first_pass positive))
  -- The distribution.
  obtain ⟨x, distributed, outcomes⟩ | ⟨_, _, _, _, never⟩ :=
    Scheduled.reaches users.pass (users.distribution_triple (fun _ => False) 0)
      (fun side x => DIQKD._device_independent_epr_test (users.endpoint side) (users.device side) 0
        x (users.theta 0 side) >>= users.firstPass side) heads
  rotate_left
  · exact False.elim never
  -- The exchange of the bases.
  have exchange : Triple (deviceTerms fun _ => False) (fun _ _ _ => True) (fun _ => True)
      (fun side => ((users.endpoint side).exchange_messages
        [("theta", .ofNats (users.theta 0 side))] .DQKDMessage >>= Process.done : Program Message))
      (fun results => ∀ side, results side = users.bases_message side.other) :=
    Triple.exchange_messages users.toPeers (fun side => [("theta", .ofNats (users.theta 0 side))])
      .DQKDMessage (fun _ => Process.done) _ trivial (Triple.done _ fun _ => rfl)
  obtain ⟨answers, exchanged, bases⟩ | ⟨_, _, _, _, never⟩ :=
    Scheduled.reaches users.pass exchange users.afterBases heads
  rotate_left
  · exact False.elim never
  have before : (fun side => DIQKD._device_independent_epr_test (users.endpoint side)
      (users.device side) 0 (x side) (users.theta 0 side) >>= users.firstPass side) =
      fun side => ((users.endpoint side).exchange_messages
        [("theta", .ofNats (users.theta 0 side))] .DQKDMessage >>= Process.done : Program Message) >>=
          users.afterBases side := by
    have unfolded (side : Side) : users.afterBases side = fun m =>
        attempt (m.data.item "theta") >>= fun theta =>
          DIQKD.chsh_test (users.endpoint side) (users.device side) 0
            (users.measured 0 ROUND_SIZE side) (.ofNats (users.theta 0 side)) theta >>=
              users.firstPass side := by
      funext m
      rw [afterBases, bind_assoc]
    funext side
    simp only [DIQKD._device_independent_epr_test, outcomes side, unfolded, bind_done, bind_assoc]
  rw [before] at distributed
  simp only [bases] at exchanged
  exact entered.trans (distributed.trans exchanged)

/-- What a party does with what it has found in the first round. -/
def afterTest (side : Side) (record : DIQKD.TestRecord) : Program Instance :=
  attempt record.outcome >>= users.firstPass side

/-- A party that has the peer's bases makes the test. -/
theorem afterBases_tests (side : Side) :
    users.afterBases side (users.bases_message side.other) =
      DIQKD.examine ((users.examinees 0).endpoint side) (users.device side) 0
        ((users.examinees 0).x side) (.ofNats ((users.examinees 0).theta side))
        (.ofNats ((users.examinees 0).theta side.other)) >>= users.afterTest side := by
  simp only [afterBases, bases_message, Peers.message_data, Value.item_single, attempt_ok,
    done_bind, DIQKD.chsh_test_record, bind_assoc]
  rfl

/-- The leader sends its rounds and its outcomes. -/
theorem afterBases_lead : users.afterBases .lead (users.bases_message .follow) =
    .send (users.examinees 0).rounds_message (.send ((users.examinees 0).outcomes_message .lead)
      (_wait_for_control_message .DQKDMessage >>= (users.examinees 0).expectOutcomes .lead >>=
        users.afterTest .lead)) := by
  have tests := (users.afterBases_tests .lead).trans
    (congrArg (· >>= users.afterTest .lead) (users.examinees 0).lead_examine)
  simpa only [send_bind, Side.other_lead] using tests

/-- The follower waits for the rounds. -/
theorem afterBases_follow : users.afterBases .follow (users.bases_message .lead) = .receive
    (Peers.accept .DQKDMessage fun m =>
      (users.examinees 0).expectRounds m >>= users.afterTest .follow) := by
  have tests := (users.afterBases_tests .follow).trans
    (congrArg (· >>= users.afterTest .follow) (users.examinees 0).follow_examine)
  rwa [bind_assoc, Peers.wait_bind] at tests

/-- If the leader's outcomes are delivered before its rounds, the follower takes
them for the rounds and fails. -/
theorem outcomes_overtake (positive : 0 < users.key_size) :
    ∃ state, users.Reachable state ∧ state.code .follow = .raised (.KeyError "T") := by
  let examinees := users.examinees 0
  have reached := (users.reaches_test positive).reaches
  -- The leader sends both messages, and the second is delivered and taken first.
  refine ⟨_, (((reached.tail (.send _ .lead _ _ users.afterBases_lead)).tail
    (.send _ .lead (examinees.outcomes_message .lead) _ rfl)).tail
    (.deliver _ .follow [examinees.rounds_message] [] (examinees.outcomes_message .lead) rfl)).tail
    (.receive _ .follow (examinees.outcomes_message .lead) [] _ users.afterBases_follow rfl), ?_⟩
  have fails : Peers.accept .DQKDMessage
      (fun m => examinees.expectRounds m >>= users.afterTest .follow)
      (examinees.outcomes_message .lead) = .raised (.KeyError "T") := by
    rw [Examinees.outcomes_message, Peers.accept_message, ← Examinees.outcomes_message,
      Examinees.unexpected_outcomes, raised_bind]
  simpa using fails

/-- A leader and a follower whose devices always report zero. -/
def plainDevices : DeviceParties where
  name := Side.select "alice" "bob"
  short := alice_bob_short
  key_size := 16
  chances := fun _ => ⟨fun _ _ => 0, fun _ _ => 0, fun _ _ => 0, fun _ => 0⟩
  device := fun _ => {
    basis := fun _ _ => 0
    measure := fun _ _ => 0
    sample := fun _ population count => (List.range population).take count
    sample_length := by
      intro _ population count small
      simp [small]
    sample_nodup := fun _ population count => (List.nodup_range).sublist (List.take_sublist _ _)
    sample_lt := fun _ population count j member =>
      List.mem_range.mp (List.mem_of_mem_take member)
    visits := id
    visits_perm := fun _ => .refl _ }
  common := rfl

/-- Messages in flight can be stored in an order in which a party takes one that
lacks the key it reads. -/
theorem reordering_fails :
    ∃ state, plainDevices.Reachable state ∧ state.code .follow = .raised (.KeyError "T") :=
  plainDevices.outcomes_overtake (by decide)

/-- The leader's rounds reach the follower in order, after the handshake, a hundred rounds of
distribution and the exchange of the bases, and the follower does not fail over them. -/
theorem messages_expected_rounds : ∃ (state : Duet Message Side Unit Exn Instance)
    (rest : Message → Program Instance), plainDevices.ReachableInOrder state ∧
    state.code .follow = .receive rest ∧
    state.queue .follow = [(plainDevices.examinees 0).rounds_message] ∧
    ∀ error, rest (plainDevices.examinees 0).rounds_message = .raised error → testErrors error := by
  have reached := (plainDevices.reaches_test (by decide)).trans
    (Duet.settled_send plainDevices.afterBases_lead)
  refine ⟨_, _, reached, plainDevices.afterBases_follow, rfl, fun error fails => ?_⟩
  exact (plainDevices.messages_expected _ reached).2 .follow _ _ [] error
    plainDevices.afterBases_follow rfl fails

end DeviceParties

end QChat
