import QChat.DeviceTest
import QChat.Peers
import QChat.Transcript

/-!
# What both parties find in the device test

The device test with its local variables: a process that returns them, with the
verdict as a value, and makes the test when its outcome is raised or returned. Both
parties end with the same sets, counts and verdict, for any bases and outcomes and
any test rounds the leader draws.
-/

namespace QChat

open Process

namespace DIQKD

/-- The local variables of a device test at its end, and what the test comes to. The test itself
returns nothing of them but its outcome; with the record the two sides can be compared. -/
structure TestRecord where
  Tp : List Value
  Tpp : List Value
  R : List Value
  winning : Nat
  matching : Nat
  outcome : Except Exn (List Bit)

/-- The verdict on the numbers of test rounds. -/
def passes (winning matching Tp Tpp : Nat) : Except Exn Unit := do
  let p_win ← divide winning Tp
  let p_match ← divide matching Tpp
  if p_win < PCHSH - 1 / 10 ∨ p_match < 1 - 1 / 10 then .error test_failure else .ok ()

/-- The rest of the test once the peer's outcomes are there. -/
def conclude (x : List Bit) (theta theta_hat : Value) (T Tp Tpp R : List Value) (x_T : List Bit)
    (m : Message) : Program TestRecord := do
  let x_T_hat ← attempt (do (← m.data.item "x_T").iterate)
  let winning ← attempt (select (wins theta theta_hat Tp) (T.zip (x_T.zip x_T_hat)))
  let matching ← attempt (select (matches_peer Tpp) (T.zip (x_T.zip x_T_hat)))
  return {
    Tp := Tp
    Tpp := Tpp
    R := R
    winning := winning.length
    matching := matching.length
    outcome := do
      passes winning.length matching.length Tp.length Tpp.length
      outcomes_at x R }

/-- The tests of the devices with their local variables. -/
def examine (self : Endpoint) (device : DeviceChances) (round : Nat) (x : List Bit)
    (theta theta_hat : Value) : Program TestRecord := do
  let (T, Tp, Tpp, R) ← split_rounds self device round x theta theta_hat
  let x_T ← attempt (outcomes_at x T)
  let m ← self.exchange_messages [("x_T", .ofBits x_T)] .DQKDMessage
  conclude x theta theta_hat T Tp Tpp R x_T m

/-- `_device_independent_epr_test` with its local variables. -/
def record_epr_test (self : Endpoint) (device : DeviceChances) (round : Nat) (x : List Bit)
    (theta : List Nat) : Program TestRecord := do
  let m ← self.exchange_messages [("theta", .ofNats theta)] .DQKDMessage
  let theta_hat ← attempt (m.data.item "theta")
  examine self device round x (.ofNats theta) theta_hat

/-- Comparing outcomes never fails. -/
theorem select_matches (Tpp : List Value) (entries : List (Value × Bit × Value)) :
    ∃ matching, select (matches_peer Tpp) entries = .ok matching := by
  have each := select_ok (matches_peer Tpp) id
    (fun entry => entry.2.2.equals entry.2.1.val && listed entry.1 Tpp) entries fun _ _ => rfl
  rw [List.map_id] at each
  exact ⟨_, each⟩

/-- The tests of the devices are what their record comes to. -/
theorem chsh_test_record (self : Endpoint) (device : DeviceChances) (round : Nat) (x : List Bit)
    (theta theta_hat : Value) :
    chsh_test self device round x theta theta_hat =
      examine self device round x theta theta_hat >>= fun record => attempt record.outcome := by
  have judged (T Tp Tpp R : List Value) (x_T : List Bit) (x_T_hat : List Value) :
      (attempt (judge theta theta_hat T Tp Tpp x_T x_T_hat) >>= fun _ =>
        attempt (outcomes_at x R) : Program (List Bit)) =
      (do
        let winning ← attempt (select (wins theta theta_hat Tp) (T.zip (x_T.zip x_T_hat)))
        let matching ← attempt (select (matches_peer Tpp) (T.zip (x_T.zip x_T_hat)))
        attempt (do
          passes winning.length matching.length Tp.length Tpp.length
          outcomes_at x R)) := by
    obtain ⟨matching, found⟩ := select_matches Tpp (T.zip (x_T.zip x_T_hat))
    cases won : select (wins theta theta_hat Tp) (T.zip (x_T.zip x_T_hat)) with
    | error exception => simp only [judge, won, error_bind, attempt_error, raised_bind]
    | ok winning =>
      simp only [judge, won, found, ok_bind, attempt_ok, done_bind, passes]
      cases divide winning.length Tp.length with
      | error exception => rfl
      | ok p_win =>
        simp only [ok_bind]
        cases divide matching.length Tpp.length with
        | error exception => rfl
        | ok p_match =>
          simp only [ok_bind]
          split <;> rfl
  simp only [chsh_test, examine, conclude, bind_assoc, pure_eq, done_bind, judged]

/-- The test is what its record comes to. -/
theorem epr_test_record (self : Endpoint) (device : DeviceChances) (round : Nat) (x : List Bit)
    (theta : List Nat) :
    _device_independent_epr_test self device round x theta =
      record_epr_test self device round x theta >>= fun record => attempt record.outcome := by
  simp only [_device_independent_epr_test, record_epr_test, chsh_test_record, bind_assoc]

end DIQKD

/-- Two parties before a device test: their names and choices, the devices, and the outcomes
and bases of some number of rounds. Both go through a set in the same order. -/
structure Examinees extends Peers where
  key_size : Value
  device : Side → DeviceChances
  common : (device .follow).visits = (device .lead).visits
  round : Nat
  count : Nat
  measure : Side → Nat → Bit
  basis : Side → Nat → Nat

namespace Examinees

variable (users : Examinees)

def endpoint (side : Side) : Endpoint := users.toPeers.endpoint .DIQKD users.key_size side

def x (side : Side) : List Bit := (List.range users.count).map (users.measure side)

def theta (side : Side) : List Nat := (List.range users.count).map (users.basis side)

/-- The rounds the leader draws for testing. -/
def T : List Nat := (users.device .lead).sample users.round users.count (users.count / 2)

/-- The test rounds of the game, those of the matching test, and the rounds that are kept. -/
def Tp : List Nat := users.T.filter (DIQKD.chshRound (users.basis .follow))

def Tpp : List Nat := users.T.filter (DIQKD.matchRound (users.basis .lead) (users.basis .follow))

def R : List Nat :=
  ((users.device .lead).visits ((List.range users.count).filter fun j => j ∉ users.T)).filter
    (DIQKD.matchRound (users.basis .lead) (users.basis .follow))

theorem T_lt : ∀ j ∈ users.T, j < users.count :=
  (users.device .lead).sample_lt users.round users.count (users.count / 2)

theorem R_lt : ∀ j ∈ users.R, j < users.count := by
  intro j member
  have other := ((users.device .lead).visits_perm _).mem_iff.mp (List.mem_filter.mp member).1
  exact List.mem_range.mp (List.mem_filter.mp other).1

/-- The verdict on the test rounds. -/
def verdict : Except Exn Unit :=
  DIQKD.verdict (users.basis .lead) (users.basis .follow) (users.measure .lead)
    (users.measure .follow) users.T

/-- What a party finds. -/
def record (side : Side) : DIQKD.TestRecord where
  Tp := users.Tp.map fun j : Nat => .num j
  Tpp := users.Tpp.map fun j : Nat => .num j
  R := users.R.map fun j : Nat => .num j
  winning := (users.T.filter (DIQKD.won (users.basis .lead) (users.basis .follow)
    (users.measure .lead) (users.measure .follow))).length
  matching := (users.T.filter (DIQKD.agreed (users.basis .lead) (users.basis .follow)
    (users.measure .lead) (users.measure .follow))).length
  outcome := do
    users.verdict
    return users.R.map (users.measure side)

/-- The leader's test rounds and the outcomes of a party in them. -/
def rounds_message : Message := users.message .lead .DQKDMessage [("T", .ofNats users.T)]

def outcomes_message (side : Side) : Message :=
  users.message side .DQKDMessage [("x_T", .ofBits (users.T.map (users.measure side)))]

/-- What a party says in the test. -/
def transcript (side : Side) : List Message :=
  users.message side .DQKDMessage [("theta", .ofNats (users.theta side))] ::
    side.select [users.rounds_message, users.outcomes_message .lead]
      [users.outcomes_message .follow]

/-- What a party does with a message when it expects the peer's outcomes. -/
def expectOutcomes (side : Side) : Message → Program DIQKD.TestRecord :=
  DIQKD.conclude (users.x side) (.ofNats (users.theta side)) (.ofNats (users.theta side.other))
    (users.T.map fun j : Nat => .num j) (users.Tp.map fun j : Nat => .num j)
    (users.Tpp.map fun j : Nat => .num j) (users.R.map fun j : Nat => .num j)
    (users.T.map (users.measure side))

/-- With the peer's outcomes it finds what is to be found. -/
theorem expected_outcomes (side : Side) :
    users.expectOutcomes side (users.outcomes_message side.other) = .done (users.record side) := by
  have sides : DIQKD.Sides (users.basis .lead) (users.basis .follow) (users.measure .lead)
      (users.measure .follow) (users.basis side) (users.basis side.other) (users.measure side)
      (users.measure side.other) := by
    cases side with
    | lead => exact Or.inl ⟨rfl, rfl, rfl, rfl⟩
    | follow => exact Or.inr ⟨rfl, rfl, rfl, rfl⟩
  have winning := DIQKD.winning_positions users.count users.T sides users.T_lt
  have matching := DIQKD.matching_positions users.T sides
  have kept := DIQKD.outcomes_at_positions users.count (users.measure side) users.R users.R_lt
  simp only [expectOutcomes, DIQKD.conclude, outcomes_message, Peers.message_data,
    Value.item_single, ok_bind, Value.iterate_ofBits, attempt_ok, done_bind,
    DIQKD.entries_positions, theta, Tp, Tpp, winning, matching, List.length_map, x, kept, pure_eq]
  rfl

/-- The leader sends its rounds and its outcomes without waiting in between. -/
theorem lead_examine :
    DIQKD.examine (users.endpoint .lead) (users.device .lead) users.round (users.x .lead)
        (.ofNats (users.theta .lead)) (.ofNats (users.theta .follow)) =
      .send users.rounds_message (.send (users.outcomes_message .lead)
        (_wait_for_control_message .DQKDMessage >>= users.expectOutcomes .lead)) := by
  have length : (users.x .lead).length = users.count := by simp [x]
  have split := DIQKD.rounds_positions (users.basis .lead) (users.basis .follow)
    (users.device .lead).visits_perm users.count users.T users.T_lt
  have outcomes : DIQKD.outcomes_at (users.x .lead) (users.T.map fun j : Nat => .num j) =
      .ok (users.T.map (users.measure .lead)) :=
    DIQKD.outcomes_at_positions users.count _ _ users.T_lt
  have drawn : (users.device .lead).sample users.round users.count (users.count / 2) = users.T := rfl
  simp only [DIQKD.examine, DIQKD.split_rounds, endpoint, Peers.endpoint_role, length, drawn,
    Peers.send_control_message, send_bind, done_bind, theta, split, attempt_ok, pure_eq, outcomes,
    Peers.exchange_lead]
  rfl

/-- What the follower does with a message that should hold the rounds. -/
def expectRounds (m : Message) : Program DIQKD.TestRecord := do
  let T ← attempt (do (← m.data.item "T").iterate)
  let (Tp, Tpp, R) ← attempt (DIQKD.rounds (users.device .follow).visits
    (.ofNats (users.theta .lead)) (.ofNats (users.theta .follow)) users.count T)
  let x_T ← attempt (DIQKD.outcomes_at (users.x .follow) T)
  let m ← (users.endpoint .follow).exchange_messages [("x_T", .ofBits x_T)] .DQKDMessage
  DIQKD.conclude (users.x .follow) (.ofNats (users.theta .follow)) (.ofNats (users.theta .lead))
    T Tp Tpp R x_T m

/-- The follower takes the rounds first. -/
theorem follow_examine :
    DIQKD.examine (users.endpoint .follow) (users.device .follow) users.round (users.x .follow)
        (.ofNats (users.theta .follow)) (.ofNats (users.theta .lead)) =
      (_wait_for_control_message .DQKDMessage >>= users.expectRounds) := by
  have length : (users.x .follow).length = users.count := by simp [x]
  simp only [DIQKD.examine, DIQKD.split_rounds, endpoint, Peers.endpoint_role, length,
    bind_assoc, pure_eq, done_bind]
  rfl

/-- With the rounds it waits for the leader's outcomes and answers with its own. -/
theorem expected_rounds :
    users.expectRounds users.rounds_message =
      (_wait_for_control_message .DQKDMessage >>= fun m =>
        .send (users.outcomes_message .follow) (users.expectOutcomes .follow m)) := by
  have split := DIQKD.rounds_positions (users.basis .lead) (users.basis .follow)
    (users.device .lead).visits_perm users.count users.T users.T_lt
  have outcomes : DIQKD.outcomes_at (users.x .follow) (users.T.map fun j : Nat => .num j) =
      .ok (users.T.map (users.measure .follow)) :=
    DIQKD.outcomes_at_positions users.count _ _ users.T_lt
  simp only [expectRounds, users.common, rounds_message, Peers.message_data, Value.item_single,
    ok_bind, Value.iterate_ofNats, attempt_ok, done_bind, theta, split, outcomes, endpoint,
    Peers.exchange_follow, bind_assoc, send_bind]
  rfl

/-- The leader's outcomes hold no rounds. -/
theorem unexpected_outcomes :
    users.expectRounds (users.outcomes_message .lead) = .raised (.KeyError "T") := by
  have missing : (users.outcomes_message .lead).data.item "T" = .error (.KeyError "T") := by
    simp [outcomes_message, Value.item, Dict.lookup]
  simp only [expectRounds, missing, error_bind, attempt_error, raised_bind]

variable (terms : Terms Message Side Unit Exn) (ready : Side → Side → Unit → Prop)

/-- Both parties find what is to be found, if the rounds are not overtaken by the outcomes. -/
theorem record_triple
    (inOrder : terms.blocks users.rounds_message (users.outcomes_message .lead)) :
    Triple terms ready (fun _ => True)
      (fun side => (DIQKD.record_epr_test (users.endpoint side) (users.device side) users.round
        (users.x side) (users.theta side)).keeping [])
      (fun results => ∀ side, results side = (users.record side, users.transcript side)) := by
  let said (side : Side) : List Message :=
    [users.message side .DQKDMessage [("theta", .ofNats (users.theta side))]]
  simp only [DIQKD.record_epr_test, endpoint, Peers.exchange_keeping]
  refine Triple.exchange_messages users.toPeers
    (fun side => [("theta", .ofNats (users.theta side))]) .DQKDMessage
    (fun side m => (do
      let theta_hat ← attempt (m.data.item "theta")
      DIQKD.examine (users.endpoint side) (users.device side) users.round (users.x side)
        (.ofNats (users.theta side)) theta_hat : Program DIQKD.TestRecord).keeping (said side)) _
    ?_ ?_
  · simp only [Peers.message_data, Value.item_single, attempt_ok, done_bind]
    rw [follow_examine, Peers.wait_keeping]
    exact Peers.wait_calm _ _ _
  · simp only [Peers.message_data, Value.item_single, attempt_ok, done_bind]
    refine Triple.announce users.rounds_message (users.outcomes_message .lead)
      (users.outcomes_message .follow)
      (by rw [Side.other_lead, lead_examine, keeping_send, keeping_send, Peers.wait_keeping,
        Peers.wait_bind])
      (by rw [Side.other_follow, follow_examine, Peers.wait_keeping, Peers.wait_bind])
      ((users.accept_message _ _ _ _).trans
        (by rw [← rounds_message, expected_rounds, Peers.wait_keeping, Peers.wait_bind]))
      (users.accept_message _ _ _ _) inOrder ?_ fun ended leads follows => ?_
    · change ((users.expectOutcomes .follow (users.outcomes_message Side.follow.other)).keeping
        _).calm _
      rw [users.expected_outcomes .follow]
      trivial
    · have both : ended = fun side => .done (users.record side, users.transcript side) := by
        funext side
        cases side with
        | lead =>
          refine leads.trans ((users.accept_message _ _ _ _).trans ?_)
          change (users.expectOutcomes .lead (users.outcomes_message Side.lead.other)).keeping _ = _
          rw [users.expected_outcomes .lead]
          rfl
        | follow =>
          rw [follows]
          change (users.expectOutcomes .follow
            (users.outcomes_message Side.follow.other)).keeping _ = _
          rw [users.expected_outcomes .follow]
          rfl
      rw [both]
      exact Triple.done _ fun _ => rfl

/-- The test ends for both parties as the verdict says. -/
theorem test_triple
    (inOrder : terms.blocks users.rounds_message (users.outcomes_message .lead))
    (expected : ∀ error, users.verdict = .error error → terms.fails fun _ => error) :
    Triple terms ready (fun _ => True)
      (fun side => DIQKD._device_independent_epr_test (users.endpoint side) (users.device side)
        users.round (users.x side) (users.theta side))
      (fun results => users.verdict = .ok () ∧
        ∀ side, results side = users.R.map (users.measure side)) := by
  have kept (side : Side) :
      DIQKD._device_independent_epr_test (users.endpoint side) (users.device side) users.round
          (users.x side) (users.theta side) =
        (DIQKD.record_epr_test (users.endpoint side) (users.device side) users.round
          (users.x side) (users.theta side)).keeping [] >>= fun kept => attempt kept.1.outcome := by
    rw [DIQKD.epr_test_record]
    conv_lhs => rw [← keeping_forget [] (DIQKD.record_epr_test _ _ _ _ _)]
    rw [bind_assoc]
    rfl
  simp only [kept]
  refine Triple.bind (users.record_triple terms ready inOrder) (fun found _ => ?_) fun results same => ?_
  · cases found.1.outcome <;> trivial
  · simp only [same, record]
    cases judged : users.verdict with
    | error error => exact Triple.raised (fun _ => error) (expected error judged)
    | ok passed => exact Triple.done (fun side => users.R.map (users.measure side)) ⟨rfl, fun _ => rfl⟩

end Examinees

end QChat
