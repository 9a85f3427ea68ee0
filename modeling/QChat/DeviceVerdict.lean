import QChat.Calls
import QChat.DIQKDOrder

/-!
# The verdict of the device test

`_device_independent_epr_test` on both sides, for any lists of outcomes and bases,
when messages are delivered in order. The two roles hold each other's data under
exchanged names, and yet find the same sets and counts, come to the same verdict and
keep the same rounds. What the test does not guard against is an empty set of test
rounds, by whose size it divides.
-/

namespace QChat

open Process

/-- Two parties before a device test with these outcomes and bases. There is no bound on the
number of rounds, and nothing is assumed of how the lists came about but that they have the same
length. Both parties visit sets in the same order. -/
structure Examination extends Peers where
  key_size : Value
  device : Side → DeviceChances
  common : (device .follow).visits = (device .lead).visits
  round : Nat
  count : Nat
  x : Side → List Bit
  theta : Side → List Nat
  outcomes : ∀ side, (x side).length = count
  bases : ∀ side, (theta side).length = count

namespace Examination

variable (given : Examination)

/-- The protocol object of a party. -/
def endpoint (side : Side) : Endpoint := given.toPeers.endpoint .DIQKD given.key_size side

/-- The rounds the leader draws for testing. -/
def T : List Nat := (given.device .lead).sample given.round given.count (given.count / 2)

/-- The follower measured for the game. -/
def Game (j : Nat) : Prop := (given.theta .follow)[j]? = some 0 ∨ (given.theta .follow)[j]? = some 1

/-- Both parties measured in the same basis. -/
def Match (j : Nat) : Prop := (given.theta .lead)[j]? = some 0 ∧ (given.theta .follow)[j]? = some 2

instance (j : Nat) : Decidable (given.Game j) := inferInstanceAs (Decidable (_ ∨ _))

instance (j : Nat) : Decidable (given.Match j) := inferInstanceAs (Decidable (_ ∧ _))

/-- The rounds that are kept: the matching ones among the untested, in the order in which
these are visited. -/
def R : List Nat :=
  ((given.device .lead).visits ((List.range given.count).filter fun j => j ∉ given.T)).filter
    (given.Match ·)

/-- The calls of the test on both sides. -/
def test (side : Side) : Program (List Bit) :=
  DIQKD._device_independent_epr_test (given.endpoint side) (given.device side) given.round
    (given.x side) (given.theta side)

/-- The calls with their local variables. -/
def record (side : Side) : Program DIQKD.TestRecord :=
  DIQKD.record_epr_test (given.endpoint side) (given.device side) given.round (given.x side)
    (given.theta side)

/-- The test raises or returns the outcome that is in the record of its local variables. Nothing
is sent or taken differently. -/
theorem test_eq_record (side : Side) :
    given.test side = given.record side >>= fun record => attempt record.outcome :=
  DIQKD.epr_test_record _ _ _ _ _

/-- The lists as functions of the round. -/
def examinees : Examinees where
  toPeers := given.toPeers
  key_size := given.key_size
  device := given.device
  common := given.common
  round := given.round
  count := given.count
  measure := fun side j => (given.x side).getD j 0
  basis := fun side j => (given.theta side).getD j 0

/-- The outcomes are those of the lists, read position by position. -/
theorem examinees_x (side : Side) : given.examinees.x side = given.x side := by
  have whole := map_getD_range (given.x side) 0
  rwa [given.outcomes side] at whole

/-- So are the bases. -/
theorem examinees_theta (side : Side) : given.examinees.theta side = given.theta side := by
  have whole := map_getD_range (given.theta side) 0
  rwa [given.bases side] at whole

/-- The leader only draws rounds that there are. -/
theorem T_lt : ∀ j ∈ given.T, j < given.count := given.examinees.T_lt

/-- In a round that there is, no default stands in for a basis. -/
theorem getD_iff (side : Side) {j : Nat} (inside : j < given.count) (basis : Nat) :
    (given.theta side).getD j 0 = basis ↔ (given.theta side)[j]? = some basis := by
  have bound : j < (given.theta side).length := by rwa [given.bases side]
  rw [List.getD_eq_getElem?_getD, List.getElem?_eq_getElem bound, Option.getD_some,
    Option.some.injEq]

/-- The follower's basis in a round decides whether it belongs to the game. -/
theorem chshRound_iff {j : Nat} (inside : j < given.count) :
    DIQKD.chshRound (given.examinees.basis .follow) j = true ↔ given.Game j := by
  simp only [DIQKD.chshRound, examinees, decide_eq_true_eq, given.getD_iff .follow inside, Game]

/-- The bases of both decide whether a round belongs to the matching test. -/
theorem matchRound_iff {j : Nat} (inside : j < given.count) :
    DIQKD.matchRound (given.examinees.basis .lead) (given.examinees.basis .follow) j = true ↔
      given.Match j := by
  simp only [DIQKD.matchRound, examinees, decide_eq_true_eq, given.getD_iff _ inside, Match]

/-- The first set of the code holds the test rounds of the game. -/
theorem Tp_eq : given.examinees.Tp = given.T.filter (given.Game ·) := by
  apply List.filter_congr
  intro j member
  rw [Bool.eq_iff_iff, decide_eq_true_eq]
  exact given.chshRound_iff (given.T_lt j member)

/-- The second set of the code holds those of the matching test. -/
theorem Tpp_eq : given.examinees.Tpp = given.T.filter (given.Match ·) := by
  apply List.filter_congr
  intro j member
  rw [Bool.eq_iff_iff, decide_eq_true_eq]
  exact given.matchRound_iff (given.T_lt j member)

/-- Kept are exactly the untested rounds that both measured in the same basis. -/
theorem mem_R (j : Nat) : j ∈ given.R ↔ j < given.count ∧ j ∉ given.T ∧ given.Match j := by
  rw [R, List.mem_filter, ((given.device .lead).visits_perm _).mem_iff]
  simp only [List.mem_filter, List.mem_range, decide_eq_true_eq, and_assoc]

/-- No round is kept twice, as a set is visited once at every place. -/
theorem R_nodup : given.R.Nodup := by
  refine List.Nodup.filter _ (((given.device .lead).visits_perm _).nodup_iff.mpr ?_)
  exact List.nodup_range.filter _

/-- The third set of the code holds the rounds that are kept, in the same order. -/
theorem R_eq : given.examinees.R = given.R := by
  apply List.filter_congr
  intro j member
  have untested := ((given.device .lead).visits_perm _).mem_iff.mp member
  have inside := List.mem_range.mp (List.mem_filter.mp untested).1
  rw [Bool.eq_iff_iff, decide_eq_true_eq]
  exact given.matchRound_iff inside

/-- What both sides find: the same sets, the same counts, the same verdict, and with it their
own outcomes in the same rounds. Of their outcomes they publish those in the test rounds, and
these messages are all that they send. -/
structure Agreement (verdict : Except Exn Unit)
    (results : Side → DIQKD.TestRecord × List Message) : Prop where
  Tp : ∀ side, (results side).1.Tp = (given.T.filter (given.Game ·)).map fun j : Nat => .num j
  Tpp : ∀ side, (results side).1.Tpp = (given.T.filter (given.Match ·)).map fun j : Nat => .num j
  winning : (results .lead).1.winning = (results .follow).1.winning
  matching : (results .lead).1.matching = (results .follow).1.matching
  outcome : ∀ side, (results side).1.outcome = verdict.map fun _ => restrict (given.x side) given.R
  published : ∀ side, (results side).2 =
    given.message side .DQKDMessage [("theta", .ofNats (given.theta side))] ::
      (side.select [given.message .lead .DQKDMessage [("T", .ofNats given.T)]] [] ++
        [given.message side .DQKDMessage [("x_T", .ofBits (restrict (given.x side) given.T))]])

/-- Terms under which messages are delivered in order. -/
def terms (fails : (Side → Exn) → Prop) : Terms Message Side Unit Exn where
  wiring := ⟨fun _ => .lead, id⟩
  blocks := Duet.firstInFirstOut
  prompt := False
  fails := fails

/-- The leader's test rounds and its outcomes are different messages. -/
theorem messages_differ :
    given.examinees.rounds_message ≠ given.examinees.outcomes_message .lead := by
  intro same
  have data := congrArg Message.data same
  simp [Examinees.rounds_message, Examinees.outcomes_message] at data

/-- The records of both parties agree. -/
theorem record_ends :
    Duet.BothEnd (fun side => (given.record side).keeping [])
      (given.Agreement given.examinees.verdict) (fun _ => False) := by
  have runs := given.examinees.record_triple (terms fun _ => False) (fun _ _ _ => True)
    given.messages_differ
  simp only [examinees_x, examinees_theta] at runs
  refine Triple.bothEnd rfl (runs.weaken (fun _ known => known) fun results found => ?_)
  obtain rfl := funext found
  refine ⟨fun _ => congrArg _ given.Tp_eq, fun _ => congrArg _ given.Tpp_eq, rfl, rfl, ?_, ?_⟩
  · intro side
    simp only [Examinees.record, R_eq]
    cases given.examinees.verdict <;> rfl
  · intro side
    rw [Examinees.transcript, examinees_theta]
    cases side <;> rfl

/-- The test ends as the verdict says. -/
theorem test_ends :
    Duet.BothEnd given.test
      (fun results => given.examinees.verdict = .ok () ∧
        ∀ side, results side = restrict (given.x side) given.R)
      (fun errors => ∀ side, given.examinees.verdict = .error (errors side)) := by
  have runs := given.examinees.test_triple
    (terms fun errors => ∀ side, given.examinees.verdict = .error (errors side))
    (fun _ _ _ => True) given.messages_differ fun error judged _ => judged
  simp only [examinees_x, examinees_theta, R_eq] at runs
  exact Triple.bothEnd rfl runs

/-- Both sides of the test agree, for any number of rounds, any outcomes and bases, and any test
rounds: with messages delivered in order they find the same and end alike, and where they return
they return their own outcomes in the same rounds, in the same order: the untested ones measured
in the same basis, of which none is published.

Proof: a triple for the records of both sides, in which the leader's two messages come in order.
Winning and matching are the same under exchanged names, as sums and products modulo two do not
depend on the order of their parts. -/
theorem device_test_agrees : ∃ verdict : Except Exn Unit,
    given.T.Nodup ∧ given.T.length = given.count / 2 ∧ (∀ j ∈ given.T, j < given.count) ∧
    Duet.BothEnd (fun side => (given.record side).keeping []) (given.Agreement verdict)
      (fun _ => False) ∧
    (∀ side, given.test side = given.record side >>= fun record => attempt record.outcome) ∧
    Duet.BothEnd given.test
      (fun results => verdict = .ok () ∧ ∀ side, results side = restrict (given.x side) given.R)
      (fun errors => ∀ side, verdict = .error (errors side)) ∧
    given.R.Nodup ∧
    ∀ j, j ∈ given.R ↔ j < given.count ∧ j ∉ given.T ∧ given.Match j :=
  ⟨given.examinees.verdict, (given.device .lead).sample_nodup _ _ _,
    (given.device .lead).sample_length _ _ _ (Nat.div_le_self _ _), given.T_lt,
    given.record_ends, given.test_eq_record, given.test_ends, given.R_nodup, given.mem_R⟩

/-- In every run both sides return the remaining bits or raise a `ProtocolException`. -/
def EndsProperly : Prop :=
  Duet.BothEnd given.test (fun results => ∀ side, results side = restrict (given.x side) given.R)
    (fun errors => ∀ side, ∃ text, errors side = .ProtocolException text)

/-- Without a round for one of the two tests both sides divide by zero: the rates are computed
whatever the sizes of the sets are. -/
theorem verdict_empty (empty : ¬ ((∃ j ∈ given.T, given.Game j) ∧ ∃ j ∈ given.T, given.Match j)) :
    given.examinees.verdict = .error .ZeroDivisionError := by
  have none {p : Nat → Prop} [DecidablePred p] (nothing : ¬ ∃ j ∈ given.T, p j) :
      given.T.filter (p ·) = [] := by
    rw [List.filter_eq_nil_iff]
    intro j member
    simpa using fun holds => nothing ⟨j, member, holds⟩
  have games := given.Tp_eq
  have rounds := given.Tpp_eq
  rw [Examinees.Tp] at games
  rw [Examinees.Tpp] at rounds
  rw [Examinees.verdict, DIQKD.verdict, games, rounds]
  by_cases played : ∃ j ∈ given.T, given.Game j
  · rw [none fun matched => empty ⟨played, matched⟩]
    simp only [divide, List.length_nil, ↓reduceIte, error_bind]
    split <;> rfl
  · rw [none played]
    rfl

/-- With rounds for both tests nothing is divided by zero. -/
theorem verdict_present (games : ∃ j ∈ given.T, given.Game j)
    (rounds : ∃ j ∈ given.T, given.Match j) :
    given.examinees.verdict ≠ .error .ZeroDivisionError := by
  have some {p : Nat → Prop} [DecidablePred p] (present : ∃ j ∈ given.T, p j) :
      (given.T.filter (p ·)).length ≠ 0 := by
    obtain ⟨j, member, holds⟩ := present
    have listed : j ∈ given.T.filter (p ·) := List.mem_filter.mpr ⟨member, by simpa using holds⟩
    exact (List.length_pos_of_mem listed).ne'
  have gamesEq := given.Tp_eq
  have roundsEq := given.Tpp_eq
  rw [Examinees.Tp] at gamesEq
  rw [Examinees.Tpp] at roundsEq
  rw [Examinees.verdict, DIQKD.verdict, gamesEq, roundsEq]
  simp only [divide, some games, some rounds, ↓reduceIte, ok_bind]
  split
  · intro passed
    cases passed
  · intro failed
    cases failed

/-- Without a round for one of the two tests both sides raise a `ZeroDivisionError`. -/
theorem not_endsProperly (empty : ¬ ((∃ j ∈ given.T, given.Game j) ∧ ∃ j ∈ given.T, given.Match j)) :
    ¬ given.EndsProperly := by
  intro properly
  have divides := given.verdict_empty empty
  obtain ⟨state, reached, stuck⟩ := given.test_ends.reaches_end
  rcases given.test_ends.ends state reached stuck with ⟨_, ⟨passed, _⟩, _⟩ | ⟨errors, judged, failed⟩
  · cases divides.symm.trans passed
  · obtain ⟨others, known, same⟩ := properly.raises state reached .lead _ (failed .lead)
    obtain ⟨text, raised⟩ := known .lead
    have error : errors .lead = .ZeroDivisionError :=
      (Except.error.inj (divides.symm.trans (judged .lead))).symm
    cases error.symm.trans (same.symm.trans raised)

/-- With messages delivered in order the test returns or raises a `ProtocolException` exactly if
the test rounds hold one for each of its two parts. Otherwise both sides raise a
`ZeroDivisionError`, before any rate is judged. -/
theorem endsProperly_iff :
    given.EndsProperly ↔ (∃ j ∈ given.T, given.Game j) ∧ ∃ j ∈ given.T, given.Match j := by
  constructor
  · intro properly
    by_contra empty
    exact given.not_endsProperly empty properly
  · rintro ⟨games, rounds⟩
    refine given.test_ends.weaken (fun results passed => passed.2) fun errors judged side => ?_
    rcases DIQKD.verdict_cases (given.examinees.basis .lead) (given.examinees.basis .follow)
      (given.examinees.measure .lead) (given.examinees.measure .follow) given.examinees.T with
      passed | divided | failed
    · cases (judged side).symm.trans passed
    · exact absurd divided (given.verdict_present games rounds)
    · exact ⟨_, Except.error.inj ((judged side).symm.trans failed)⟩

end Examination

/-- Both lists of bases have one basis for every round. -/
theorem thirdBasis_length (side : Side) :
    (Side.select (List.replicate ROUND_SIZE (0 : Nat)) (List.replicate ROUND_SIZE 2)
      side).length = ROUND_SIZE := by
  cases side with
  | lead => exact List.length_replicate
  | follow => exact List.length_replicate

/-- A round in which the follower always chooses its third basis. -/
def thirdBasis : Examination where
  name := Side.select "alice" "bob"
  short := alice_bob_short
  chances := fun _ => ⟨fun _ _ => 0, fun _ _ => 0, fun _ _ => 0, fun _ => 0⟩
  key_size := .num 16
  device := DeviceParties.plainDevices.device
  common := rfl
  round := 0
  count := ROUND_SIZE
  x := fun _ => List.replicate ROUND_SIZE 0
  theta := Side.select (List.replicate ROUND_SIZE 0) (List.replicate ROUND_SIZE 2)
  outcomes := fun _ => List.length_replicate
  bases := thirdBasis_length

/-- There is no round for the game, whatever is tested. -/
theorem third_basis_divides : ¬ thirdBasis.EndsProperly := by
  refine thirdBasis.not_endsProperly ?_
  rintro ⟨⟨j, _, played⟩, _⟩
  have basis : thirdBasis.theta .follow = List.replicate ROUND_SIZE 2 := rfl
  simp only [Examination.Game, basis, List.getElem?_replicate] at played
  split at played <;> simp at played

end QChat
