import QChat.BB84Agreement
import QChat.Calls

/-!
# Sifting and testing

What follows the reception of the states in a round of distillation, for any lists
of outcomes and bases. The indices that are published are positions in a list that
shrinks with every test. Read so on both sides they name the same rounds: what
remains on each side are its own outcomes in the rounds measured in equal bases
that were not tested, in order.
-/

namespace QChat

open Process

namespace BB84_Purified

/-- Filters our measurements and tests the error rate of those that are left. -/
def sift (self : Endpoint) (round : Nat) (x theta : List Bit) : Program (ℚ × List Bit) := do
  let x_remain ← _filter_theta self x theta
  _estimate_error_rate self round x_remain

/-- What `distill_tested_data` does with the states it has received. -/
def distill_received (self : Endpoint) (round : Nat) (x theta : List Bit) :
    Program (List Bit) := do
  let (error_rate, x_remain) ← sift self round x theta
  if error_rate ≥ MAX_GOLAY_ERROR then return [] else return x_remain

theorem distill_tested_data_eq (self : Endpoint) (round : Nat) :
    distill_tested_data self round =
      _receive_bb84_states self round >>= fun states =>
        distill_received self round states.1 states.2 := by
  simp only [distill_tested_data, distill_received, sift, bind_assoc]

end BB84_Purified

/-- The rounds with an outcome and equal bases. -/
def equalBases (x theta : Side → List Bit) : List Nat :=
  matchingRounds (min (x .lead).length (theta .lead).length)
    fun side round => (theta side).getD round 0

/-- The rounds `S` that are left and the rounds `T` that are tested: the tested rounds are
distinct rounds with equal bases, as many as there should be, and the others are left. -/
structure Selects (x theta : Side → List Bit) (S T : List Nat) : Prop where
  increasing : S.Pairwise (· < ·)
  remaining : ∀ round, round ∈ S ↔ round ∈ equalBases x theta ∧ round ∉ T
  distinct : T.Nodup
  tested : ∀ round ∈ T, round ∈ equalBases x theta
  amount : T.length = min 25 (equalBases x theta).length

/-- The leader's draw selects rounds. -/
theorem drawTests_selects (chance : Nat → Nat) (x theta : Side → List Bit) :
    Selects x theta (drawTests chance (equalBases x theta)).1
      (drawTests chance (equalBases x theta)).2.1 := by
  have sorted : (equalBases x theta).Pairwise (· < ·) := List.pairwise_lt_range.filter _
  have kept := chooseTests_sublist chance (ROUND_SIZE / 4) (equalBases x theta) [] []
  have split := chooseTests_perm chance (ROUND_SIZE / 4) (equalBases x theta) [] []
  rw [List.append_nil] at split
  have apart := List.nodup_append.mp (split.nodup_iff.mpr sorted.nodup)
  refine ⟨sorted.sublist kept, ?_, apart.2.1, ?_, ?_⟩
  · intro round
    rw [← split.mem_iff, List.mem_append]
    constructor
    · intro left
      exact ⟨Or.inl left, fun tested => apart.2.2 round left round tested rfl⟩
    · rintro ⟨left | tested, untested⟩
      · exact left
      · exact absurd tested untested
  · intro round tested
    exact split.mem_iff.mp (List.mem_append_right _ tested)
  · have amount := chooseTests_length chance (ROUND_SIZE / 4) (equalBases x theta) [] []
    rwa [List.length_nil, Nat.zero_add] at amount

/-- The share of the tested rounds in which the outcomes differ, or one without tests. -/
def testedRate (x : Side → List Bit) (T : List Nat) : ℚ :=
  rateOf (fun side round => (x side).getD round 0) T

/-- What both sides have after the test: the error rate of the tested rounds and their own
outcomes in the rounds that are left. All they have said of their outcomes are those in the
tested rounds. -/
structure Sifted (parties : Parties) (x theta : Side → List Bit) (S T : List Nat)
    (results : Side → (ℚ × List Bit) × List Message) : Prop where
  rate : ∀ side, (results side).1.1 = testedRate x T
  remaining : ∀ side, (results side).1.2 = restrict (x side) S
  published : ∃ test_indices : List Nat, ∀ side, (results side).2 =
    [parties.message side .BB84Message [("theta", .ofBits (theta side))],
      parties.message side .BB84Message
        (Side.select [("test_indices", .ofNats test_indices)] [("ack", .bool true)] side),
      parties.message side .BB84Message [("test_bits", .ofBits (restrict (x side) T))],
      parties.message side .BB84Message [("fin", .bool true)]]

/-- What both sides return from the distillation: their own outcomes in the rounds that remain,
or nothing where the error rate is too high. Both come to the same rate. -/
structure Distilled (x : Side → List Bit) (S T : List Nat) (results : Side → List Bit) : Prop where
  bits : ∀ side, results side =
    if testedRate x T ≥ MAX_GOLAY_ERROR then [] else restrict (x side) S
  together : results .lead = [] ↔ results .follow = []

/-- Sifting and testing stay aligned, whatever the outcomes, the bases and the leader's draws:
in every run both sides return their own outcomes in the same rounds.

Proof: both sides keep the rounds of equal bases, in their order. A test index is a position in
a list that has lost the earlier tests, so popping the indices one after the other removes the
same rounds on both sides. -/
theorem sifting_aligned (parties : Parties) (round : Nat) (x theta : Side → List Bit)
    (sameOutcomes : ∀ side, (x side).length = (x .lead).length)
    (sameBases : ∀ side, (theta side).length = (theta .lead).length) :
    ∃ S T, Selects x theta S T ∧
      Duet.BothReturn (fun side => (BB84_Purified.sift (parties.endpoint side) round (x side)
        (theta side)).keeping []) (Sifted parties x theta S T) ∧
      Duet.BothReturn (fun side => BB84_Purified.distill_received (parties.endpoint side) round
        (x side) (theta side)) (Distilled x S T) := by
  let chance := (parties.chances .lead).index round
  let measure (side : Side) (position : Nat) : Bit := (x side).getD position 0
  let basis (side : Side) (position : Nat) : Bit := (theta side).getD position 0
  have outcomes (side : Side) : (List.range (x .lead).length).map (measure side) = x side := by
    rw [← sameOutcomes side]
    exact restrict_range (x side)
  have bases (side : Side) : (List.range (theta .lead).length).map (basis side) = theta side := by
    rw [← sameBases side]
    exact restrict_range (theta side)
  have sift : Together sourceWiring
      (fun side => (BB84_Purified.sift (parties.endpoint side) round (x side)
        (theta side)).keeping [])
      (fun results => ∀ side, results side =
        ((testedRate x (drawTests chance (equalBases x theta)).2.1,
            restrict (x side) (drawTests chance (equalBases x theta)).1),
          [parties.message side .BB84Message [("theta", .ofBits (theta side))]] ++
            Together.estimation_transcript parties round measure (equalBases x theta) side)) := by
    have filtered := Together._filter_theta parties (x .lead).length (theta .lead).length measure
      basis fun _ => []
    simp only [outcomes, bases, List.nil_append] at filtered
    simp only [BB84_Purified.sift, keeping_bind]
    refine filtered.bind fun results kept => ?_
    simp only [kept]
    exact Together._estimate_error_rate parties round measure _ (equalBases x theta)
  refine ⟨_, _, drawTests_selects chance x theta, ?_, ?_⟩
  · refine (sift.weaken fun results found => ?_).bothReturn
    obtain rfl := funext found
    exact ⟨fun _ => rfl, fun _ => rfl, (drawTests chance (equalBases x theta)).2.2, fun side => by
      cases side <;> rfl⟩
  · have distill : Together sourceWiring
        (fun side => BB84_Purified.distill_received (parties.endpoint side) round (x side)
          (theta side))
        (Distilled x (drawTests chance (equalBases x theta)).1
          (drawTests chance (equalBases x theta)).2.1) := by
      refine sift.forget.bind fun results found => ?_
      simp only [found]
      by_cases much : testedRate x (drawTests chance (equalBases x theta)).2.1 ≥ MAX_GOLAY_ERROR
      · simp only [if_pos much]
        exact Together.done (fun _ => []) ⟨fun _ => (if_pos much).symm, Iff.rfl⟩
      · simp only [if_neg much]
        refine Together.done (fun side => restrict (x side) _)
          ⟨fun _ => (if_neg much).symm, ?_⟩
        simp only [restrict, List.map_eq_nil_iff]
    exact distill.bothReturn

/-- Outcomes and bases of two rounds, the second measured in different bases. -/
def twoOutcomes : Side → List Bit := Side.select [0, 1] [1, 1]

def twoBases : Side → List Bit := Side.select [0, 0] [0, 1]

theorem sifting_aligned_two : ∃ S T, Selects twoOutcomes twoBases S T ∧
    Duet.BothReturn (fun side => (BB84_Purified.sift ((sampleSession codewordError 0).endpoint side)
      0 (twoOutcomes side) (twoBases side)).keeping [])
      (Sifted (sampleSession codewordError 0) twoOutcomes twoBases S T) ∧
    Duet.BothReturn (fun side => BB84_Purified.distill_received
      ((sampleSession codewordError 0).endpoint side) 0 (twoOutcomes side) (twoBases side))
      (Distilled twoOutcomes S T) :=
  sifting_aligned (sampleSession codewordError 0) 0 twoOutcomes twoBases
    (fun side => by cases side <;> rfl) (fun side => by cases side <;> rfl)

end QChat
