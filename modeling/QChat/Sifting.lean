import QChat.BB84

/-!
# What a round leaves on both sides

One call of `distill_tested_data` on each side, as a function of the choices of
both: the positions measured in equal bases, the positions the leader's indices
select for testing, and the positions that remain. Both parties' lists are their
own outcomes at these positions, which is what the lemmas here show of the
functions the two sides compute from each other's messages.
-/

namespace QChat

/-- The outcomes of one party in a round. -/
def outcomes (chances : Chances) (round : Nat) : List Bit :=
  (List.range ROUND_SIZE).map (chances.measure round)

/-- The bases of one party in a round. -/
def bases (chances : Chances) (round : Nat) : List Bit :=
  (List.range ROUND_SIZE).map (chances.basisflip round)

/-- The positions that both parties measured in the same basis. -/
def matching (chances : Side → Chances) (round : Nat) : List Nat :=
  (List.range ROUND_SIZE).filter fun position =>
    (chances .lead).basisflip round position = (chances .follow).basisflip round position

/-- The leader's draw of test positions among the matching ones: what remains,
what is tested, and the indices that describe the draw. -/
def selection (chances : Side → Chances) (round : Nat) : List Nat × List Nat × List Nat :=
  chooseTests ((chances .lead).index round) (ROUND_SIZE / 4) (matching chances round) [] []

/-- The positions that remain after testing. -/
def kept (chances : Side → Chances) (round : Nat) : List Nat := (selection chances round).1

/-- The tested positions, in the order of the draw. -/
def tested (chances : Side → Chances) (round : Nat) : List Nat := (selection chances round).2.1

/-- The error rate of a round. -/
def errorRate (chances : Side → Chances) (round : Nat) : ℚ :=
  if tested chances round = [] then 1
  else ((tested chances round).countP fun position =>
    (chances .lead).measure round position ≠ (chances .follow).measure round position) /
      (tested chances round).length

/-- The bits a round adds to a party's secret: none if the error rate is too
high to reconcile. -/
def distilled (chances : Side → Chances) (round : Nat) (side : Side) : List Bit :=
  if errorRate chances round ≥ MAX_GOLAY_ERROR then []
  else (kept chances round).map ((chances side).measure round)

/-- Both parties get the same number of bits from a round. -/
theorem distilled_length (chances : Side → Chances) (round : Nat) (one two : Side) :
    (distilled chances round one).length = (distilled chances round two).length := by
  unfold distilled
  split <;> simp

/-- Comparing the own bases with the peer's keeps the outcomes at the positions
where they agree. -/
theorem retained_positions (positions : List Nat) (measure own peer : Nat → Bit) :
    retained (positions.map measure) (positions.map own)
        ((positions.map peer).map (fun bit => .num bit.val)) =
      (positions.filter (fun position => own position = peer position)).map measure := by
  induction positions with
  | nil => rfl
  | cons position rest inductionHypothesis =>
    simp only [retained] at inductionHypothesis
    simp only [retained, List.map_cons, List.zip_cons_cons, List.filterMap_cons,
      Value.equals_bit, inductionHypothesis, List.filter_cons]
    by_cases same : own position = peer position
    · simp [same]
    · simp [same, Ne.symm same]

/-- Counting differences to the peer's test bits counts the tested positions at
which the outcomes differ. -/
theorem countErrors_positions (positions : List Nat) (own peer : Nat → Bit) :
    countErrors (positions.map own) ((positions.map peer).map (fun bit => .num bit.val)) =
      positions.countP (fun position => own position ≠ peer position) := by
  induction positions with
  | nil => rfl
  | cons position rest inductionHypothesis =>
    simp only [countErrors] at inductionHypothesis
    simp only [countErrors, List.map_cons, List.zip_cons_cons, List.countP_cons,
      Value.equals_bit, inductionHypothesis]
    by_cases same : own position = peer position
    · simp [same]
    · simp [same, Ne.symm same]

/-- Popping a position that exists. -/
theorem pop_position (x : List Bit) (index : Nat) (bit : Bit) (present : x[index]? = some bit) :
    pop x (index : Int) = .ok (bit, x.eraseIdx index) := by
  have positive : ¬ (index : Int) < 0 := by omega
  simp only [pop, positive, ↓reduceIte, Int.natCast_nonneg, Int.toNat_natCast, present]

/-- Choosing tests among positions chooses the same tests among the outcomes at
these positions. -/
theorem chooseTests_map {α β : Type} (chance : Nat → Nat) (f : α → β) (count : Nat)
    (x tests : List α) (test_indices : List Nat) :
    chooseTests chance count (x.map f) (tests.map f) test_indices =
      ((chooseTests chance count x tests test_indices).1.map f,
        (chooseTests chance count x tests test_indices).2.1.map f,
        (chooseTests chance count x tests test_indices).2.2) := by
  induction count generalizing x tests test_indices with
  | zero => rfl
  | succ count inductionHypothesis =>
    simp only [chooseTests, List.length_map, List.getElem?_map]
    cases found : x[randint (x.length - 1) (chance test_indices.length)]? with
    | none => rfl
    | some test =>
      have next := inductionHypothesis
        (x.eraseIdx (randint (x.length - 1) (chance test_indices.length))) (tests ++ [test])
        (test_indices ++ [randint (x.length - 1) (chance test_indices.length)])
      simp only [List.map_append, List.map_cons, List.map_nil] at next
      simp only [Option.map_some, List.eraseIdx_map, next]

/-- Popping the indices of the leader's draw from another list over the same
positions pops the same positions, in the same order. -/
theorem popAll_chooseTests {α : Type} (chance : Nat → Nat) (f : α → Bit) (count : Nat)
    (x tests : List α) (test_indices : List Nat) :
    ∃ drawn : List Nat, (chooseTests chance count x tests test_indices).2.2 =
        test_indices ++ drawn ∧
      popAll (drawn.map (fun index : Nat => .num index)) (x.map f) (tests.map f) =
        .ok ((chooseTests chance count x tests test_indices).1.map f,
          (chooseTests chance count x tests test_indices).2.1.map f) := by
  induction count generalizing x tests test_indices with
  | zero => exact ⟨[], by simp [chooseTests], rfl⟩
  | succ count inductionHypothesis =>
    simp only [chooseTests]
    generalize randint (x.length - 1) (chance test_indices.length) = index
    cases found : x[index]? with
    | none => exact ⟨[], by simp, rfl⟩
    | some test =>
      obtain ⟨drawn, indices, popped⟩ :=
        inductionHypothesis (x.eraseIdx index) (tests ++ [test]) (test_indices ++ [index])
      refine ⟨index :: drawn, by simp [indices], ?_⟩
      have present : (x.map f)[index]? = some (f test) := by simp [found]
      simp only [List.map_cons, popAll, Value.index, bind, Except.bind,
        pop_position _ _ _ present, List.eraseIdx_map]
      simpa using popped

/-- The leader's draw takes the tests out of the list and loses nothing. -/
theorem chooseTests_perm {α : Type} (chance : Nat → Nat) (count : Nat) (x tests : List α)
    (test_indices : List Nat) :
    ((chooseTests chance count x tests test_indices).1 ++
      (chooseTests chance count x tests test_indices).2.1).Perm (x ++ tests) := by
  induction count generalizing x tests test_indices with
  | zero => exact .refl _
  | succ count inductionHypothesis =>
    simp only [chooseTests]
    generalize randint (x.length - 1) (chance test_indices.length) = index
    cases found : x[index]? with
    | none => exact .refl _
    | some test =>
      obtain ⟨inside, rfl⟩ := List.getElem?_eq_some_iff.mp found
      have moved : (x.eraseIdx index ++ (tests ++ [x[index]])).Perm
          (x[index] :: x.eraseIdx index ++ tests) := by
        rw [← List.append_assoc]
        exact List.perm_append_singleton _ _
      exact (inductionHypothesis _ _ _).trans
        (moved.trans ((List.getElem_cons_eraseIdx_perm inside).append_right tests))

/-- What remains keeps its order. -/
theorem chooseTests_sublist {α : Type} (chance : Nat → Nat) (count : Nat) (x tests : List α)
    (test_indices : List Nat) : (chooseTests chance count x tests test_indices).1.Sublist x := by
  induction count generalizing x tests test_indices with
  | zero => exact .refl _
  | succ count inductionHypothesis =>
    simp only [chooseTests]
    generalize randint (x.length - 1) (chance test_indices.length) = index
    cases x[index]? with
    | none => exact .refl _
    | some test => exact (inductionHypothesis _ _ _).trans (List.eraseIdx_sublist _ _)

/-- There are as many tests as asked for, or all there can be. -/
theorem chooseTests_length {α : Type} (chance : Nat → Nat) (count : Nat) (x tests : List α)
    (test_indices : List Nat) :
    (chooseTests chance count x tests test_indices).2.1.length =
      tests.length + min count x.length := by
  induction count generalizing x tests test_indices with
  | zero => simp [chooseTests]
  | succ count inductionHypothesis =>
    simp only [chooseTests]
    cases x with
    | nil => simp
    | cons first others =>
      have inside : randint ((first :: others).length - 1) (chance test_indices.length) <
          (first :: others).length := Nat.mod_lt _ (Nat.succ_pos _)
      have fewer := List.length_eraseIdx_of_lt inside
      rw [List.getElem?_eq_getElem inside]
      rw [inductionHypothesis, fewer, List.length_append, List.length_singleton]
      simp only [List.length_cons]
      omega

/-- The rounds of some number that both parties measured in the same basis. -/
def matchingRounds (count : Nat) (basis : Side → Nat → Bit) : List Nat :=
  (List.range count).filter fun position => basis .lead position = basis .follow position

/-- The leader's draw of tests among rounds: what remains, what is tested, and the indices
that describe the draw. -/
def drawTests (chance : Nat → Nat) (rounds : List Nat) : List Nat × List Nat × List Nat :=
  chooseTests chance (ROUND_SIZE / 4) rounds [] []

/-- The error rate of tested rounds. -/
def rateOf (measure : Side → Nat → Bit) (tests : List Nat) : ℚ :=
  if tests = [] then 1
  else (tests.countP fun position => measure .lead position ≠ measure .follow position) /
    tests.length

/-- Two lists over the first numbers, taken together. -/
theorem zip_range {β γ : Type} (n m : Nat) (f : Nat → β) (g : Nat → γ) :
    ((List.range n).map f).zip ((List.range m).map g) =
      (List.range (min n m)).map fun position => (f position, g position) := by
  have left : min (min n m) n = min n m := by omega
  have right : min (min n m) m = min n m := by omega
  rw [List.zip_eq_zip_take_min]
  simp only [List.length_map, List.length_range, ← List.map_take, List.take_range, left, right,
    List.zip_map']

/-- The outcomes that remain, where there are `n` outcomes and `m` bases. -/
theorem retained_rounds (n m : Nat) (measure own peer : Nat → Bit) :
    retained ((List.range n).map measure) ((List.range m).map own)
        (((List.range m).map peer).map (fun bit => .num bit.val)) =
      ((List.range (min n m)).filter (fun position => own position = peer position)).map
        measure := by
  have both : min (min n m) m = min n m := by omega
  rw [← retained_positions]
  simp only [retained, List.map_map, zip_range, both, min_self]

/-- A list is its entries at all its places. -/
theorem map_getD_range {α : Type} (items : List α) (fallback : α) :
    (List.range items.length).map (fun place => items.getD place fallback) = items := by
  refine List.ext_getElem (by simp) fun place _ inside => ?_
  simp only [List.getElem_map, List.getElem_range, List.getD_eq_getElem?_getD,
    List.getElem?_eq_getElem inside, Option.getD_some]

/-- The outcomes in some rounds. -/
def restrict (x : List Bit) (rounds : List Nat) : List Bit := rounds.map fun round => x.getD round 0

theorem restrict_range (x : List Bit) : restrict x (List.range x.length) = x := map_getD_range x 0

end QChat
