import QChat.DIQKD

/-!
# What the device test makes of both parties' data

The test as a function of the bases and outcomes of both parties at positions
that exist. Both parties compute the same verdict and keep the same positions,
although each of them sees the data from its own side.
-/

namespace QChat

namespace DIQKD

theorem subscript_position {β : Type} (items : List β) (j : Nat) (item : β)
    (present : items[j]? = some item) : subscript items (.num j) = .ok item := by
  have positive : ¬ (j : Int) < 0 := by omega
  simp only [subscript, Value.index, ok_bind, positive, ↓reduceIte, Int.natCast_nonneg,
    Int.toNat_natCast, present]

/-- A list over the positions of a round has its value at each of them. -/
theorem subscript_range {β : Type} (n : Nat) (f : Nat → β) (j : Nat) (inside : j < n) :
    subscript ((List.range n).map f) (.num j) = .ok (f j) := by
  apply subscript_position
  simp [inside]

theorem subscript_ofNats (n : Nat) (f : Nat → Nat) (j : Nat) (inside : j < n) :
    (Value.ofNats ((List.range n).map f)).subscript (.num j) = .ok (.num (f j)) := by
  rw [Value.ofNats, List.map_map]
  exact subscript_range n _ j inside

/-- A selection whose test never fails is a filter. -/
theorem select_ok {β γ : Type} (test : γ → Except Exn Bool) (h : β → γ) (p : β → Bool)
    (items : List β) (each : ∀ item ∈ items, test (h item) = .ok (p item)) :
    select test (items.map h) = .ok ((items.filter p).map h) := by
  induction items with
  | nil => rfl
  | cons item rest inductionHypothesis =>
    have first := each item (by simp)
    have others := inductionHypothesis fun other member => each other (by simp [member])
    simp only [List.map_cons, select, first, ok_bind, others, pure_ok, List.filter_cons]
    cases p item <;> rfl

@[simp] theorem listed_positions (j : Nat) (places : List Nat) :
    listed (.num j) (places.map fun j : Nat => .num j) = decide (j ∈ places) := by
  simp only [listed, Value.index]
  rw [Bool.eq_iff_iff, List.any_map, List.any_eq_true, decide_eq_true_eq]
  simp only [Function.comp_apply, Value.equals_num, decide_eq_true_eq, Int.natCast_inj]
  constructor
  · rintro ⟨place, member, rfl⟩
    exact member
  · exact fun member => ⟨j, member, rfl⟩

theorem outcomes_at_positions (n : Nat) (u : Nat → Bit) (places : List Nat)
    (inside : ∀ j ∈ places, j < n) :
    outcomes_at ((List.range n).map u) (places.map fun j : Nat => .num j) =
      .ok (places.map u) := by
  induction places with
  | nil => rfl
  | cons j places inductionHypothesis =>
    have here := subscript_range n u j (inside j (by simp))
    have others := inductionHypothesis fun place member => inside place (by simp [member])
    simp only [List.map_cons, outcomes_at, here, ok_bind, others, pure_ok]

variable (f g : Nat → Nat) (u v : Nat → Bit)

/-- The follower measured for the CHSH game. -/
def chshRound (j : Nat) : Bool := g j = 0 ∨ g j = 1

/-- Both parties measured in the same basis. -/
def matchRound (j : Nat) : Bool := f j = 0 ∧ g j = 2

/-- The test and kept rounds of both parties. -/
theorem rounds_positions {visits : List Nat → List Nat}
    (perm : ∀ places, (visits places).Perm places) (n : Nat) (T : List Nat)
    (inside : ∀ j ∈ T, j < n) :
    rounds visits (.ofNats ((List.range n).map f)) (.ofNats ((List.range n).map g)) n
        (T.map fun j : Nat => .num j) =
      .ok ((T.filter (chshRound g)).map fun j : Nat => .num j,
        (T.filter (matchRound f g)).map fun j : Nat => .num j,
        ((visits ((List.range n).filter fun j => j ∉ T)).filter (matchRound f g)).map
          fun j : Nat => .num j) := by
  have games : chsh_rounds (.ofNats ((List.range n).map g)) (T.map fun j : Nat => .num j) =
      .ok ((T.filter (chshRound g)).map fun j : Nat => .num j) := by
    apply select_ok
    intro j member
    have bound := inside j member
    simp only [subscript_ofNats n g j bound, ok_bind, pure_ok, Value.equals_num, chshRound,
      Except.ok.injEq]
    rw [Bool.eq_iff_iff, Bool.or_eq_true]
    simp only [decide_eq_true_eq]
    omega
  have same (places : List Nat) (bounds : ∀ j ∈ places, j < n) :
      match_rounds (.ofNats ((List.range n).map f)) (.ofNats ((List.range n).map g))
          (places.map fun j : Nat => .num j) =
        .ok ((places.filter (matchRound f g)).map fun j : Nat => .num j) := by
    apply select_ok
    intro j member
    have bound := bounds j member
    simp only [subscript_ofNats n f j bound, subscript_ofNats n g j bound, ok_bind, pure_ok,
      Value.equals_num, matchRound]
    by_cases leads : f j = 0
    · simp [leads]
      omega
    · simp [leads]
  have rest := same (visits ((List.range n).filter fun j => j ∉ T)) fun j member => by
    have listed := (perm _).mem_iff.mp member
    simp only [List.mem_filter, List.mem_range] at listed
    exact listed.1
  have remaining : ((List.range n).filter fun j : Nat =>
      !listed (.num j) (T.map fun j : Nat => .num j)) = (List.range n).filter fun j => j ∉ T := by
    apply List.filter_congr
    intro j _
    rw [listed_positions, decide_not]
  simp only [rounds, games, same T inside, ok_bind, remaining, rest, pure_ok]

/-- A test round of the game is won. -/
def won (j : Nat) : Bool :=
  decide (Int.xor (u j).val (v j).val = Int.land (f j) (g j)) && chshRound g j

/-- The outcomes of a matching test round agree. -/
def agreed (j : Nat) : Bool := u j = v j ∧ matchRound f g j

/-- The verdict on the test rounds. -/
def verdict (T : List Nat) : Except Exn Unit := do
  let p_win ← divide (T.filter (won f g u v)).length (T.filter (chshRound g)).length
  let p_match ← divide (T.filter (agreed f g u v)).length (T.filter (matchRound f g)).length
  if p_win < PCHSH - 1 / 10 ∨ p_match < 1 - 1 / 10 then .error test_failure else .ok ()

/-- A verdict is passing, or one of two failures. -/
theorem verdict_cases (T : List Nat) :
    verdict f g u v T = .ok () ∨ verdict f g u v T = .error .ZeroDivisionError ∨
      verdict f g u v T = .error test_failure := by
  unfold verdict divide
  split
  · exact .inr (.inl rfl)
  · rw [ok_bind]
    split
    · exact .inr (.inl rfl)
    · rw [ok_bind]
      split
      · exact .inr (.inr rfl)
      · exact .inl rfl

/-- A party has its own side's data as its own, whichever of the two sides it is on. -/
def Sides (own peer : Nat → Nat) (x y : Nat → Bit) : Prop :=
  (own = f ∧ peer = g ∧ x = u ∧ y = v) ∨ (own = g ∧ peer = f ∧ x = v ∧ y = u)

section Sides

variable {f g u v} {own peer : Nat → Nat} {x y : Nat → Bit} (n : Nat) (T : List Nat)

/-- The test rounds with both parties' outcomes, as a party goes through them. -/
theorem entries_positions : (T.map fun j : Nat => Value.num j).zip
    ((T.map x).zip ((T.map y).map fun bit => Value.num bit.val)) =
    T.map fun j : Nat => (.num j, x j, .num (y j).val) := by
  simp only [List.map_map, List.zip_map', Function.comp_def]

/-- Both parties find the same rounds won. -/
theorem winning_positions (sides : Sides f g u v own peer x y) (inside : ∀ j ∈ T, j < n) :
    select (wins (.ofNats ((List.range n).map own)) (.ofNats ((List.range n).map peer))
        ((T.filter (chshRound g)).map fun j : Nat => .num j))
      (T.map fun j : Nat => (.num j, x j, .num (y j).val)) =
      .ok ((T.filter (won f g u v)).map fun j : Nat => (.num j, x j, .num (y j).val)) := by
  have crossed (j : Nat) : (Int.xor (x j).val (y j).val = Int.land (own j) (peer j)) ↔
      (Int.xor (u j).val (v j).val = Int.land (f j) (g j)) := by
    obtain ⟨rfl, rfl, rfl, rfl⟩ | ⟨rfl, rfl, rfl, rfl⟩ := sides
    · exact Iff.rfl
    · have sums : Int.xor (x j).val (y j).val = Int.xor (y j).val (x j).val :=
        congrArg Int.ofNat (Nat.xor_comm _ _)
      have products : Int.land (own j) (peer j) = Int.land (peer j) (own j) :=
        congrArg Int.ofNat (Nat.land_comm _ _)
      rw [sums, products]
  apply select_ok
  intro j member
  have bound := inside j member
  simp only [wins, Value.index, ok_bind, subscript_ofNats n own j bound,
    subscript_ofNats n peer j bound, pure_ok, listed_positions, crossed, won, List.mem_filter,
    member, true_and, Bool.decide_eq_true]

/-- Both parties find the same rounds matching. -/
theorem matching_positions (sides : Sides f g u v own peer x y) :
    select (matches_peer ((T.filter (matchRound f g)).map fun j : Nat => .num j))
      (T.map fun j : Nat => (.num j, x j, .num (y j).val)) =
      .ok ((T.filter (agreed f g u v)).map fun j : Nat => (.num j, x j, .num (y j).val)) := by
  have equal (j : Nat) : x j = y j ↔ u j = v j := by
    obtain ⟨rfl, rfl, rfl, rfl⟩ | ⟨rfl, rfl, rfl, rfl⟩ := sides
    · exact Iff.rfl
    · exact eq_comm
  apply select_ok
  intro j member
  simp only [matches_peer, Value.equals_bit, listed_positions, agreed, List.mem_filter, member,
    true_and, Except.ok.injEq]
  rw [Bool.eq_iff_iff, Bool.and_eq_true]
  simp only [decide_eq_true_eq]
  rw [eq_comm (a := y j), equal]

end Sides

end DIQKD

end QChat
