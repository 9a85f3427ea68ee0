import QChat.KeyStream

/-!
# What the passes say of the keys

For any distillation that keeps the parties aligned and their keys unchanged: the keys
of both parties are equal exactly if behind every accepted tag the sums are, and noise
that the code can correct leaves no difference. Both key protocols use these results.
-/

namespace QChat

open Bits

/-- The seed times the first byte, plus the second byte. The tag is this number
with the product cut to its low byte. -/
def tagged (Y : UInt8) (reconciled : List Bit) : Nat :=
  Y.toNat * (firstByte reconciled).toNat + (secondByte reconciled).toNat

theorem highByte_toNat (Y a : UInt8) : (highByte Y a).toNat = Y.toNat * a.toNat / 256 := by
  have yBound := Y.toNat_lt
  have aBound := a.toNat_lt
  have product : Y.toNat * a.toNat ≤ 255 * 255 := Nat.mul_le_mul (by omega) (by omega)
  rw [highByte, UInt8.toNat_ofNat', Nat.mod_eq_of_lt (by omega)]

/-- An accepted tag fixes the bytes of both parties up to multiples of 256. -/
theorem accepts_tagged (Y : UInt8) (reconciled : Side → List Bit)
    (accepted : accepts Y reconciled = true) :
    (tagged Y (reconciled .lead) : Int) - tagged Y (reconciled .follow) =
      256 * ((highByte Y (firstByte (reconciled .lead))).toNat -
        (highByte Y (firstByte (reconciled .follow))).toNat) := by
  have same : tag Y (firstByte (reconciled .lead)) (secondByte (reconciled .lead)) =
      tag Y (firstByte (reconciled .follow)) (secondByte (reconciled .follow)) :=
    of_decide_eq_true accepted
  simp only [tag] at same
  simp only [tagged, highByte_toNat]
  generalize Y.toNat * (firstByte (reconciled .lead)).toNat = leading at same ⊢
  generalize Y.toNat * (firstByte (reconciled .follow)).toNat = following at same ⊢
  omega

/-- After an accepted tag the bytes are equal exactly if the sums are: the low bytes are the
same, so equal high bytes make equal numbers. -/
theorem accepts_highByte (Y : UInt8) (reconciled : Side → List Bit)
    (accepted : accepts Y reconciled = true) :
    highByte Y (firstByte (reconciled .lead)) = highByte Y (firstByte (reconciled .follow)) ↔
      tagged Y (reconciled .lead) = tagged Y (reconciled .follow) := by
  have sums := accepts_tagged Y reconciled accepted
  rw [← UInt8.toNat_inj]
  omega

/-- The next pass of a stage amplifies: the key is not full and there are sixteen reconciled
bits. -/
def Amplifies (parties : Parties) (progress : Side → Progress) : Prop :=
  ((progress .lead).key.length : Int) < parties.key_size ∧
    ¬ (progress .lead).reconciled.length < 2 * BYTE_LEN

/-- In an amplification whose tag is accepted, the sums of both parties agree as numbers and not
only in their low bytes, which the tag compares. -/
def SumsAgree (parties : Parties) (progress : Side → Progress) : Prop :=
  Amplifies parties progress →
    accepts ((parties.chances .lead).Y (progress .lead).attempts)
      (fun side => (progress side).reconciled) = true →
    tagged ((parties.chances .lead).Y (progress .lead).attempts) (progress .lead).reconciled =
      tagged ((parties.chances .lead).Y (progress .lead).attempts) (progress .follow).reconciled

variable {parties : Parties} {distill : (Side → Progress) → Side → Progress}

/-- The keys of a stage are equal exactly if the sums agreed in every pass. -/
theorem stageBy_keys (keeps : ∀ progress, Aligned progress → Aligned (distill progress))
    (others : ∀ progress side, (distill progress side).key = (progress side).key)
    {passes : Nat} {progress : Side → Progress}
    (here : stageBy parties distill passes = .running progress) :
    (progress .lead).key = (progress .follow).key ↔
      ∀ n < passes, ∀ earlier, stageBy parties distill n = .running earlier →
        SumsAgree parties earlier := by
  induction passes generalizing progress with
  | zero =>
    cases here
    simp
  | succ passes inductionHypothesis =>
    obtain ⟨earlier, before, goesOn⟩ := stageBy_before here
    have aligned := stageBy_aligned keeps before
    have split_last : (∀ n < passes + 1, ∀ earlier, stageBy parties distill n = .running earlier →
        SumsAgree parties earlier) ↔
        (earlier .lead).key = (earlier .follow).key ∧ SumsAgree parties earlier := by
      rw [inductionHypothesis before]
      constructor
      · intro each
        exact ⟨fun n bounded => each n (Nat.lt_succ_of_lt bounded),
          each passes (Nat.lt_succ_self passes) earlier before⟩
      · rintro ⟨sooner, last⟩ n bounded other place
        obtain less | rfl := Nat.lt_succ_iff_lt_or_eq.mp bounded
        · exact sooner n less other place
        · rw [before] at place
          cases place
          exact last
    rw [split_last]
    obtain ⟨more, ⟨⟨-, few, -⟩, rfl⟩ | ⟨few, -, rfl⟩ | ⟨enough, rfl⟩⟩ := advanceBy_running goesOn
    · have skipped : SumsAgree parties earlier := fun amplifies => absurd few amplifies.2
      rw [others, others]
      exact (and_iff_left skipped).symm
    · have skipped : SumsAgree parties earlier := fun amplifies => absurd few amplifies.2
      exact (and_iff_left skipped).symm
    · have amplifies : Amplifies parties earlier := ⟨more, enough⟩
      simp only [amplify, amplified]
      cases accepted : accepts ((parties.chances .lead).Y (earlier .lead).attempts)
          (fun party => (earlier party).reconciled) with
      | false =>
        have skipped : SumsAgree parties earlier := by
          intro _ contrary
          rw [accepted] at contrary
          cases contrary
        simpa using (and_iff_left skipped).symm
      | true =>
        have bytes := accepts_highByte _ _ accepted
        have sums : SumsAgree parties earlier ↔ _ :=
          ⟨fun agree => agree amplifies accepted, fun same _ _ => same⟩
        rw [sums, ← bytes]
        simp only [↓reduceIte]
        constructor
        · intro same
          obtain ⟨keys, last⟩ := List.append_inj same (aligned.key .follow).symm
          exact ⟨keys, List.singleton_inj.mp last⟩
        · rintro ⟨keys, last⟩
          rw [keys, last]

/-- If all codewords that are reconciled differ in at most three positions, both parties
have the same reconciled bits and the same key at every stage. -/
theorem stageBy_correctable
    (keeps : ∀ progress, Aligned progress → Aligned (distill progress))
    (others : ∀ progress side, (distill progress side).key = (progress side).key ∧
      (distill progress side).reconciled = (progress side).reconciled)
    {passes : Nat} (light : ∀ n < passes, ∀ progress,
      stageBy parties distill n = .running progress → Reconciles parties progress →
        ∀ codeword ∈ codewords (fun side => (progress side).secret_bits),
          distance (codeword .lead) (codeword .follow) ≤ 3)
    {progress : Side → Progress} (here : stageBy parties distill passes = .running progress) :
    (progress .follow).key = (progress .lead).key ∧
      (progress .follow).reconciled = (progress .lead).reconciled := by
  induction passes generalizing progress with
  | zero =>
    cases here
    exact ⟨rfl, rfl⟩
  | succ passes inductionHypothesis =>
    obtain ⟨earlier, before, goesOn⟩ := stageBy_before here
    have aligned := stageBy_aligned keeps before
    obtain ⟨keys, bits⟩ :=
      inductionHypothesis (fun n bounded => light n (Nat.lt_succ_of_lt bounded)) before
    obtain ⟨more, ⟨-, rfl⟩ | ⟨few, long, rfl⟩ | ⟨-, rfl⟩⟩ := advanceBy_running goesOn
    · simp only [others]
      exact ⟨keys, bits⟩
    · refine ⟨keys, ?_⟩
      have near := light passes (Nat.lt_succ_self passes) earlier before ⟨more, few, long⟩
      simp only [reconcile, bits, reconciledBits_follow _ aligned.secret_bits near]
    · have added : amplified ((parties.chances .lead).Y (earlier .lead).attempts)
          (fun party => (earlier party).reconciled) .follow =
          amplified ((parties.chances .lead).Y (earlier .lead).attempts)
            (fun party => (earlier party).reconciled) .lead := by
        simp only [amplified, bits]
      simp only [amplify, keys, bits, added, and_self]

end QChat
