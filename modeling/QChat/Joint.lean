import Mathlib.Tactic.Ring
import QChat.Peers
import QChat.Sifting

/-!
# The joint computation

The local variables of both parties as functions of the choices of both: what
the passes of the two `execute` loops compute when each pass of one party meets
the same pass of the other. Whether it does is not assumed here;
`QChat.BB84Lockstep` proves it of the processes.

The two key protocols run the same loop and differ in how they distill secret bits,
so the passes take the distillation as a parameter: any that keeps the parties aligned
keeps them so at every stage. The conditions of the loops read lengths only, and the
lengths agree on both sides whatever the parties measured.
-/

namespace QChat

open Bits

/-- A leader and a follower of one session: their connection names and their choices,
and the key size the leader asks for. -/
structure Parties extends Peers where
  key_size : Int

/-- The protocol object of a party. -/
abbrev Parties.endpoint (parties : Parties) (side : Side) : Endpoint :=
  parties.toPeers.endpoint .BB84_Purified (.num parties.key_size) side

/-- The aligned codewords in two secrets of one length, without the bits behind the last whole
one. -/
def codewords (x : Side → List Bit) : List (Side → List Bit) :=
  (List.range ((x .lead).length / 23)).map fun i side => ((x side).drop (i * 23)).take 23

/-- The bits behind the last whole codeword. -/
def leftover (x : List Bit) : List Bit := x.drop (x.length / 23 * 23)

/-- What a party makes of its codeword with the leader's syndrome. The leader's own codeword
comes out as it is. -/
def corrected (codeword : Side → List Bit) (side : Side) : List Bit :=
  match ECC_Golay.decode (codeword side) (integers (apply H_Golay (codeword .lead))) with
  | .ok word => word
  | .error _ => []

/-- The reconciled information of a party: its corrected codewords, one behind the other. -/
def reconciledBits (x : Side → List Bit) (side : Side) : List Bit :=
  (codewords x).flatMap (fun codeword => corrected codeword side)

/-- The number the first sixteen bits stand for, the first bit being the highest. -/
def groupValue (reconciled : List Bit) : Nat := binary (reconciled.take (2 * BYTE_LEN))

/-- The first byte of the first sixteen bits. -/
def firstByte (reconciled : List Bit) : UInt8 := UInt8.ofNat (groupValue reconciled / 256)

/-- The second byte of the first sixteen bits. -/
def secondByte (reconciled : List Bit) : UInt8 := UInt8.ofNat (groupValue reconciled % 256)

/-- The high byte of the product of seed and data, which is the byte that is extracted. -/
def highByte (Y a : UInt8) : UInt8 := UInt8.ofNat (Y.toNat * a.toNat / 256)

/-- The tag of two bytes: the low byte of the product, plus the second byte. -/
def tag (Y a b : UInt8) : Nat := Y.toNat * a.toNat % 256 + b.toNat

/-- The follower accepts the leader's tag: the low bytes of both products are the same. -/
def accepts (Y : UInt8) (reconciled : Side → List Bit) : Bool :=
  tag Y (firstByte (reconciled .lead)) (secondByte (reconciled .lead)) =
    tag Y (firstByte (reconciled .follow)) (secondByte (reconciled .follow))

/-- The bytes an amplification adds to the key of a party: one, or none if the tag is
rejected. -/
def amplified (Y : UInt8) (reconciled : Side → List Bit) (side : Side) : Bytes :=
  if accepts Y reconciled then [highByte Y (firstByte (reconciled side))] else []

/-- Both parties between two passes: still in their loops, each with its own variables, or
returned with their keys. -/
inductive Stage where
  | running (progress : Side → Progress)
  | finished (key : Side → Bytes)

namespace Stage

/-- The part of one party. -/
def view : Stage → Side → Execution
  | .running progress, side => .running (progress side)
  | .finished key, side => .finished (key side)

@[simp] theorem view_running (progress : Side → Progress) (side : Side) :
    (running progress).view side = .running (progress side) := rfl

@[simp] theorem view_finished (key : Side → Bytes) (side : Side) :
    (finished key).view side = .finished (key side) := rfl

end Stage

/-- A round of distillation on both sides. Nothing is added where the error rate is too high. -/
def distill (parties : Parties) (progress : Side → Progress) (side : Side) : Progress :=
  { progress side with
    secret_bits := (progress side).secret_bits ++
      distilled parties.chances (progress side).rounds side
    rounds := (progress side).rounds + 1 }

/-- A reconciliation on both sides, which keeps the bits behind the last whole codeword for the
next one. -/
def reconcile (progress : Side → Progress) (side : Side) : Progress :=
  { progress side with
    secret_bits := leftover (progress side).secret_bits
    reconciled := (progress side).reconciled ++
      reconciledBits (fun party => (progress party).secret_bits) side }

/-- A privacy amplification on both sides. The sixteen bits are used up whether or not the tag
is accepted. -/
def amplify (parties : Parties) (progress : Side → Progress) (side : Side) : Progress :=
  { progress side with
    key := (progress side).key ++
      amplified ((parties.chances .lead).Y (progress .lead).attempts)
        (fun party => (progress party).reconciled) side
    reconciled := (progress side).reconciled.drop (2 * BYTE_LEN)
    attempts := (progress side).attempts + 1 }

section Passes

variable (parties : Parties) (distill : (Side → Progress) → Side → Progress)

/-- The next pass of both parties distills, as neither has enough reconciled bits or a codeword
of secret ones. -/
def Distills (progress : Side → Progress) : Prop :=
  ((progress .lead).key.length : Int) < parties.key_size ∧
    (progress .lead).reconciled.length < 2 * BYTE_LEN ∧
    (progress .lead).secret_bits.length < ECC_Golay.codeword_length

/-- One pass on both sides, chosen by the leader's lengths. What a pass that distills comes to
is a parameter, as this is where the two key protocols differ. -/
def advanceBy (progress : Side → Progress) : Stage :=
  if ((progress .lead).key.length : Int) < parties.key_size then
    if (progress .lead).reconciled.length < 2 * BYTE_LEN then
      if (progress .lead).secret_bits.length < ECC_Golay.codeword_length then
        .running (distill progress)
      else .running (reconcile progress)
    else .running (amplify parties progress)
  else .finished fun side => (progress side).key

/-- The stages of a session, one for each pass, as if both parties made their passes at the same
time. -/
def stageBy : Nat → Stage
  | 0 => .running fun _ => Progress.init
  | passes + 1 =>
    match stageBy passes with
    | .running progress => advanceBy parties distill progress
    | .finished key => .finished key

variable {parties distill}

theorem stageBy_next {passes : Nat} {progress : Side → Progress}
    (here : stageBy parties distill passes = .running progress) :
    stageBy parties distill (passes + 1) = advanceBy parties distill progress := by
  simp only [stageBy, here]

/-- A stage that runs after a pass comes from one that ran. -/
theorem stageBy_before {passes : Nat} {progress : Side → Progress}
    (here : stageBy parties distill (passes + 1) = .running progress) :
    ∃ earlier, stageBy parties distill passes = .running earlier ∧
      advanceBy parties distill earlier = .running progress := by
  cases before : stageBy parties distill passes with
  | running earlier => exact ⟨earlier, rfl, (stageBy_next before).symm.trans here⟩
  | finished key =>
    simp only [stageBy, before] at here
    cases here

/-- What a pass that does not end the protocol can be. -/
theorem advanceBy_running {progress later : Side → Progress}
    (goesOn : advanceBy parties distill progress = .running later) :
    ((progress .lead).key.length : Int) < parties.key_size ∧
    (Distills parties progress ∧ later = distill progress ∨
      (progress .lead).reconciled.length < 2 * BYTE_LEN ∧
        ¬ (progress .lead).secret_bits.length < ECC_Golay.codeword_length ∧
        later = reconcile progress ∨
      ¬ (progress .lead).reconciled.length < 2 * BYTE_LEN ∧ later = amplify parties progress) := by
  rw [advanceBy] at goesOn
  split at goesOn
  · next more =>
    refine ⟨more, ?_⟩
    split at goesOn
    · next few =>
      split at goesOn
      · next short =>
        cases goesOn
        exact Or.inl ⟨⟨more, few, short⟩, rfl⟩
      · next long =>
        cases goesOn
        exact Or.inr (Or.inl ⟨few, long, rfl⟩)
    · next enough =>
      cases goesOn
      exact Or.inr (Or.inr ⟨enough, rfl⟩)
  · cases goesOn

/-- The pass before the end is the first with a full key. So a session ends as soon as it
can. -/
theorem stageBy_last {passes : Nat} {keys : Side → Bytes}
    (running : ∀ earlier < passes, ∃ progress, stageBy parties distill earlier = .running progress)
    (stop : stageBy parties distill passes = .finished keys) :
    ∃ before progress, passes = before + 1 ∧
      stageBy parties distill before = .running progress ∧
      ¬ ((progress .lead).key.length : Int) < parties.key_size ∧
      keys = fun side => (progress side).key := by
  cases passes with
  | zero => cases stop
  | succ before =>
    obtain ⟨progress, here⟩ := running before (Nat.lt_succ_self before)
    refine ⟨before, progress, rfl, here, ?_⟩
    rw [stageBy_next here, advanceBy] at stop
    split at stop
    · split at stop
      · split at stop <;> cases stop
      · cases stop
    · next full =>
      cases stop
      exact ⟨full, rfl⟩

end Passes

/-- A pass of BB84, with its own distillation. -/
abbrev advance (parties : Parties) : (Side → Progress) → Stage :=
  advanceBy parties (distill parties)

/-- The stages of a BB84 session. -/
abbrev stage (parties : Parties) : Nat → Stage := stageBy parties (distill parties)

/-- The lengths and call numbers of both parties agree. The conditions of the loops depend on
nothing else, so both parties go the same way at their next loop head; the bits themselves may
differ. -/
structure Aligned (progress : Side → Progress) : Prop where
  key : ∀ side, (progress side).key.length = (progress .lead).key.length
  secret_bits : ∀ side, (progress side).secret_bits.length = (progress .lead).secret_bits.length
  reconciled : ∀ side, (progress side).reconciled.length = (progress .lead).reconciled.length
  rounds : ∀ side, (progress side).rounds = (progress .lead).rounds
  attempts : ∀ side, (progress side).attempts = (progress .lead).attempts

theorem codewords_length (x : Side → List Bit)
    (same : ∀ side, (x side).length = (x .lead).length) :
    ∀ codeword ∈ codewords x, ∀ side, (codeword side).length = 23 := by
  intro codeword member side
  simp only [codewords, List.mem_map, List.mem_range] at member
  obtain ⟨i, bounded, rfl⟩ := member
  have whole := same side
  simp only [List.length_take, List.length_drop]
  omega

/-- Correction of a codeword never fails and gives a codeword. -/
theorem corrected_ok (codeword : Side → List Bit) (side : Side)
    (width : ∀ side, (codeword side).length = 23) :
    ECC_Golay.decode (codeword side) (integers (apply H_Golay (codeword .lead))) =
        .ok (corrected codeword side) ∧
      (corrected codeword side).length = 23 := by
  obtain ⟨word, decoded, wordLength⟩ := golay_decode_total (codeword side)
    (apply H_Golay (codeword .lead)) (width side) (apply_length H_Golay _)
  have same : corrected codeword side = word := by simp only [corrected, decoded]
  rw [same]
  exact ⟨decoded, wordLength⟩

theorem reconciledBits_length (x : Side → List Bit) (side : Side)
    (same : ∀ side, (x side).length = (x .lead).length) :
    (reconciledBits x side).length = (x .lead).length / 23 * 23 := by
  have each : ∀ codeword ∈ codewords x, (corrected codeword side).length = 23 :=
    fun codeword member => (corrected_ok codeword side (codewords_length x same codeword member)).2
  have sum : (codewords x).map (fun codeword => (corrected codeword side).length) =
      (codewords x).map (fun _ => 23) := List.map_congr_left each
  rw [reconciledBits, List.length_flatMap, sum, List.map_const', List.sum_replicate_nat]
  simp [codewords]

theorem binary_bound (bits : List Bit) : binary bits < 2 ^ bits.length := by
  have grows (bits : List Bit) (value : Nat) :
      bits.foldl (fun value bit => 2 * value + bit.val) value < (value + 1) * 2 ^ bits.length := by
    induction bits generalizing value with
    | nil => simp
    | cons bit rest inductionHypothesis =>
      have bound := bit.isLt
      have below := inductionHypothesis (2 * value + bit.val)
      have most : 2 * value + bit.val + 1 ≤ 2 * (value + 1) := by omega
      calc (bit :: rest).foldl (fun value bit => 2 * value + bit.val) value
          < (2 * value + bit.val + 1) * 2 ^ rest.length := below
        _ ≤ 2 * (value + 1) * 2 ^ rest.length := Nat.mul_le_mul_right _ most
        _ = (value + 1) * 2 ^ (bit :: rest).length := by
          rw [List.length_cons, Nat.pow_succ]
          ring
  simpa [binary] using grows bits 0

/-- With sixteen reconciled bits the two bytes are there. -/
theorem reconciled_bytes_ok (reconciled : List Bit) (enough : 2 * BYTE_LEN ≤ reconciled.length) :
    BB84_Purified.reconciled_bytes reconciled =
      .ok [firstByte reconciled, secondByte reconciled] := by
  have length : (reconciled.take (2 * BYTE_LEN)).length = 16 := by
    rw [List.length_take]
    exact Nat.min_eq_left enough
  have present : reconciled.take (2 * BYTE_LEN) ≠ [] := by
    intro empty
    simp [empty] at length
  have bound := binary_bound (reconciled.take (2 * BYTE_LEN))
  rw [length] at bound
  rw [BB84_Purified.reconciled_bytes, if_neg present]
  exact Bytes.ofInt_two _ bound

/-- The product of two bytes has two bytes. -/
theorem product_bytes (Y a : UInt8) :
    Bytes.ofInt 2 (Y.toNat * a.toNat : Int) =
      .ok [highByte Y a, UInt8.ofNat (Y.toNat * a.toNat % 256)] := by
  have yBound := Y.toNat_lt
  have aBound := a.toNat_lt
  have product : Y.toNat * a.toNat ≤ 255 * 255 := Nat.mul_le_mul (by omega) (by omega)
  have bytes := Bytes.ofInt_two (Y.toNat * a.toNat) (by omega)
  rw [Int.natCast_mul] at bytes
  exact bytes

/-- The passes keep both parties aligned. -/
theorem Aligned.distill {progress : Side → Progress} (aligned : Aligned progress)
    (parties : Parties) : Aligned (distill parties progress) where
  key := aligned.key
  secret_bits := by
    intro side
    have own := aligned.secret_bits side
    have number := aligned.rounds side
    have added := distilled_length parties.chances (progress .lead).rounds side .lead
    simp only [QChat.distill, List.length_append, own, number, added]
  reconciled := aligned.reconciled
  rounds := fun side => congrArg (· + 1) (aligned.rounds side)
  attempts := aligned.attempts

theorem Aligned.reconcile {progress : Side → Progress} (aligned : Aligned progress) :
    Aligned (reconcile progress) where
  key := aligned.key
  secret_bits := by
    intro side
    have own := aligned.secret_bits side
    simp only [QChat.reconcile, leftover, List.length_drop, own]
  reconciled := by
    intro side
    have own := aligned.reconciled side
    have added := reconciledBits_length (fun party => (progress party).secret_bits) side
      aligned.secret_bits
    have leading := reconciledBits_length (fun party => (progress party).secret_bits) .lead
      aligned.secret_bits
    simp only [QChat.reconcile, List.length_append, own, added, leading]
  rounds := aligned.rounds
  attempts := aligned.attempts

theorem Aligned.amplify {progress : Side → Progress} (aligned : Aligned progress)
    (parties : Parties) : Aligned (amplify parties progress) where
  key := by
    intro side
    have own := aligned.key side
    simp only [QChat.amplify, amplified, List.length_append, own]
    split <;> rfl
  secret_bits := aligned.secret_bits
  reconciled := by
    intro side
    have own := aligned.reconciled side
    simp only [QChat.amplify, List.length_drop, own]
  rounds := aligned.rounds
  attempts := fun side => congrArg (· + 1) (aligned.attempts side)

theorem aligned_init : Aligned fun _ => Progress.init :=
  ⟨fun _ => rfl, fun _ => rfl, fun _ => rfl, fun _ => rfl, fun _ => rfl⟩

/-- The parties are aligned at every stage before the end, by induction over the passes, if
distilling keeps them aligned. -/
theorem stageBy_aligned {parties : Parties} {distill : (Side → Progress) → Side → Progress}
    (keeps : ∀ progress, Aligned progress → Aligned (distill progress))
    {passes : Nat} {progress : Side → Progress}
    (here : stageBy parties distill passes = .running progress) : Aligned progress := by
  induction passes generalizing progress with
  | zero =>
    cases here
    exact aligned_init
  | succ passes inductionHypothesis =>
    obtain ⟨earlier, before, goesOn⟩ := stageBy_before here
    have aligned := inductionHypothesis before
    rcases (advanceBy_running goesOn).2 with ⟨-, rfl⟩ | ⟨-, -, rfl⟩ | ⟨-, rfl⟩
    · exact keeps earlier aligned
    · exact aligned.reconcile
    · exact aligned.amplify parties

theorem stage_aligned {parties : Parties} {passes : Nat} {progress : Side → Progress}
    (here : stage parties passes = .running progress) : Aligned progress :=
  stageBy_aligned (fun _ aligned => aligned.distill parties) here

end QChat
