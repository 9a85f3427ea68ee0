import QChat.Joint

/-!
# The bits behind the key

The leader's sifted and untested bits, round after round, form one stream. The
passes of `execute` cut it into codewords of 23 bits and, behind those, into
groups of 16 bits, and carry what is left over from pass to pass in `secret_bits`
and `reconciled`. `Carried` says where in the stream both variables are at every
stage: no bit is lost, doubled or moved. `referenceKey` is the key computed from
the stream at once.
-/

namespace QChat

open Bits

/-- The leader's sifted, untested bits of the accepted rounds, in order. The key is a function
of these bits and the seeds. -/
def stream (chances : Side → Chances) (rounds : Nat) : List Bit :=
  (List.range rounds).flatMap (fun round => distilled chances round .lead)

/-- Consecutive blocks of 23 bits, without the incomplete tail, of which no codeword is made
before more bits come. -/
def blocks (bits : List Bit) : List (List Bit) :=
  (List.range (bits.length / 23)).map (fun i => (bits.drop (i * 23)).take 23)

/-- The key as a function of the leader's bits: cut the stream into blocks,
concatenate them, cut the result into groups of 16 bits, and take the high byte
of the product of the seed and the group's first byte. -/
def referenceKey (parties : Parties) (rounds : Nat) : Bytes :=
  (List.range parties.key_size.toNat).map fun i =>
    highByte ((parties.chances .lead).Y i)
      (firstByte (((blocks (stream parties.chances rounds)).flatten.drop (16 * i)).take 16))

theorem stream_succ (chances : Side → Chances) (rounds : Nat) :
    stream chances (rounds + 1) = stream chances rounds ++ distilled chances rounds .lead := by
  simp [stream, List.range_succ]

/-- The first blocks of a list, put together again, are its front. -/
theorem flatten_pieces (bits : List Bit) (count : Nat) (enough : count * 23 ≤ bits.length) :
    ((List.range count).map (fun i => (bits.drop (i * 23)).take 23)).flatten =
      bits.take (count * 23) := by
  induction count with
  | zero => simp
  | succ count inductionHypothesis =>
    rw [List.range_succ, List.map_append, List.flatten_append, inductionHypothesis (by omega),
      List.map_singleton, List.flatten_singleton, Nat.succ_mul, List.take_add]

theorem flatten_blocks (bits : List Bit) :
    (blocks bits).flatten = bits.take (bits.length / 23 * 23) :=
  flatten_pieces bits _ (Nat.div_mul_le_self _ _)

/-- Only the first sixteen bits matter for the first byte. -/
theorem firstByte_take (bits : List Bit) (length : Nat) (enough : 16 ≤ length) :
    firstByte (bits.take length) = firstByte bits := by
  have cut : min (2 * BYTE_LEN) length = 2 * BYTE_LEN := Nat.min_eq_left enough
  simp only [firstByte, groupValue, List.take_take, cut]

theorem firstByte_append (front back : List Bit) (enough : 16 ≤ front.length) :
    firstByte (front ++ back) = firstByte front := by
  have cut : (front ++ back).take (2 * BYTE_LEN) = front.take (2 * BYTE_LEN) :=
    List.take_append_of_le_length enough
  simp only [firstByte, groupValue, cut]

/-- The leader corrects its own codeword to itself. -/
theorem corrected_lead (codeword : Side → List Bit) (width : (codeword .lead).length = 23) :
    corrected codeword .lead = codeword .lead := by
  have light : distance (codeword .lead) (codeword .lead) ≤ 3 := by
    rw [distance_self]
    decide
  simp only [corrected, golay_decode_light _ _ width width light]

/-- The follower corrects its codeword to any near word with the leader's syndrome: the error
that is listed under the sum of the syndromes is the difference of the two. -/
theorem corrected_near (codeword : Side → List Bit) (word : List Bit) (wordWidth : word.length = 23)
    (width : (codeword .follow).length = 23)
    (same : apply H_Golay (codeword .lead) = apply H_Golay word)
    (near : distance word (codeword .follow) ≤ 3) : corrected codeword .follow = word := by
  simp only [corrected, same, golay_decode_light _ _ wordWidth width near]

/-- With at most three errors this is the leader's codeword. -/
theorem corrected_follow (codeword : Side → List Bit)
    (width : ∀ side, (codeword side).length = 23)
    (light : distance (codeword .lead) (codeword .follow) ≤ 3) :
    corrected codeword .follow = codeword .lead :=
  corrected_near codeword (codeword .lead) (width .lead) (width .follow) rfl light

/-- The leader's reconciled bits are the whole codewords of its secret. -/
theorem reconciledBits_lead (x : Side → List Bit)
    (same : ∀ side, (x side).length = (x .lead).length) :
    reconciledBits x .lead = (x .lead).take ((x .lead).length / 23 * 23) := by
  have own : ∀ codeword ∈ codewords x, corrected codeword .lead = codeword .lead :=
    fun codeword member => corrected_lead codeword (codewords_length x same codeword member .lead)
  rw [← flatten_blocks, reconciledBits, List.flatMap_def, List.map_congr_left own, codewords,
    List.map_map]
  rfl

/-- With at most three errors in each codeword the follower's are the same. More errors in one
of them are corrected to something else. -/
theorem reconciledBits_follow (x : Side → List Bit)
    (same : ∀ side, (x side).length = (x .lead).length)
    (light : ∀ codeword ∈ codewords x, distance (codeword .lead) (codeword .follow) ≤ 3) :
    reconciledBits x .follow = reconciledBits x .lead := by
  have width := codewords_length x same
  rw [reconciledBits, reconciledBits, List.flatMap_def, List.flatMap_def]
  refine congrArg List.flatten (List.map_congr_left fun codeword member => ?_)
  rw [corrected_follow codeword (width codeword member) (light codeword member),
    corrected_lead codeword (width codeword member .lead)]

/-- Where the variables of both parties are in the leader's stream, of which
`count` blocks have been reconciled and `attempts` groups used. -/
structure Carried (parties : Parties) (progress : Side → Progress) (count : Nat) : Prop where
  aligned : Aligned progress
  same_reconciled : (progress .follow).reconciled = (progress .lead).reconciled
  same_key : (progress .follow).key = (progress .lead).key
  enough : 23 * count ≤ (stream parties.chances (progress .lead).rounds).length
  used : 16 * (progress .lead).attempts ≤ 23 * count
  secret_bits : (progress .lead).secret_bits =
    (stream parties.chances (progress .lead).rounds).drop (23 * count)
  reconciled : (progress .lead).reconciled =
    ((stream parties.chances (progress .lead).rounds).take (23 * count)).drop
      (16 * (progress .lead).attempts)
  key : (progress .lead).key = (List.range (progress .lead).attempts).map fun i =>
    highByte ((parties.chances .lead).Y i)
      (firstByte ((stream parties.chances (progress .lead).rounds).drop (16 * i)))

theorem carried_init (parties : Parties) : Carried parties (fun _ => Progress.init) 0 where
  aligned := aligned_init
  same_reconciled := rfl
  same_key := rfl
  enough := Nat.zero_le _
  used := Nat.le_refl 0
  secret_bits := rfl
  reconciled := rfl
  key := rfl

/-- Distilling appends to the stream and to the secret alike. -/
theorem Carried.distill {parties : Parties} {progress : Side → Progress} {count : Nat}
    (carried : Carried parties progress count) :
    Carried parties (distill parties progress) count where
  aligned := carried.aligned.distill parties
  same_reconciled := carried.same_reconciled
  same_key := carried.same_key
  enough := by
    have enough := carried.enough
    simp only [QChat.distill, stream_succ, List.length_append]
    omega
  used := carried.used
  secret_bits := by
    simp only [QChat.distill, stream_succ, carried.secret_bits,
      List.drop_append_of_le_length carried.enough]
  reconciled := by
    simp only [QChat.distill, stream_succ, carried.reconciled,
      List.take_append_of_le_length carried.enough]
  key := by
    have enough := carried.enough
    have used := carried.used
    simp only [QChat.distill, stream_succ, carried.key]
    refine List.map_congr_left fun i bounded => ?_
    rw [List.mem_range] at bounded
    rw [List.drop_append_of_le_length (by omega), firstByte_append _ _ (by
      rw [List.length_drop]
      omega)]

/-- Reconciling moves the whole codewords from the secret to the reconciled bits, so the two
together stay the stream. -/
theorem Carried.reconcile {parties : Parties} {progress : Side → Progress} {count : Nat}
    (carried : Carried parties progress count)
    (light : ∀ codeword ∈ codewords (fun side => (progress side).secret_bits),
      distance (codeword .lead) (codeword .follow) ≤ 3) :
    Carried parties (reconcile progress)
      (count + (progress .lead).secret_bits.length / 23) where
  aligned := carried.aligned.reconcile
  same_reconciled := by
    have same := reconciledBits_follow (fun side => (progress side).secret_bits)
      carried.aligned.secret_bits light
    simp only [QChat.reconcile, same, carried.same_reconciled]
  same_key := carried.same_key
  enough := by
    have enough := carried.enough
    have length := congrArg List.length carried.secret_bits
    rw [List.length_drop] at length
    simp only [QChat.reconcile]
    omega
  used := by
    have used := carried.used
    simp only [QChat.reconcile]
    omega
  secret_bits := by
    simp only [QChat.reconcile, leftover]
    rw [Nat.mul_add, Nat.mul_comm 23 ((progress .lead).secret_bits.length / 23),
      ← List.drop_drop, ← carried.secret_bits]
  reconciled := by
    have used := carried.used
    have enough := carried.enough
    have front := reconciledBits_lead (fun side => (progress side).secret_bits)
      carried.aligned.secret_bits
    simp only [QChat.reconcile]
    rw [front, Nat.mul_add, Nat.mul_comm 23 ((progress .lead).secret_bits.length / 23),
      List.take_add, ← carried.secret_bits, List.drop_append_of_le_length (by
        rw [List.length_take]
        omega), ← carried.reconciled]
  key := carried.key

/-- Amplification uses up one group of both parties, and accepts it, as equal groups have equal
tags. -/
theorem Carried.amplify {parties : Parties} {progress : Side → Progress} {count : Nat}
    (carried : Carried parties progress count)
    (enough : ¬ (progress .lead).reconciled.length < 2 * BYTE_LEN) :
    Carried parties (amplify parties progress) count := by
  have length := congrArg List.length carried.reconciled
  have available := carried.enough
  have groups : 16 ≤ (progress .lead).reconciled.length := Nat.not_lt.mp enough
  rw [List.length_drop, List.length_take, Nat.min_eq_left available] at length
  have accepted : accepts ((parties.chances .lead).Y (progress .lead).attempts)
      (fun party => (progress party).reconciled) = true := by
    simp only [accepts, carried.same_reconciled, decide_true]
  exact {
    aligned := carried.aligned.amplify parties
    same_reconciled := by simp only [QChat.amplify, carried.same_reconciled]
    same_key := by
      simp only [QChat.amplify, amplified, accepted, carried.same_key, carried.same_reconciled]
    enough := available
    used := by
      simp only [QChat.amplify]
      omega
    secret_bits := carried.secret_bits
    reconciled := by
      simp only [QChat.amplify, Nat.mul_add, ← List.drop_drop, ← carried.reconciled]
      rfl
    key := by
      have byte : firstByte (progress .lead).reconciled =
          firstByte ((stream parties.chances (progress .lead).rounds).drop
            (16 * (progress .lead).attempts)) := by
        rw [carried.reconciled, List.drop_take, firstByte_take _ _ (by omega)]
      simp only [QChat.amplify, amplified, accepted, ↓reduceIte, byte, carried.key,
        List.range_succ, List.map_append, List.map_singleton] }

/-- The next pass of a stage reconciles: there are not enough reconciled bits, but a codeword of
secret ones. -/
def Reconciles (parties : Parties) (progress : Side → Progress) : Prop :=
  ((progress .lead).key.length : Int) < parties.key_size ∧
    (progress .lead).reconciled.length < 2 * BYTE_LEN ∧
    ¬ (progress .lead).secret_bits.length < ECC_Golay.codeword_length

/-- In the first passes, every aligned codeword passed to reconciliation differs
in at most three positions. -/
def Correctable (parties : Parties) (passes : Nat) : Prop :=
  ∀ n < passes, ∀ progress, stage parties n = .running progress → Reconciles parties progress →
    ∀ codeword ∈ codewords (fun side => (progress side).secret_bits),
      distance (codeword .lead) (codeword .follow) ≤ 3

/-- Under correctable noise every stage is where it should be in the stream, by induction over
the passes with one lemma for each kind of pass. -/
theorem carried_stage (parties : Parties) (passes : Nat) (light : Correctable parties passes)
    (progress : Side → Progress) (here : stage parties passes = .running progress) :
    ∃ count, Carried parties progress count := by
  induction passes generalizing progress with
  | zero =>
    cases here
    exact ⟨0, carried_init parties⟩
  | succ passes inductionHypothesis =>
    have sooner : Correctable parties passes :=
      fun n bounded => light n (Nat.lt_succ_of_lt bounded)
    obtain ⟨earlier, before, goesOn⟩ := stageBy_before here
    obtain ⟨count, carried⟩ := inductionHypothesis sooner earlier before
    obtain ⟨more, ⟨-, rfl⟩ | ⟨few, whole, rfl⟩ | ⟨enough, rfl⟩⟩ := advanceBy_running goesOn
    · exact ⟨count, carried.distill⟩
    · exact ⟨_, carried.reconcile
        (light passes (Nat.lt_succ_self passes) earlier before ⟨more, few, whole⟩)⟩
    · exact ⟨count, carried.amplify enough⟩

/-- A key never grows beyond the size asked for, as it grows by single bytes. -/
theorem key_bounded (parties : Parties) (passes : Nat) (progress : Side → Progress)
    (here : stage parties passes = .running progress) :
    (progress .lead).key.length ≤ parties.key_size.toNat := by
  induction passes generalizing progress with
  | zero =>
    cases here
    exact Nat.zero_le _
  | succ passes inductionHypothesis =>
    obtain ⟨earlier, before, goesOn⟩ := stageBy_before here
    have bounded := inductionHypothesis earlier before
    obtain ⟨more, ⟨-, rfl⟩ | ⟨-, -, rfl⟩ | ⟨-, rfl⟩⟩ := advanceBy_running goesOn
    · exact bounded
    · exact bounded
    · simp only [amplify, amplified, List.length_append]
      split <;> simp <;> omega

/-- With a full key, the groups used are those of the reference key. -/
theorem Carried.referenceKey {parties : Parties} {progress : Side → Progress} {count : Nat}
    (carried : Carried parties progress count)
    (size : (progress .lead).key.length = parties.key_size.toNat) :
    (progress .lead).key = referenceKey parties (progress .lead).rounds := by
  have attempts : (progress .lead).attempts = parties.key_size.toNat := by
    have length := congrArg List.length carried.key
    rw [List.length_map, List.length_range] at length
    omega
  have used := carried.used
  have enough := carried.enough
  rw [carried.key, QChat.referenceKey, flatten_blocks, attempts]
  refine List.map_congr_left fun i bounded => ?_
  rw [List.mem_range] at bounded
  rw [firstByte_take _ _ (Nat.le_refl 16), List.drop_take, firstByte_take _ _ (by omega)]

/-- A session for one byte whose first round gives at least a codeword and whose first tag is
accepted. It goes through a round, a reconciliation and an amplification and ends in its fourth
pass. -/
structure OneRound (parties : Parties) (distill : (Side → Progress) → Side → Progress)
    (secret : Side → List Bit) : Prop where
  size : parties.key_size = 1
  first : (distill fun _ => Progress.init) = fun side => ⟨[], secret side, [], 1, 0⟩
  same : ∀ side, (secret side).length = (secret .lead).length
  whole : 23 ≤ (secret .lead).length
  accepted : accepts ((parties.chances .lead).Y 0) (reconciledBits secret) = true

namespace OneRound

variable {parties : Parties} {distill : (Side → Progress) → Side → Progress}
variable {secret : Side → List Bit}

/-- Its passes are: distill, reconcile, amplify, end. -/
theorem stages (once : OneRound parties distill secret) :
    (stageBy parties distill 0 = .running fun _ => ⟨[], [], [], 0, 0⟩) ∧
      (stageBy parties distill 1 = .running fun side => ⟨[], secret side, [], 1, 0⟩) ∧
      (stageBy parties distill 2 = .running fun side =>
        ⟨[], leftover (secret side), reconciledBits secret side, 1, 0⟩) ∧
      (stageBy parties distill 3 = .running fun side =>
        ⟨[highByte ((parties.chances .lead).Y 0) (firstByte (reconciledBits secret side))],
          leftover (secret side), (reconciledBits secret side).drop 16, 1, 1⟩) ∧
      stageBy parties distill 4 = .finished fun side =>
        [highByte ((parties.chances .lead).Y 0) (firstByte (reconciledBits secret side))] := by
  obtain ⟨size, first, same, whole, accepted⟩ := once
  have length : (reconciledBits secret .lead).length = (secret .lead).length / 23 * 23 :=
    reconciledBits_length secret .lead same
  have more : ((List.length ([] : Bytes) : Nat) : Int) < parties.key_size := by
    rw [size]
    decide
  have few : ([] : List Bit).length < 2 * BYTE_LEN := by decide
  have short : ([] : List Bit).length < ECC_Golay.codeword_length := by
    rw [golay_codeword_length]
    decide
  have long : ¬ (secret .lead).length < ECC_Golay.codeword_length := Nat.not_lt.mpr whole
  have zero : stageBy parties distill 0 = .running fun _ => ⟨[], [], [], 0, 0⟩ := rfl
  have one : stageBy parties distill 1 = .running fun side => ⟨[], secret side, [], 1, 0⟩ := by
    rw [stageBy_next zero, advanceBy, if_pos more, if_pos few, if_pos short]
    exact congrArg Stage.running first
  have two : stageBy parties distill 2 = .running fun side =>
      ⟨[], leftover (secret side), reconciledBits secret side, 1, 0⟩ := by
    rw [stageBy_next one, advanceBy, if_pos more, if_pos few, if_neg long]
    rfl
  have three : stageBy parties distill 3 = .running fun side =>
      ⟨[highByte ((parties.chances .lead).Y 0) (firstByte (reconciledBits secret side))],
        leftover (secret side), (reconciledBits secret side).drop 16, 1, 1⟩ := by
    have enough : ¬ (reconciledBits secret .lead).length < 2 * BYTE_LEN := by
      rw [length, BYTE_LEN]
      omega
    rw [stageBy_next two, advanceBy, if_pos more, if_neg enough]
    refine congrArg Stage.running (funext fun side => ?_)
    have byte : amplified ((parties.chances .lead).Y 0) (reconciledBits secret) side =
        [highByte ((parties.chances .lead).Y 0) (firstByte (reconciledBits secret side))] :=
      if_pos accepted
    simp only [amplify, byte]
    rfl
  have four : stageBy parties distill 4 = .finished fun side =>
      [highByte ((parties.chances .lead).Y 0) (firstByte (reconciledBits secret side))] := by
    rw [stageBy_next three, advanceBy, if_neg (by simp [size])]
  exact ⟨zero, one, two, three, four⟩

/-- All four passes run. -/
theorem running (once : OneRound parties distill secret) (n : Nat) (bounded : n < 4) :
    ∃ progress, stageBy parties distill n = .running progress := by
  obtain ⟨zero, one, two, three, -⟩ := once.stages
  match n with
  | 0 => exact ⟨_, zero⟩
  | 1 => exact ⟨_, one⟩
  | 2 => exact ⟨_, two⟩
  | 3 => exact ⟨_, three⟩

/-- It distills in its first pass only. -/
theorem distills (once : OneRound parties distill secret) (n : Nat) (bounded : n < 4)
    (progress : Side → Progress) (here : stageBy parties distill n = .running progress)
    (distills : Distills parties progress) : (progress .lead).rounds = 0 := by
  obtain ⟨zero, one, two, three, -⟩ := once.stages
  obtain ⟨more, few, short⟩ := distills
  match n with
  | 0 =>
    rw [zero] at here
    cases here
    rfl
  | 1 =>
    rw [one] at here
    cases here
    rw [golay_codeword_length] at short
    exact absurd short (Nat.not_lt.mpr once.whole)
  | 2 =>
    rw [two] at here
    cases here
    have length := reconciledBits_length secret .lead once.same
    have whole := once.whole
    simp only [length, BYTE_LEN] at few
    omega
  | 3 =>
    rw [three] at here
    cases here
    simp [once.size] at more

/-- And it reconciles the bits of that pass only. -/
theorem reconciles (once : OneRound parties distill secret) (n : Nat) (bounded : n < 4)
    (progress : Side → Progress) (here : stageBy parties distill n = .running progress)
    (reconciles : Reconciles parties progress) :
    (fun side => (progress side).secret_bits) = secret := by
  obtain ⟨zero, one, two, three, -⟩ := once.stages
  obtain ⟨more, few, long⟩ := reconciles
  match n with
  | 0 =>
    rw [zero] at here
    cases here
    simp at long
  | 1 =>
    rw [one] at here
    cases here
    rfl
  | 2 =>
    rw [two] at here
    cases here
    have length := reconciledBits_length secret .lead once.same
    have whole := once.whole
    simp only [length, BYTE_LEN] at few
    omega
  | 3 =>
    rw [three] at here
    cases here
    simp [once.size] at more

/-- If the codewords of that pass can be corrected, so can all of the session. -/
theorem correctable (once : OneRound parties (QChat.distill parties) secret)
    (light : ∀ codeword ∈ codewords secret, distance (codeword .lead) (codeword .follow) ≤ 3) :
    Correctable parties 4 := by
  intro n bounded progress here reconciles
  rw [once.reconciles n bounded progress here reconciles]
  exact light

end OneRound

end QChat
