import QChat.BB84Session
import QChat.Passes

/-!
# What a BB84 session guarantees

Results about every run of a leader and a follower: the two programs stay
aligned and never block each other, and the keys they return are related by the
groups of reconciled bits the follower accepted. With noise the code can correct
the two keys are one and the same function of the leader's bits.
-/

namespace QChat

open Bits Process

/-- The variables of two parties have the same lengths. -/
def SameLengths (one two : Progress) : Prop :=
  one.secret_bits.length = two.secret_bits.length ∧
    one.reconciled.length = two.reconciled.length ∧ one.key.length = two.key.length

theorem Aligned.sameLengths {progress : Side → Progress} (aligned : Aligned progress) :
    SameLengths (progress .lead) (progress .follow) :=
  ⟨(aligned.secret_bits .follow).symm, (aligned.reconciled .follow).symm,
    (aligned.key .follow).symm⟩

namespace Parties

variable (parties : Parties)

/-- A head that a party has entered is that party's part of a stage. -/
theorem head_stage {state : Duet Message Side Unit Exn Instance}
    (reached : parties.Reachable state) (side : Side) (n : Nat) (self : Endpoint)
    (progress : Progress) (entered : (state.heads side)[n]? = some ⟨self, .running progress⟩) :
    ∃ both, stage parties n = .running both ∧ progress = both side := by
  have head := parties.reachable_heads reached side n _ entered
  simp only [inst, Instance.mk.injEq] at head
  cases here : stage parties n with
  | finished keys =>
    rw [here] at head
    cases head.2
  | running both =>
    rw [here] at head
    cases head.2
    exact ⟨both, rfl, rfl⟩

/-- The noise of a run can be corrected: in every pass that a party has started,
the aligned codewords passed to reconciliation differ in at most three positions. -/
def CorrectableRun (state : Duet Message Side Unit Exn Instance) : Prop :=
  Correctable parties (max (state.heads .lead).length (state.heads .follow).length)

theorem CorrectableRun.upTo {parties : Parties} {state : Duet Message Side Unit Exn Instance}
    (light : parties.CorrectableRun state) (side : Side) (passes : Nat)
    (started : passes ≤ (state.heads side).length) : Correctable parties passes := by
  intro n bounded
  apply light n
  cases side <;> omega

/-- A session of one round runs to its end. -/
theorem one_round_run {secret : Side → List Bit}
    (once : OneRound parties (distill parties) secret) :
    ∃ state, parties.Reachable state ∧ (∀ side, (state.heads side).length = 4) ∧
      ∀ side, parties.Returns state side [highByte ((parties.chances .lead).Y 0)
        (firstByte (reconciledBits secret side))] :=
  parties.runs_out 4 _ once.running once.stages.2.2.2.2

end Parties

/-- A session for one byte in which both parties always choose the first basis
and the leader tests the last positions. -/
def sampleSession (measure : Side → Nat → Bit) (Y : UInt8) : Parties where
  name := Side.select "alice" "bob"
  short := alice_bob_short
  key_size := 1
  chances := fun side =>
    { basisflip := fun _ _ => 0
      measure := fun _ => measure side
      index := fun _ draw => 99 - draw
      Y := fun _ => Y }

/-- The last 25 positions are tested, one after the other from the end. -/
theorem sample_selection (measure : Side → Nat → Bit) (Y : UInt8) :
    selection (sampleSession measure Y).chances 0 =
      (List.range 75, (List.range' 75 25).reverse, (List.range' 75 25).reverse) := by
  have whole : matching (sampleSession measure Y).chances 0 = List.range 100 := by
    simp [matching, sampleSession, ROUND_SIZE]
  have drawn : chooseTests (fun draw => 99 - draw) 25 (List.range 100) [] [] =
      (List.range 75, (List.range' 75 25).reverse, (List.range' 75 25).reverse) := by
    decide +kernel
  rw [selection, whole]
  exact drawn

theorem sample_distilled (measure : Side → Nat → Bit) (Y : UInt8)
    (clean : ∀ position ∈ List.range' 75 25, measure .lead position = measure .follow position)
    (side : Side) :
    distilled (sampleSession measure Y).chances 0 side = (List.range 75).map (measure side) := by
  have rate : errorRate (sampleSession measure Y).chances 0 = 0 := by
    rw [errorRate, tested, sample_selection, if_neg (by decide)]
    have none : ((List.range' 75 25).reverse.countP fun position =>
        ((sampleSession measure Y).chances .lead).measure 0 position ≠
          ((sampleSession measure Y).chances .follow).measure 0 position) = 0 := by
      rw [List.countP_eq_zero]
      intro position member
      have same := clean position (List.mem_reverse.mp member)
      rw [decide_eq_true_eq]
      exact not_not_intro same
    rw [none]
    simp
  have passes : ¬ (0 : ℚ) ≥ MAX_GOLAY_ERROR := by decide +kernel
  rw [distilled, rate, if_neg passes, kept, sample_selection]
  rfl

/-- The follower measures one bit of the second codeword wrongly. -/
def oneError (side : Side) (position : Nat) : Bit :=
  if position ∈ [0, 1] ∨ (position = 30 ∧ side = .follow) then 1 else 0

/-- The bits that the first round of such a session gives. -/
def sampleBits (measure : Side → Nat → Bit) (side : Side) : List Bit :=
  (List.range 75).map (measure side)

theorem sample_oneRound (measure : Side → Nat → Bit) (Y : UInt8)
    (clean : ∀ position ∈ List.range' 75 25, measure .lead position = measure .follow position)
    (accepted : accepts Y (reconciledBits (sampleBits measure)) = true) :
    OneRound (sampleSession measure Y) (distill (sampleSession measure Y)) (sampleBits measure) where
  size := rfl
  first := by
    funext side
    simp only [distill, Progress.init, sample_distilled measure Y clean side, sampleBits,
      List.nil_append, Nat.zero_add]
  same := fun _ => by simp only [sampleBits, List.length_map, List.length_range]
  whole := by simp only [sampleBits, List.length_map, List.length_range]; decide
  accepted := accepted

theorem oneError_run : ∃ state, (sampleSession oneError 128).Reachable state ∧
    (sampleSession oneError 128).CorrectableRun state ∧
    ∃ key : Side → Bytes, ∀ side, (sampleSession oneError 128).Returns state side (key side) := by
  have errors : ∀ codeword ∈ codewords (sampleBits oneError),
      distance (codeword .lead) (codeword .follow) ≤ 3 := by decide +kernel
  have accepted : accepts 128 (reconciledBits (sampleBits oneError)) = true := by
    rw [accepts, reconciledBits_follow _ (fun _ => by simp [sampleBits]) errors]
    exact decide_eq_true rfl
  have once := sample_oneRound oneError 128 (by decide) accepted
  obtain ⟨state, reached, lengths, returned⟩ := (sampleSession oneError 128).one_round_run once
  have light : (sampleSession oneError 128).CorrectableRun state := by
    rw [Parties.CorrectableRun, lengths, lengths]
    exact once.correctable errors
  exact ⟨state, reached, light, _, returned⟩

/-- The leader measures a codeword of the Golay code, the follower only zeros. -/
def codewordError (side : Side) (position : Nat) : Bit :=
  if side = .lead ∧ position ∈ [1, 16, 17, 18, 19, 20, 21, 22] then 1 else 0

/-- The difference of two codewords has no syndrome, and its first byte is even:
the follower corrects nothing, the tag passes, and the keys differ. -/
theorem codeword_run : ∃ state, (sampleSession codewordError 128).Reachable state ∧
    (sampleSession codewordError 128).Returns state .lead [32] ∧
    (sampleSession codewordError 128).Returns state .follow [0] := by
  have leading : reconciledBits (sampleBits codewordError) .lead =
      ((List.range 75).map (codewordError .lead)).take 69 :=
    reconciledBits_lead _ fun _ => by simp [sampleBits]
  have following : reconciledBits (sampleBits codewordError) .follow = List.replicate 69 0 := by
    have words : ∀ codeword ∈ codewords (sampleBits codewordError),
        corrected codeword .follow = List.replicate 23 0 := by
      have checked : ∀ codeword ∈ codewords (sampleBits codewordError),
          apply H_Golay (codeword .lead) = apply H_Golay (List.replicate 23 0) ∧
            distance (List.replicate 23 0) (codeword .follow) ≤ 3 := by decide +kernel
      intro codeword member
      have width := codewords_length _ (fun _ => by simp [sampleBits]) codeword member .follow
      exact corrected_near codeword _ (by simp) width (checked codeword member).1
        (checked codeword member).2
    rw [reconciledBits, List.flatMap_def, List.map_congr_left words]
    rfl
  have accepted : accepts 128 (reconciledBits (sampleBits codewordError)) = true := by
    rw [accepts, leading, following]
    decide
  obtain ⟨state, reached, -, returned⟩ :=
    (sampleSession codewordError 128).one_round_run
      (sample_oneRound codewordError 128 (by decide) accepted)
  have leads := returned .lead
  have follows := returned .follow
  rw [leading] at leads
  rw [following] at follows
  exact ⟨state, reached, leads, follows⟩

namespace Parties

variable (parties : Parties)

/-- In every reachable state of a session at most one message is on the way, some step is
possible until both parties have returned, no exception has been raised, the parties' variables
have the same lengths at matching loop heads, and once one party has returned the other is in
its last pass, with a full key, or past it.

Proof: the handshake and every pass are in lockstep: one schedule in which the parties take
turns to speak shows what every other order of their actions comes to. Both parties go the same
way at every branch, so aligned passes lead to aligned ones. -/
theorem session_in_lockstep (state : Duet Message Side Unit Exn Instance)
    (reached : parties.Reachable state) :
    state.pending ≤ 1 ∧
      ((∀ side, ∃ key, parties.Returns state side key) ∨
        ∃ next, Duet.Step Instance.pass state next) ∧
      (∀ side exception, state.code side ≠ .raised exception) ∧
      (∀ (n : Nat) (lead follow : Endpoint) (one two : Progress),
        (state.heads .lead)[n]? = some ⟨lead, .running one⟩ →
        (state.heads .follow)[n]? = some ⟨follow, .running two⟩ → SameLengths one two) ∧
      ∀ side key, parties.Returns state side key →
        parties.key_size ≤ key.length ∧
          ∃ progress, (state.heads side.other).getLast? =
              some ⟨parties.endpoint side.other, .running progress⟩ ∧
            parties.key_size ≤ progress.key.length := by
  have inStep := parties.reachable_inStep reached
  have progress := inStep.progress parties.closed
  obtain ⟨talk, stock, spread, runs⟩ := inStep
  refine ⟨spread.pending_le, progress.imp_left fun returned side => ?_,
    fun side exception => runs.not_raised side exception, ?_, ?_⟩
  · obtain ⟨result, code, stops⟩ := returned side
    obtain ⟨results, ⟨passes, place⟩, rfl⟩ := runs.last_pass parties.opens side result code stops
    rw [place.here side] at code stops
    cases here : stage parties passes with
    | running progress =>
      obtain ⟨starts, -⟩ := parties.pass_together passes progress here
      rw [starts side] at stops
      cases stops
    | finished keys =>
      rw [inst, here] at code
      exact ⟨keys side, code⟩
  · intro n lead follow one two leads follows
    obtain ⟨both, here, rfl⟩ := parties.head_stage reached .lead n lead one leads
    obtain ⟨same, again, rfl⟩ := parties.head_stage reached .follow n follow two follows
    rw [here] at again
    cases again
    exact (stage_aligned here).sameLengths
  · intro side key returned
    obtain ⟨passes, keys, results, stop, rfl, place⟩ := parties.returns_stage reached side key returned
    obtain ⟨before, progress, rfl, here, full, rfl⟩ := stageBy_last place.running stop
    have aligned : Aligned progress := stage_aligned here
    refine ⟨by rw [aligned.key side]; exact Int.not_lt.mp full, progress side.other, ?_,
      by rw [aligned.key side.other]; exact Int.not_lt.mp full⟩
    rw [place.history, List.range_succ, List.map_append, List.map_singleton,
      List.getLast?_concat, inst, stage, here, Stage.view_running]

/-- A run with one measurement error, seen from its last state. -/
theorem session_in_lockstep_one_error : ∃ state, (sampleSession oneError 128).Reachable state ∧
    (∀ side, ∃ key, (sampleSession oneError 128).Returns state side key) ∧ state.pending ≤ 1 := by
  obtain ⟨state, reached, -, key, returned⟩ := oneError_run
  exact ⟨state, reached, fun side => ⟨key side, returned side⟩,
    ((sampleSession oneError 128).session_in_lockstep state reached).1⟩

/-- Under correctable noise no tag is ever rejected, so that every attempt at amplification has
added a byte; and what a party returns is the key computed from the leader's bits alone, the
same for both parties.

Proof: where corresponding codewords differ in at most three places the follower's corrected
bits are the leader's. The stages of a run then have equal reconciled bits on both sides, and
with them equal tags, whatever the seeds are. -/
theorem correctable_noise (state : Duet Message Side Unit Exn Instance)
    (reached : parties.Reachable state) (light : parties.CorrectableRun state) :
    (∀ (side : Side) (n : Nat) (self : Endpoint) (progress : Progress),
        (state.heads side)[n]? = some ⟨self, .running progress⟩ →
          progress.key.length = progress.attempts) ∧
      (∀ side key, parties.Returns state side key →
        ∃ progress, (state.heads side).getLast? =
            some ⟨parties.endpoint side, .running progress⟩ ∧
          key = referenceKey parties progress.rounds) ∧
      ∀ leaderKey followerKey, parties.Returns state .lead leaderKey →
        parties.Returns state .follow followerKey → leaderKey = followerKey := by
  have ends (side : Side) (key : Bytes) (returned : parties.Returns state side key) :
      ∃ both, (∀ party, (state.heads party).getLast? =
          some ⟨parties.endpoint party, .running (both party)⟩) ∧
        Aligned both ∧ key = referenceKey parties (both .lead).rounds := by
    obtain ⟨passes, keys, results, stop, rfl, place⟩ := parties.returns_stage reached side key returned
    obtain ⟨before, both, rfl, here, full, rfl⟩ := stageBy_last place.running stop
    have started : before ≤ (state.heads side).length := by
      rw [place.history, List.length_map, List.length_range]
      omega
    obtain ⟨count, carried⟩ := carried_stage parties before (light.upTo side before started) both here
    have bounded := key_bounded parties before both here
    have whole := carried.referenceKey (by omega)
    refine ⟨both, fun party => ?_, carried.aligned, ?_⟩
    · rw [place.history, List.range_succ, List.map_append, List.map_singleton,
        List.getLast?_concat, inst, stage, here, Stage.view_running]
    · cases side with
      | lead => exact whole
      | follow => exact carried.same_key.trans whole
  refine ⟨?_, ?_, ?_⟩
  · intro side n self progress entered
    obtain ⟨both, here, rfl⟩ := parties.head_stage reached side n self progress entered
    have started : n ≤ (state.heads side).length := (List.getElem?_eq_some_iff.mp entered).1.le
    obtain ⟨count, carried⟩ := carried_stage parties n (light.upTo side n started) both here
    have length := congrArg List.length carried.key
    rw [List.length_map, List.length_range] at length
    rw [carried.aligned.key side, carried.aligned.attempts side, length]
  · intro side key returned
    obtain ⟨both, last, aligned, whole⟩ := ends side key returned
    exact ⟨both side, last side, by rw [whole, aligned.rounds side]⟩
  · intro leaderKey followerKey leads follows
    obtain ⟨first, firstLast, -, rfl⟩ := ends .lead leaderKey leads
    obtain ⟨second, secondLast, -, rfl⟩ := ends .follow followerKey follows
    have same := (firstLast .lead).symm.trans (secondLast .lead)
    simp only [Option.some.injEq, Instance.mk.injEq, Execution.running.injEq, true_and] at same
    rw [same]

/-- Both parties of the run with one measurement error return the same key. -/
theorem correctable_noise_one_error : ∃ state, (sampleSession oneError 128).Reachable state ∧
    ∃ leaderKey followerKey, (sampleSession oneError 128).Returns state .lead leaderKey ∧
      (sampleSession oneError 128).Returns state .follow followerKey ∧
      leaderKey = followerKey := by
  obtain ⟨state, reached, light, key, returned⟩ := oneError_run
  have same := (sampleSession oneError 128).correctable_noise state reached light
  exact ⟨state, reached, key .lead, key .follow, returned .lead, returned .follow,
    same.2.2 _ _ (returned .lead) (returned .follow)⟩

/-- The tag does not catch every difference: the keys of a session can differ. -/
theorem keys_can_differ : ¬ ∀ (parties : Parties) (state : Duet Message Side Unit Exn Instance)
    (leaderKey followerKey : Bytes), parties.Reachable state →
      parties.Returns state .lead leaderKey → parties.Returns state .follow followerKey →
      leaderKey = followerKey := by
  intro agree
  obtain ⟨state, reached, leads, follows⟩ := codeword_run
  have same := agree (sampleSession codewordError 128) state [32] [0] reached leads follows
  cases same

/-- What the tags guarantee, whatever the noise: the keys have one length, an accepted tag means
that the sums of seed, first and second byte agree modulo 256 and differ by 256 times the
difference of the extracted bytes, and the two keys are equal exactly if in every accepted
amplification the sums themselves agree.

Proof: the key is the list of the bytes extracted at the accepted attempts, on both sides for
the same attempts. Two such bytes are the quotients of sums with one remainder, so they are
equal exactly if the sums are. -/
theorem key_agreement (state : Duet Message Side Unit Exn Instance)
    (reached : parties.Reachable state) (leaderKey followerKey : Bytes)
    (leads : parties.Returns state .lead leaderKey)
    (follows : parties.Returns state .follow followerKey) :
    leaderKey.length = followerKey.length ∧
      (∀ (n : Nat) (progress : Side → Progress),
        (∀ side, (state.heads side)[n]? =
          some ⟨parties.endpoint side, .running (progress side)⟩) →
        Amplifies parties progress →
        accepts ((parties.chances .lead).Y (progress .lead).attempts)
          (fun side => (progress side).reconciled) = true →
        (tagged ((parties.chances .lead).Y (progress .lead).attempts)
            (progress .lead).reconciled : Int) -
          tagged ((parties.chances .lead).Y (progress .lead).attempts)
            (progress .follow).reconciled =
          256 * ((highByte ((parties.chances .lead).Y (progress .lead).attempts)
              (firstByte (progress .lead).reconciled)).toNat -
            (highByte ((parties.chances .lead).Y (progress .lead).attempts)
              (firstByte (progress .follow).reconciled)).toNat)) ∧
      (leaderKey = followerKey ↔
        ∀ (n : Nat) (progress : Side → Progress),
          (∀ side, (state.heads side)[n]? =
            some ⟨parties.endpoint side, .running (progress side)⟩) →
          SumsAgree parties progress) := by
  obtain ⟨passes, keys, results, stop, rfl, place⟩ := parties.returns_stage reached .lead _ leads
  obtain ⟨passes', keys', results', stop', rfl, place'⟩ :=
    parties.returns_stage reached .follow _ follows
  have passes_same : passes = passes' := by
    have lengths := congrArg List.length ((place.history .lead).symm.trans (place'.history .lead))
    simpa using lengths
  subst passes_same
  rw [stop] at stop'
  cases stop'
  obtain ⟨before, both, rfl, here, full, rfl⟩ := stageBy_last place.running stop
  have aligned : Aligned both := stage_aligned here
  refine ⟨(aligned.key .follow).symm, fun n progress _ _ accepted =>
    accepts_tagged _ (fun side => (progress side).reconciled) accepted, ?_⟩
  rw [stageBy_keys (fun _ before => before.distill parties) (fun _ _ => rfl) here]
  constructor
  · intro each n progress entered
    obtain ⟨staged, there, leading⟩ := parties.head_stage reached .lead n _ _ (entered .lead)
    obtain ⟨again, same, following⟩ := parties.head_stage reached .follow n _ _ (entered .follow)
    rw [there] at same
    cases same
    obtain rfl : progress = staged := by
      funext side
      cases side with
      | lead => exact leading
      | follow => exact following
    have bounded := (List.getElem?_eq_some_iff.mp (entered .lead)).1
    rw [place.history, List.length_map, List.length_range] at bounded
    obtain sooner | rfl := Nat.lt_succ_iff_lt_or_eq.mp bounded
    · exact each n sooner progress there
    · -- The last pass ends the protocol.
      cases here.symm.trans there
      intro amplifies
      exact absurd amplifies.1 full
  · intro each n bounded earlier staged
    apply each n earlier
    intro side
    rw [place.history, List.getElem?_map, List.getElem?_range (by omega), Option.map_some, inst,
      stage, staged, Stage.view_running]

/-- In the run whose keys differ some sums differ behind an accepted tag. -/
theorem key_agreement_codeword : ∃ state, (sampleSession codewordError 128).Reachable state ∧
    ¬ ∀ (n : Nat) (progress : Side → Progress),
      (∀ side, (state.heads side)[n]? =
        some ⟨(sampleSession codewordError 128).endpoint side, .running (progress side)⟩) →
      SumsAgree (sampleSession codewordError 128) progress := by
  obtain ⟨state, reached, leads, follows⟩ := codeword_run
  refine ⟨state, reached, fun agree => ?_⟩
  have same := ((sampleSession codewordError 128).key_agreement state reached [32] [0] leads
    follows).2.2.mpr agree
  cases same

end Parties

end QChat
