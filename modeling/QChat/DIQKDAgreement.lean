import QChat.DIQKDOrder

/-!
# What a DIQKD session guarantees

As for BB84, the two loops of a session go through the stages of one joint computation,
in every run that delivers no outcomes past their rounds. A pass that distills has passed
its device test; the keys are equal exactly if the sums behind the accepted tags are, and
always with noise that the code can correct.
-/

namespace QChat

open Bits Process

namespace DeviceParties

variable (users : DeviceParties)

/-- The stages of a session whose device tests pass. -/
abbrev stage (passes : Nat) : Stage := stageBy users.toParties users.distill passes

/-- The object of a party after some passes. -/
def inst (passes : Nat) (side : Side) : Instance :=
  ⟨users.endpoint side, (users.stage passes).view side⟩

/-- The device test of a round passes. -/
def Passes (round : Nat) : Prop := (users.examinees round).verdict = .ok ()

/-- Both parties have made the same number of passes and are at one stage; all passes that
distilled have passed their device test. -/
structure At (passes : Nat) (heads : Side → List Instance) (results : Side → Instance) :
    Prop where
  running : ∀ earlier < passes, ∃ progress, users.stage earlier = .running progress
  tested : ∀ earlier < passes, ∀ progress, users.stage earlier = .running progress →
    Distills users.toParties progress → users.Passes (progress .lead).rounds
  history : ∀ side, heads side = (List.range passes).map fun earlier => users.inst earlier side
  here : ∀ side, results side = users.inst passes side

variable {users}

/-- One more pass on both sides. -/
theorem At.next {passes : Nat} {heads : Side → List Instance} {results : Side → Instance}
    (before : users.At passes heads results) {progress : Side → Progress}
    (here : users.stage passes = .running progress)
    (tested : Distills users.toParties progress → users.Passes (progress .lead).rounds)
    {later : Side → Instance} (same : ∀ side, later side = users.inst (passes + 1) side) :
    users.At (passes + 1) (fun side => heads side ++ [results side]) later where
  running := by
    intro earlier bounded
    obtain sooner | rfl := Nat.lt_succ_iff_lt_or_eq.mp bounded
    · exact before.running earlier sooner
    · exact ⟨progress, here⟩
  tested := by
    intro earlier bounded other there distills
    obtain sooner | rfl := Nat.lt_succ_iff_lt_or_eq.mp bounded
    · exact before.tested earlier sooner other there distills
    · rw [here] at there
      cases there
      exact tested distills
  history := by
    intro side
    simp only [before.history side, before.here side, List.range_succ, List.map_append,
      List.map_singleton]
  here := same

variable (users)

/-- The loop of both `execute` methods, whose passes lead from stage to stage. -/
def stageLoop : Loop Message Side Unit Exn Instance :=
  { users.loop with final := fun heads results => ∃ passes, users.At passes heads results }

/-- Every pass leads to the next stage, or the device test fails on both sides. -/
theorem stage_closed : Scheduled.Closed testTerms users.stageLoop := by
  rintro heads results ⟨passes, place⟩
  obtain rfl : results = users.inst passes := funext place.here
  cases here : users.stage passes with
  | finished keys =>
    refine .inl fun side => ?_
    simp only [stageLoop, loop, pass, inst, here, Stage.view_finished, DIQKD.execute,
      Option.map_none]
  | running progress =>
    have aligned : Aligned progress := stageBy_aligned users.distill_aligned here
    have body : Triple testTerms (fun _ _ _ => True)
        (fun inst => inst.self = users.endpoint .follow)
        (fun side => do
          let execution ← DIQKD.execute_pass (users.endpoint side) (users.device side)
            (progress side)
          return (⟨users.endpoint side, execution⟩ : Instance))
        (fun results => (∀ side, results side = users.inst (passes + 1) side) ∧
          (Distills users.toParties progress → users.Passes (progress .lead).rounds)) := by
      refine Triple.bind (users.execute_pass_stage _ progress aligned fun _ error judged _ =>
        users.verdict_errors _ error judged) (fun _ _ => rfl) ?_
      rintro ended ⟨same, tested⟩
      refine Triple.done _ ⟨fun side => ?_, tested⟩
      simp only [same side, inst, stage, stageBy_next here]
    refine .inr ⟨_, fun side => ?_, body.pass (fun _ _ _ _ => trivial) (fun _ known => known) ?_⟩
    · simp only [stageLoop, loop, pass, inst, here, Stage.view_running, DIQKD.execute,
        Option.map_some]
    · rintro later ⟨same, tested⟩
      exact ⟨passes + 1, place.next here tested same⟩

/-- In every run that delivers no outcomes past their rounds the parties are on the
schedule of the stages. -/
theorem onStage {state : Duet Message Side Unit Exn Instance}
    (reached : users.ReachableInOrder state) :
    Scheduled.OnSchedule testTerms users.stageLoop state := by
  have first : Scheduled testTerms users.stageLoop (fun _ => []) (fun _ => []) (fun _ => [])
      users.session := by
    refine (users.session_triple _).pass (fun _ _ _ _ => trivial) (fun _ known => known)
      fun results same => ⟨0, ?_⟩
    constructor
    · intro earlier never
      cases never
    · intro earlier never
      cases never
    · exact fun _ => rfl
    · exact same
  exact (Scheduled.start_onSchedule users.session first).run users.stage_closed reached

/-- A party has returned from `execute` with a key. -/
def Returns (state : Duet Message Side Unit Exn Instance) (side : Side) (key : Bytes) : Prop :=
  state.code side = .done ⟨users.endpoint side, .finished key⟩

/-- The states of both parties before one of their common passes. -/
def Head (state : Duet Message Side Unit Exn Instance) (progress : Side → Progress) : Prop :=
  ∃ n : Nat, ∀ side,
    (state.heads side)[n]? = some ⟨users.endpoint side, .running (progress side)⟩

/-- Two parties that have both returned have gone through the stages up to their keys. -/
theorem returned_stage {state : Duet Message Side Unit Exn Instance}
    (reached : users.ReachableInOrder state) {key : Side → Bytes}
    (returned : ∀ side, users.Returns state side (key side)) :
    ∃ passes, users.stage passes = .finished key ∧
      users.At passes state.heads (users.inst passes) := by
  obtain ⟨pending, stock, -, runs⟩ := users.onStage reached
  obtain ⟨passes, place⟩ := runs.both_returned
    (fun side => ⟨users.endpoint side, .finished (key side)⟩) returned fun _ => rfl
  refine ⟨passes, ?_, { place with here := fun _ => rfl }⟩
  have views (side : Side) : (users.stage passes).view side = .finished (key side) :=
    (congrArg Instance.execution (place.here side)).symm
  cases here : users.stage passes with
  | running progress =>
    have running := views .lead
    rw [here] at running
    cases running
  | finished keys =>
    refine congrArg Stage.finished (funext fun side => ?_)
    have ended := views side
    rw [here] at ended
    exact Execution.finished.inj ended

/-- The common heads are the stages before the end. -/
theorem At.head_iff {passes : Nat} {state : Duet Message Side Unit Exn Instance}
    {results : Side → Instance} (place : users.At passes state.heads results)
    {progress : Side → Progress} :
    users.Head state progress ↔ ∃ n < passes, users.stage n = .running progress := by
  constructor
  · rintro ⟨n, entered⟩
    have bounded : n < passes := by
      have within := (List.getElem?_eq_some_iff.mp (entered .lead)).1
      rwa [place.history, List.length_map, List.length_range] at within
    refine ⟨n, bounded, ?_⟩
    obtain ⟨staged, there⟩ := place.running n bounded
    rw [there]
    refine congrArg Stage.running (funext fun side => ?_)
    have head := entered side
    rw [place.history, List.getElem?_map, List.getElem?_range bounded, Option.map_some, inst,
      there, Stage.view_running] at head
    exact Execution.running.inj (Instance.mk.inj (Option.some.inj head)).2
  · rintro ⟨n, bounded, there⟩
    refine ⟨n, fun side => ?_⟩
    rw [place.history, List.getElem?_map, List.getElem?_range bounded, Option.map_some, inst,
      there, Stage.view_running]

/-- Every pass before this one runs, and none fails its device test. -/
def Runs (passes : Nat) : Prop :=
  ∀ earlier < passes, ∃ progress, users.stage earlier = .running progress ∧
    (Distills users.toParties progress → users.Passes (progress .lead).rounds)

/-- The passes before one stage, as both parties have entered them. -/
def entered (passes : Nat) (side : Side) : List Instance :=
  (List.range passes).map fun earlier => users.inst earlier side

/-- A session can be run, in order, to every stage before which no device test fails. -/
theorem reaches_stage (passes : Nat) (runs : users.Runs passes) :
    users.ReachableInOrder (.settled (fun _ => []) (fun _ => []) (users.entered passes)
      fun side => .done (users.inst passes side)) := by
  induction passes with
  | zero => exact users.reaches_handshake
  | succ passes inductionHypothesis =>
    have reached := inductionHypothesis fun earlier sooner => runs earlier (Nat.lt_succ_of_lt sooner)
    obtain ⟨progress, here, tested⟩ := runs passes (Nat.lt_succ_self passes)
    have aligned : Aligned progress := stageBy_aligned users.distill_aligned here
    -- the next pass, with no failure left to expect
    have enters (side : Side) : users.pass side (users.inst passes side) =
        some (DIQKD.execute_pass (users.endpoint side) (users.device side) (progress side) >>=
          fun execution => .done ⟨users.endpoint side, execution⟩) := by
      simp only [inst, here, Stage.view_running, pass, DIQKD.execute, Option.map_some, pure_eq]
    have body := users.execute_pass_stage (fun _ => False) progress aligned
      fun distills error judged => by cases judged.symm.trans (tested distills)
    have heads : (fun side => users.entered passes side ++ [users.inst passes side]) =
        users.entered (passes + 1) := by
      funext side
      rw [entered, entered, List.range_succ, List.map_append, List.map_singleton]
    obtain ⟨results, passed, ends, -⟩ | ⟨_, _, _, _, never⟩ :=
      Scheduled.reaches users.pass body
        (fun side execution => .done (⟨users.endpoint side, execution⟩ : Instance))
        (users.entered (passes + 1))
    · have later : users.inst (passes + 1) = fun side => ⟨users.endpoint side,
          (advanceBy users.toParties users.distill progress).view side⟩ := by
        funext side
        rw [inst, stage, stageBy_next here]
      simp only [ends, ← heads] at passed
      rw [later, ← heads]
      exact reached.trans ((Duet.settled_enter enters).trans passed)
    · exact False.elim never

section sample

/-- Devices that agree but in one place: the follower measures a bit of the codeword wrongly
that the two reconcile. Half of the rounds are for the game, half of them for the key. -/
def oneWrong : DeviceParties where
  name := Side.select "alice" "bob"
  short := alice_bob_short
  key_size := 1
  chances := fun _ => ⟨fun _ _ => 0, fun _ _ => 0, fun _ _ => 0, fun _ => 128⟩
  device := fun side => { plainDevices.device side with
    basis := fun _ i => if i % 2 = 0 then 0 else 2 * side.select 0 1
    measure := fun _ i => if i ∈ [51, 53] ∨ (i = 61 ∧ side = .follow) then 1 else 0 }
  common := rfl

/-- The bits that the first round gives. -/
def wrongBits (side : Side) : List Bit :=
  (oneWrong.keptRounds 0).map ((oneWrong.device side).measure 0)

theorem oneWrong_near : ∀ codeword ∈ codewords wrongBits,
    distance (codeword .lead) (codeword .follow) ≤ 3 := by decide +kernel

theorem oneWrong_same (side : Side) : (wrongBits side).length = (wrongBits .lead).length := by
  simp only [wrongBits, List.length_map]

theorem oneWrong_agree : reconciledBits wrongBits .follow = reconciledBits wrongBits .lead :=
  reconciledBits_follow wrongBits oneWrong_same oneWrong_near

theorem oneWrong_round : OneRound oneWrong.toParties oneWrong.distill wrongBits where
  size := rfl
  first := rfl
  same := oneWrong_same
  whole := by decide +kernel
  accepted := by rw [accepts, oneWrong_agree]; exact decide_eq_true rfl

/-- Both parties return the byte that the leader's first two bits give. -/
theorem oneWrong_key (side : Side) : [highByte ((oneWrong.chances .lead).Y 0)
    (firstByte (reconciledBits wrongBits side))] = [96] := by
  have leading : reconciledBits wrongBits .lead =
      (wrongBits .lead).take ((wrongBits .lead).length / 23 * 23) :=
    reconciledBits_lead wrongBits oneWrong_same
  have both : reconciledBits wrongBits side = reconciledBits wrongBits .lead := by
    cases side with
    | lead => rfl
    | follow => exact oneWrong_agree
  rw [both, leading]
  decide +kernel

/-- The device test passes, and so does the session, to its keys. -/
theorem oneWrong_runs : oneWrong.Runs 4 := by
  have tested : oneWrong.Passes 0 := by
    rw [Passes]
    decide +kernel
  intro earlier bounded
  obtain ⟨progress, here⟩ := oneWrong_round.running earlier bounded
  refine ⟨progress, here, fun distills => ?_⟩
  rwa [oneWrong_round.distills earlier bounded progress here distills]

/-- The last state of that session. -/
def wrongEnd : Duet Message Side Unit Exn Instance :=
  .settled (fun _ => []) (fun _ => []) (oneWrong.entered 4) fun side => .done (oneWrong.inst 4 side)

theorem oneWrong_reached : oneWrong.ReachableInOrder wrongEnd :=
  oneWrong.reaches_stage 4 oneWrong_runs

theorem oneWrong_inst (side : Side) :
    oneWrong.inst 4 side = ⟨oneWrong.endpoint side, .finished [96]⟩ := by
  rw [inst, stage, oneWrong_round.stages.2.2.2.2, Stage.view_finished, oneWrong_key]

theorem oneWrong_returned (side : Side) : oneWrong.Returns wrongEnd side [96] :=
  congrArg Process.done (oneWrong_inst side)

/-- Only the bits of the first round are reconciled. -/
theorem oneWrong_light (progress : Side → Progress) (head : oneWrong.Head wrongEnd progress)
    (reconciles : Reconciles oneWrong.toParties progress) :
    ∀ codeword ∈ codewords (fun side => (progress side).secret_bits),
      distance (codeword .lead) (codeword .follow) ≤ 3 := by
  obtain ⟨passes, stop, place⟩ := oneWrong.returned_stage oneWrong_reached oneWrong_returned
  obtain ⟨n, bounded, there⟩ := place.head_iff.mp head
  have few : passes = 4 := by
    have lengths := congrArg List.length (place.history .lead)
    simpa [wrongEnd, Duet.settled, entered] using lengths.symm
  rw [oneWrong_round.reconciles n (few ▸ bounded) progress there reconciles]
  exact oneWrong_near

theorem oneWrong_stuck (next : Duet Message Side Unit Exn Instance) :
    ¬ Duet.Step oneWrong.pass wrongEnd next := by
  refine Duet.settled_stuck (fun side => ?_) next
  rw [oneWrong_inst]
  rfl

end sample

/-- What two returned keys guarantee in a run that delivers no outcomes past their rounds: they
have one length, not less than the size asked for; every round that gave secret bits has passed
its device test; and they are equal exactly if behind every accepted tag the sums agree.

Proof: the passes are those of the purified protocol but for the source of the bits, so the
stages of a run and what is known of its tags are the same there. A round whose test fails ends
the session for both. -/
theorem device_keys (state : Duet Message Side Unit Exn Instance)
    (reached : users.ReachableInOrder state) (key : Side → Bytes)
    (returned : ∀ side, users.Returns state side (key side)) :
    (key .follow).length = (key .lead).length ∧ users.key_size ≤ (key .lead).length ∧
    (∀ progress, users.Head state progress → Distills users.toParties progress →
      users.Passes (progress .lead).rounds) ∧
    (key .lead = key .follow ↔
      ∀ progress, users.Head state progress → SumsAgree users.toParties progress) := by
  obtain ⟨passes, stop, place⟩ := users.returned_stage reached returned
  obtain ⟨before, progress, rfl, here, full, rfl⟩ := stageBy_last place.running stop
  have aligned : Aligned progress := stageBy_aligned users.distill_aligned here
  refine ⟨aligned.key .follow, Int.not_lt.mp full, ?_, ?_⟩
  · intro other head distills
    obtain ⟨n, bounded, there⟩ := place.head_iff.mp head
    exact place.tested n bounded other there distills
  · rw [stageBy_keys users.distill_aligned (fun _ _ => rfl) here]
    constructor
    · intro each other head
      obtain ⟨n, bounded, there⟩ := place.head_iff.mp head
      obtain less | rfl := Nat.lt_succ_iff_lt_or_eq.mp bounded
      · exact each n less other there
      · intro amplifies
        cases here.symm.trans there
        exact absurd amplifies.1 full
    · intro each n bounded other there
      exact each other (place.head_iff.mpr ⟨n, Nat.lt_succ_of_lt bounded, there⟩)

/-- The guarantees for two keys of one byte: the session has made one device test. -/
theorem device_keys_one_wrong : oneWrong.ReachableInOrder wrongEnd ∧
    (∀ side, oneWrong.Returns wrongEnd side [96]) ∧ oneWrong.key_size = 1 ∧
    (∀ progress, oneWrong.Head wrongEnd progress → Distills oneWrong.toParties progress →
      oneWrong.Passes (progress .lead).rounds) ∧
    ∀ progress, oneWrong.Head wrongEnd progress → SumsAgree oneWrong.toParties progress := by
  have guarantees := oneWrong.device_keys wrongEnd oneWrong_reached (fun _ => [96]) oneWrong_returned
  exact ⟨oneWrong_reached, oneWrong_returned, rfl, guarantees.2.2.1,
    guarantees.2.2.2.mp rfl⟩

/-- With noise that the code can correct the two keys are the same. The devices may otherwise
report what they like, as long as their tests pass. -/
theorem device_correctable (state : Duet Message Side Unit Exn Instance)
    (reached : users.ReachableInOrder state) (key : Side → Bytes)
    (returned : ∀ side, users.Returns state side (key side))
    (light : ∀ progress, users.Head state progress → Reconciles users.toParties progress →
      ∀ codeword ∈ codewords (fun side => (progress side).secret_bits),
        distance (codeword .lead) (codeword .follow) ≤ 3) :
    key .lead = key .follow := by
  obtain ⟨passes, stop, place⟩ := users.returned_stage reached returned
  obtain ⟨before, progress, rfl, here, -, rfl⟩ := stageBy_last place.running stop
  refine (stageBy_correctable users.distill_aligned (fun _ _ => ⟨rfl, rfl⟩) ?_ here).1.symm
  intro n bounded other there
  exact light other (place.head_iff.mpr ⟨n, Nat.lt_succ_of_lt bounded, there⟩)

/-- One bit of the codeword that the two reconcile differs, and the keys do not. -/
theorem device_correctable_one_wrong : ∃ leaderKey followerKey : Bytes,
    oneWrong.Returns wrongEnd .lead leaderKey ∧ oneWrong.Returns wrongEnd .follow followerKey ∧
      wrongBits .lead ≠ wrongBits .follow ∧ leaderKey = followerKey := by
  refine ⟨[96], [96], oneWrong_returned .lead, oneWrong_returned .follow, by decide +kernel, ?_⟩
  exact oneWrong.device_correctable wrongEnd oneWrong_reached (fun _ => [96]) oneWrong_returned
    oneWrong_light

/-- As long as no wait times out, a session ends for both parties or for none: as long as not
both have ended some step is possible; at the end both have a key, or the device test has failed
for both; and while one has a key the other has not failed. -/
theorem device_ends (state : Duet Message Side Unit Exn Instance)
    (reached : users.ReachableInOrder state) :
    ((∀ next, ¬ Duet.Step users.pass state next) →
      (∃ key : Side → Bytes, ∀ side, users.Returns state side (key side)) ∨
        ∀ side, ∃ error, state.code side = .raised error ∧ testErrors error) ∧
    (∀ side key, users.Returns state side key → ∀ error, state.code side.other ≠ .raised error) := by
  have onStage := users.onStage reached
  have half (side : Side) (error : Exn) (failed : state.code side = .raised error)
      (result : Instance) (returned : state.Returned users.pass side.other result) : False := by
    obtain ⟨_, _, -, runs⟩ := onStage
    exact runs.not_half failed returned.1 returned.2
  constructor
  · intro stuck
    obtain ended | ⟨next, moves⟩ := onStage.progress users.stage_closed
    · by_cases returned : ∀ side, ∃ result, state.Returned users.pass side result
      · left
        choose result returned using returned
        obtain ⟨_, _, -, runs⟩ := onStage
        obtain ⟨passes, place⟩ :=
          runs.both_returned result (fun side => (returned side).1) fun side => (returned side).2
        cases here : users.stage passes with
        | finished key =>
          refine ⟨key, fun side => ?_⟩
          rw [Returns, (returned side).1, place.here side, inst, here, Stage.view_finished]
        | running progress =>
          -- a party that is still in its loop starts another pass
          have stops := (returned .lead).2
          rw [place.here .lead, inst, here, Stage.view_running] at stops
          cases stops
      · right
        obtain ⟨side, without⟩ := not_forall.mp returned
        obtain ⟨error, failed⟩ := (ended side).resolve_left without
        have fails : ∃ error, state.code side.other = .raised error :=
          (ended side.other).resolve_left fun ⟨result, ends⟩ => half side error failed result ends
        obtain ⟨other, alsoFailed⟩ := fails
        have expected (party : Side) (error : Exn) (failed : state.code party = .raised error) :
            testErrors error := by
          obtain ⟨_, _, -, runs⟩ := onStage
          obtain ⟨errors, known, rfl⟩ := runs.raised_fails party error failed
          exact known party
        intro party
        by_cases same : party = side
        · subst same
          exact ⟨error, failed, expected party error failed⟩
        · obtain rfl := Side.eq_other same
          exact ⟨other, alsoFailed, expected side.other other alsoFailed⟩
    · exact absurd moves (stuck next)
  · intro side key returned error failed
    refine half side.other error failed ⟨users.endpoint side, .finished key⟩ ?_
    rw [Side.other_other]
    exact ⟨returned, rfl⟩

/-- Where no step is left both parties have their keys. -/
theorem device_ends_one_wrong : oneWrong.ReachableInOrder wrongEnd ∧
    ((∃ key : Side → Bytes, ∀ side, oneWrong.Returns wrongEnd side (key side)) ∨
      ∀ side, ∃ error, wrongEnd.code side = .raised error ∧ testErrors error) ∧
    ∀ (side : Side) (error : Exn), wrongEnd.code side.other ≠ .raised error := by
  have ends := oneWrong.device_ends wrongEnd oneWrong_reached
  exact ⟨oneWrong_reached, ends.1 oneWrong_stuck,
    fun side => ends.2 side [96] (oneWrong_returned side)⟩

end DeviceParties

end QChat
