import QChat.BB84Lockstep

/-!
# A BB84 session

A leader and a follower from the handshake to the end. The follower's protocol
object is built from the message that asks for it. The two loops of `execute` are
re-entered by the duet; the joint computation closes under these passes, so the
rules of `QChat.Lockstep` apply to every state that any order of steps reaches.
-/

namespace QChat

open Process

/-- A protocol object and how far its `execute` has come. A follower has no object until the
leader's request has told it the protocol and the size of the key. -/
structure Instance where
  self : Endpoint
  execution : Execution

namespace Instance

/-- Another pass of a running object. -/
def pass (_ : Side) (inst : Instance) : Option (Program Instance) :=
  (BB84_Purified.execute inst.self inst.execution).map fun body => do
    let execution ← body
    return ⟨inst.self, execution⟩

end Instance

namespace Parties

variable (parties : Parties)

/-- The leader establishes its role and starts; the follower waits to be asked. -/
def session : Side → Program Instance
  | .lead => do
    (parties.endpoint .lead)._lead_protocol
    return ⟨parties.endpoint .lead, .running .init⟩
  | .follow => do
    let self ← QChatClient._follow_protocol (parties.name .follow) (parties.chances .follow)
    return ⟨self, .running .init⟩

/-- The states of a session, under any order of its steps. -/
def Reachable (state : Duet Message Side Unit Exn Instance) : Prop :=
  Duet.Reaches Instance.pass (Duet.start parties.session) state

/-- A party has returned from `execute` with a key. -/
def Returns (state : Duet Message Side Unit Exn Instance) (side : Side) (key : Bytes) : Prop :=
  state.code side = .done ⟨parties.endpoint side, .finished key⟩

/-- The object of a party after some passes of the joint computation. -/
def inst (passes : Nat) (side : Side) : Instance :=
  ⟨parties.endpoint side, (stage parties passes).view side⟩

/-- Both parties have made the same number of passes, and are where the joint computation is.
Every earlier pass has left the session running, and the states the parties have gone through
are those of the joint computation. -/
structure At (passes : Nat) (heads : Side → List Instance) (results : Side → Instance) :
    Prop where
  running : ∀ earlier < passes, ∃ progress, stage parties earlier = .running progress
  history : ∀ side, heads side = (List.range passes).map (fun earlier => parties.inst earlier side)
  here : ∀ side, results side = parties.inst passes side

/-- Both parties are where the joint computation is after some passes. -/
def Final (heads : Side → List Instance) (results : Side → Instance) : Prop :=
  ∃ passes, parties.At passes heads results

/-- The leader's request is understood as it is meant. -/
theorem protocolRequest_key :
    protocolRequest (.obj [("name", .str ProtocolClass.BB84_Purified.name),
      ("key_size", .num parties.key_size)]) = .ok (.BB84_Purified, .num parties.key_size) := by
  have other : ¬ "key_size" = "name" := by decide
  simp only [protocolRequest, Dict.lookup, Dict.remove, ↓reduceIte,
    ProtocolClass.createProtocol_name, ProtocolClass.isKeyProtocol]

/-- The leader's request. -/
def request : Message :=
  parties.message .lead .PTCLMessage
    [("name", .str ProtocolClass.BB84_Purified.name), ("key_size", .num parties.key_size)]

/-- The follower's answer. -/
def acknowledgement : Message := parties.message .follow .BB84Message [("ACK", .str "ACK")]

/-- The leader asks, waits for the answer and starts. -/
theorem session_leads : ∃ afterReply, parties.session .lead =
    .send parties.request (.receive afterReply) ∧
      afterReply parties.acknowledgement = .done (parties.inst 0 .lead) := by
  have started : (parties.endpoint .lead).protocol.message_type = .BB84Message := rfl
  have acknowledged : parties.acknowledgement.data.item "ACK" = .ok (.str "ACK") := by
    simp [acknowledgement]
  refine ⟨_, by
    simp only [session, Endpoint._lead_protocol, Peers.send_control_message, send_bind, done_bind,
      _wait_for_control_message, receive_bind]
    rfl, ?_⟩
  simp only [started, acknowledgement, Peers.message_cls, true_or, ↓reduceIte, done_bind]
  rw [acknowledgement] at acknowledged
  rw [acknowledged]
  rfl

/-- The follower answers the request and starts. -/
theorem session_follows : ∃ respond, parties.session .follow = .receive respond ∧
    respond parties.request = .send parties.acknowledgement (.done (parties.inst 0 .follow)) := by
  have request := parties.protocolRequest_key
  have replied : ((parties.endpoint .follow)._follow_protocol : Program Unit) =
      .send parties.acknowledgement (.done ()) := parties.toPeers.send_control_message .follow _ _
  refine ⟨_, by
    simp only [session, QChatClient._follow_protocol, receive_bind]
    rfl, ?_⟩
  simp only [Parties.request, Peers.message_cls, ↓reduceIte, Peers.message_data, request, attempt_ok, done_bind]
  change (((parties.endpoint .follow)._follow_protocol >>= fun _ =>
        pure (parties.endpoint .follow)) >>= _) = _
  rw [replied]
  rfl

/-- The handshake gives both parties their protocol objects. -/
theorem session_together :
    Together sourceWiring parties.session (fun results => ∀ side,
      results side = parties.inst 0 side) := by
  obtain ⟨afterReply, leads, started⟩ := parties.session_leads
  obtain ⟨respond, follows, answers⟩ := parties.session_follows
  refine Together.exchange parties.request parties.acknowledgement leads follows answers
    fun ended leaderStarts followerStarts => ?_
  have both : ended = fun side => .done (parties.inst 0 side) := by
    funext side
    cases side with
    | lead => exact leaderStarts.trans started
    | follow => exact followerStarts
  rw [both]
  exact Together.done _ fun _ => rfl

/-- A pass on both sides leads from one stage to the next. -/
theorem pass_together (passes : Nat) (progress : Side → Progress)
    (here : stage parties passes = .running progress) :
    (∀ side, Instance.pass side (parties.inst passes side) =
        some (do
          let execution ← BB84_Purified.execute_pass (parties.endpoint side) (progress side)
          return ⟨parties.endpoint side, execution⟩)) ∧
      Together sourceWiring (fun side => do
          let execution ← BB84_Purified.execute_pass (parties.endpoint side) (progress side)
          return (⟨parties.endpoint side, execution⟩ : Instance))
        (fun results => ∀ side, results side = parties.inst (passes + 1) side) := by
  have aligned : Aligned progress := stage_aligned here
  have next : stage parties (passes + 1) = advance parties progress := stageBy_next here
  constructor
  · intro side
    simp only [inst, here, Stage.view_running, Instance.pass, BB84_Purified.execute,
      Option.map_some]
  · refine Together.bind (Together.execute_pass parties progress aligned) fun ended same => ?_
    simp only [same, pure_eq]
    refine Together.done _ fun side => ?_
    rw [inst, next]

/-- A stage at which both parties have returned starts no further pass. -/
theorem pass_finished (passes : Nat) (key : Side → Bytes)
    (here : stage parties passes = .finished key) (side : Side) :
    Instance.pass side (parties.inst passes side) = none := by
  simp only [inst, here, Stage.view_finished, Instance.pass, BB84_Purified.execute,
    Option.map_none]

/-- One more pass on both sides. -/
theorem At.next {passes : Nat} {heads : Side → List Instance} {results : Side → Instance}
    {parties : Parties} (before : parties.At passes heads results)
    (progress : Side → Progress) (here : stage parties passes = .running progress)
    (later : Side → Instance) (same : ∀ side, later side = parties.inst (passes + 1) side) :
    parties.At (passes + 1) (fun side => heads side ++ [results side]) later where
  running := by
    intro earlier bounded
    obtain sooner | rfl := Nat.lt_succ_iff_lt_or_eq.mp bounded
    · exact before.running earlier sooner
    · exact ⟨progress, here⟩
  history := by
    intro side
    simp only [before.history side, before.here side, List.range_succ, List.map_append,
      List.map_singleton]
  here := same

/-- The joint computation closes under passes of both parties. -/
theorem closed : Lockstep.Closed sourceWiring Instance.pass parties.Final := by
  rintro heads results ⟨passes, place⟩
  obtain rfl : results = parties.inst passes := funext place.here
  cases here : stage parties passes with
  | finished key => exact .inl (parties.pass_finished passes key here)
  | running progress =>
    obtain ⟨starts, runs⟩ := parties.pass_together passes progress here
    exact .inr ⟨_, starts, runs.pass fun later same =>
      ⟨passes + 1, place.next progress here later same⟩⟩

/-- The leader's exchanges begin with a message, the follower's by taking one. -/
theorem exchange_speaks (data : List (String × Value)) (message_type : MessageClass) :
    ((parties.endpoint .lead).exchange_messages data message_type :
      Program Message).speaksFirst := by
  rw [Peers.exchange_lead]
  trivial

theorem exchange_listens (data : List (String × Value)) (message_type : MessageClass) :
    ((parties.endpoint .follow).exchange_messages data message_type :
      Program Message).listensFirst := by
  apply listensFirst_bind
  trivial

/-- With a qubit missing, the leader asks for a pair and takes its half before it
speaks; the follower takes its half before it listens. -/
theorem receive_speaks (round missing : Nat) (x theta : List Bit) :
    (BB84_Purified.receive_loop (parties.endpoint .lead) round (missing + 1) x
      theta).speaksFirst := by
  simp only [BB84_Purified.receive_loop, Peers.endpoint_role, ↓reduceIte, Endpoint.requestEPR,
    Endpoint.receiveEPR, signal_bind, done_bind, await_bind, speaksFirst]
  intro half
  exact speaksFirst_bind _ _ (parties.exchange_speaks _ _)

theorem receive_listens (round missing : Nat) (x theta : List Bit) :
    (BB84_Purified.receive_loop (parties.endpoint .follow) round (missing + 1) x
      theta).listensFirst := by
  simp only [BB84_Purified.receive_loop, Peers.endpoint_role, reduceCtorEq, ↓reduceIte,
    Endpoint.receiveEPR, done_bind, await_bind, listensFirst]
  intro half
  exact listensFirst_bind _ _ (parties.exchange_listens _ _)

/-- The first chunk of a secret that is long enough is a whole codeword. -/
theorem chunk_first (x : List Bit) (enough : ¬ x.length < ECC_Golay.codeword_length) :
    ∃ codeword rest, ECC_Golay.chunk x = codeword :: rest ∧ codeword.length = 23 := by
  rw [golay_codeword_length] at enough
  obtain ⟨more, count⟩ : ∃ more, x.length / 23 = more + 1 := ⟨x.length / 23 - 1, by omega⟩
  rw [golay_chunk, count, List.range_succ_eq_map, List.map_cons, List.cons_append]
  refine ⟨_, _, rfl, ?_⟩
  rw [List.length_take, List.length_drop]
  omega

/-- Each pass of the leader begins with a message. -/
theorem lead_speaks (progress : Progress) :
    (BB84_Purified.execute_pass (parties.endpoint .lead) progress).speaksFirst := by
  have bound : (parties.endpoint .lead).key_size.exceeds progress.key.length =
      .ok (decide ((progress.key.length : Int) < parties.key_size)) := rfl
  simp only [BB84_Purified.execute_pass, bound, attempt_ok, done_bind]
  split
  · split
    · split
      · exact speaksFirst_bind _ _ (speaksFirst_bind _ _ (parties.receive_speaks _ 99 [] []))
      · next enough =>
        obtain ⟨codeword, rest, chunks, width⟩ := chunk_first progress.secret_bits enough
        apply speaksFirst_bind
        simp only [BB84_Purified._reconcile_information, chunks, BB84_Purified.reconcile_loop,
          golay_codeword_length, width, Nat.lt_irrefl, ↓reduceIte]
        apply speaksFirst_bind
        simp only [BB84_Purified.syndrome, Peers.endpoint_role, golay_encode codeword width, attempt_ok,
          done_bind]
        exact speaksFirst_bind _ _ (parties.exchange_speaks _ _)
    · next enough =>
      have bytes := reconciled_bytes_ok progress.reconciled (by omega)
      simp only [bytes, attempt_ok, done_bind, Together.amplify_lead, send_bind, speaksFirst]
  · exact speaksFirst_bind _ _ (speaksFirst_bind _ _ (parties.exchange_speaks _ _))

/-- Each pass of the follower begins by taking a message. -/
theorem follow_listens (progress : Progress) :
    (BB84_Purified.execute_pass (parties.endpoint .follow) progress).listensFirst := by
  have bound : (parties.endpoint .follow).key_size.exceeds progress.key.length =
      .ok (decide ((progress.key.length : Int) < parties.key_size)) := rfl
  simp only [BB84_Purified.execute_pass, bound, attempt_ok, done_bind]
  split
  · split
    · split
      · exact listensFirst_bind _ _ (listensFirst_bind _ _ (parties.receive_listens _ 99 [] []))
      · next enough =>
        obtain ⟨codeword, rest, chunks, width⟩ := chunk_first progress.secret_bits enough
        apply listensFirst_bind
        simp only [BB84_Purified._reconcile_information, chunks, BB84_Purified.reconcile_loop,
          golay_codeword_length, width, Nat.lt_irrefl, ↓reduceIte]
        apply listensFirst_bind
        exact listensFirst_bind _ _ (parties.exchange_listens _ _)
    · next enough =>
      have bytes := reconciled_bytes_ok progress.reconciled (by omega)
      simp only [bytes, attempt_ok, done_bind]
      apply listensFirst_bind
      simp only [BB84_Purified._amplify_privacy, Peers.endpoint_role]
      exact listensFirst_bind _ _ trivial
  · exact listensFirst_bind _ _ (listensFirst_bind _ _ (parties.exchange_listens _ _))

/-- Every pass in a history of the joint computation begins with a message from
the leader to the follower. -/
theorem opens : Lockstep.Opens Instance.pass parties.Final := by
  rintro heads results ⟨passes, place⟩
  have listed (side : Side) (head : Instance) (member : head ∈ heads side) :
      ∃ execution, head = ⟨parties.endpoint side, execution⟩ := by
    rw [place.history side] at member
    obtain ⟨earlier, -, rfl⟩ := List.mem_map.mp member
    exact ⟨_, rfl⟩
  constructor
  · intro head member body starts
    obtain ⟨execution, rfl⟩ := listed .lead head member
    cases execution with
    | finished key => cases starts
    | running progress =>
      cases starts
      exact speaksFirst_bind _ _ (parties.lead_speaks progress)
  · intro head member body starts
    obtain ⟨execution, rfl⟩ := listed .follow head member
    cases execution with
    | finished key => cases starts
    | running progress =>
      cases starts
      exact listensFirst_bind _ _ (parties.follow_listens progress)

/-- The two programs are in lockstep. -/
theorem session_lockstep : Lockstep sourceWiring Instance.pass parties.Final (.idle .lead)
    (fun _ => []) (fun _ => []) parties.session :=
  parties.session_together.pass fun _ same =>
    ⟨0, fun _ none => absurd none (Nat.not_lt_zero _), fun _ => rfl, same⟩

/-- Every reachable state is in lockstep. -/
theorem reachable_inStep {state : Duet Message Side Unit Exn Instance}
    (reached : parties.Reachable state) :
    Lockstep.InStep sourceWiring Instance.pass parties.Final state :=
  (Lockstep.start_inStep parties.session parties.session_lockstep).run parties.closed reached

/-- The history of each party is a prefix of the stages of the joint computation. -/
theorem reachable_heads {state : Duet Message Side Unit Exn Instance}
    (reached : parties.Reachable state) (side : Side) (n : Nat) (head : Instance)
    (entered : (state.heads side)[n]? = some head) : head = parties.inst n side := by
  obtain ⟨talk, stock, -, runs⟩ := parties.reachable_inStep reached
  obtain ⟨after, results, ⟨passes, place⟩, grows⟩ := runs.ends
  obtain ⟨rest, whole⟩ := grows side
  have bounded : n < (state.heads side).length := (List.getElem?_eq_some_iff.mp entered).1
  have later : (after side)[n]? = some head := by
    rwa [← whole, List.getElem?_append_left bounded]
  rw [place.history side, List.getElem?_map, Option.map_eq_some_iff] at later
  obtain ⟨earlier, listed, rfl⟩ := later
  obtain ⟨_, rfl⟩ := List.getElem?_eq_some_iff.mp listed
  rw [List.getElem_range]

/-- A party that has returned has made all passes of the joint computation, and
the other party has started as many. -/
theorem returns_stage {state : Duet Message Side Unit Exn Instance}
    (reached : parties.Reachable state) (side : Side) (key : Bytes)
    (returned : parties.Returns state side key) :
    ∃ passes keys results, stage parties passes = .finished keys ∧ keys side = key ∧
      parties.At passes state.heads results := by
  obtain ⟨talk, stock, -, runs⟩ := parties.reachable_inStep reached
  obtain ⟨results, ⟨passes, place⟩, same⟩ := runs.last_pass parties.opens side _ returned rfl
  have here := (place.here side).symm.trans same
  simp only [inst, Instance.mk.injEq, true_and] at here
  cases stop : stage parties passes with
  | running progress =>
    rw [stop] at here
    cases here
  | finished keys =>
    rw [stop] at here
    cases here
    exact ⟨passes, keys, results, stop, rfl, place⟩

/-- The passes before one stage, as both parties have entered them. -/
def entered (passes : Nat) (side : Side) : List Instance :=
  (List.range passes).map fun earlier => parties.inst earlier side

/-- There is a run to every stage of the joint computation. -/
theorem runs_to (passes : Nat)
    (running : ∀ earlier < passes, ∃ progress, stage parties earlier = .running progress) :
    Duet.ReachesInOrder (fun _ _ => False) Instance.pass (Duet.start parties.session)
      (.settled (fun _ => []) (fun _ => []) (parties.entered passes)
        fun side => .done (parties.inst passes side)) := by
  induction passes with
  | zero =>
    obtain ⟨objects, reached, same⟩ := Lockstep.reaches Instance.pass parties.session_together
      (fun _ => Process.done) fun _ => []
    simp only [bind_done, same] at reached
    exact reached
  | succ passes inductionHypothesis =>
    have sooner := inductionHypothesis fun earlier bounded =>
      running earlier (Nat.lt_succ_of_lt bounded)
    obtain ⟨progress, here⟩ := running passes (Nat.lt_succ_self passes)
    obtain ⟨starts, runs⟩ := parties.pass_together passes progress here
    obtain ⟨results, passed, same⟩ := Lockstep.reaches Instance.pass runs (fun _ => Process.done)
      (parties.entered (passes + 1))
    have heads : (fun side => parties.entered passes side ++ [parties.inst passes side]) =
        parties.entered (passes + 1) := by
      funext side
      rw [entered, entered, List.range_succ, List.map_append, List.map_singleton]
    simp only [bind_done, same, ← heads] at passed
    rw [← heads]
    exact sooner.trans ((Duet.settled_enter starts).trans passed)

/-- A session that ends can be run to its end. -/
theorem runs_out (passes : Nat) (keys : Side → Bytes)
    (running : ∀ earlier < passes, ∃ progress, stage parties earlier = .running progress)
    (stop : stage parties passes = .finished keys) :
    ∃ state, parties.Reachable state ∧ (∀ side, (state.heads side).length = passes) ∧
      ∀ side, parties.Returns state side (keys side) := by
  refine ⟨_, (parties.runs_to passes running).reaches, fun side => ?_, fun side => ?_⟩
  · simp only [Duet.settled, entered, List.length_map, List.length_range]
  · simp only [Returns, Duet.settled, inst, stop, Stage.view_finished]

end Parties

end QChat
