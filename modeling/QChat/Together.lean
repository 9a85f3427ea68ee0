import QChat.Lockstep

/-!
# Rules for parts of lockstep programs

A `Together` statement is a two-party triple: the two processes, started with
nothing on the way and the leader to speak, run in lockstep to results that
satisfy the postcondition, and leave nothing on the way. The rules follow the
structure of the programs: results, sequencing, an exchange of two messages, and
a leader that has one item put on a port for each party. `Together.pass` turns
the triple for a loop body into one pass of the loop.
-/

namespace QChat

open Function (update)

variable {Message Port Item Error α β : Type}

/-- A step of one part is a step of the whole at the same place. -/
theorem update_bind (code : Side → Process Message Port Item Error α)
    (next : Side → α → Process Message Port Item Error β) (side : Side)
    (process : Process Message Port Item Error α) :
    (fun party => update code side process party >>= next party) =
      update (fun party => code party >>= next party) side (process >>= next side) := by
  funext party
  by_cases same : party = side
  · subst same
    simp
  · simp [same]

variable [DecidableEq Port] {wiring : Wiring Port}

/-- Continue both processes after their results. The turn is the leader's at the end of the
first part, as it was at its start. -/
theorem Lockstep.continued {enter : Side → β → Option (Process Message Port Item Error β)}
    {final : (Side → List β) → (Side → β) → Prop} {talk : Talk Message}
    {stock : Port → List Item} {before : Side → List α} {heads : Side → List β}
    {code : Side → Process Message Port Item Error α} {post : (Side → α) → Prop}
    (first : Lockstep wiring (fun _ _ => none) (fun _ results => post results) talk stock before
      code)
    (next : Side → α → Process Message Port Item Error β)
    (rest : ∀ results, post results →
      Lockstep wiring enter final (.idle .lead) (fun _ => []) heads
        (fun side => next side (results side))) :
    Lockstep wiring enter final talk stock heads (fun side => code side >>= next side) := by
  induction first with
  | @done results stock _ code ended empty holds =>
    obtain rfl : stock = fun _ => [] := funext empty
    have whole : (fun side => code side >>= next side) = fun side => next side (results side) := by
      funext side
      rw [ended side]
      rfl
    rw [whole]
    exact rest results holds
  | send side message process acts _ inductionHypothesis =>
    refine .send side message (process >>= next side) (by simp [acts]) ?_
    rwa [← update_bind]
  | receive side message process acts _ inductionHypothesis =>
    refine .receive side message (fun message => process message >>= next side)
      (by simp [acts]) ?_
    rwa [← update_bind]
  | signal side port item process writes acts _ inductionHypothesis =>
    refine .signal side port item (process >>= next side) writes (by simp [acts]) ?_
    rwa [← update_bind]
  | await side port item others process reads acts ready _ inductionHypothesis =>
    refine .await side port item others (fun item => process item >>= next side) reads
      (by simp [acts]) ready ?_
    rwa [← update_bind]
  | enter side head body returned again _ _ => cases again

/-- The two processes run in lockstep to results related by `post`: the triple that the parts of
a protocol are proved with. -/
def Together (wiring : Wiring Port) (code : Side → Process Message Port Item Error α)
    (post : (Side → α) → Prop) : Prop :=
  Lockstep wiring (fun _ _ => none) (fun _ results => post results) (.idle .lead)
    (fun _ => []) (fun _ => []) code

namespace Together

/-- Sequencing: the second part is proved for every joint result of the first. This and the next
two rules follow the structure of the programs. -/
theorem bind {code : Side → Process Message Port Item Error α} {middle : (Side → α) → Prop}
    {next : Side → α → Process Message Port Item Error β} {post : (Side → β) → Prop}
    (first : Together wiring code middle)
    (rest : ∀ results, middle results →
      Together wiring (fun side => next side (results side)) post) :
    Together wiring (fun side => code side >>= next side) post :=
  Lockstep.continued first next rest

/-- Both parties are done. -/
theorem done {post : (Side → α) → Prop} (results : Side → α) (holds : post results) :
    Together wiring (fun side => (.done (results side) : Process Message Port Item Error α))
      post :=
  Lockstep.done results (fun _ => rfl) (fun _ => rfl) holds

/-- A weaker postcondition. -/
theorem weaken {code : Side → Process Message Port Item Error α}
    {strong weak : (Side → α) → Prop} (first : Together wiring code strong)
    (implies : ∀ results, strong results → weak results) : Together wiring code weak := by
  have whole : Together wiring (fun side => code side >>= Process.done) weak :=
    first.bind fun results holds => done results (implies results holds)
  simpa using whole

/-- The leader asks and the follower answers. What the follower does with the
question need only be known for the question that is asked. -/
theorem exchange {code : Side → Process Message Port Item Error α}
    {post : (Side → α) → Prop} (question answer : Message)
    {afterReply : Message → Process Message Port Item Error α}
    {respond : Message → Process Message Port Item Error α}
    {afterQuestion : Process Message Port Item Error α}
    (asks : code .lead = .send question (.receive afterReply))
    (listens : code .follow = .receive respond)
    (answers : respond question = .send answer afterQuestion)
    (rest : ∀ ended : Side → Process Message Port Item Error α,
      ended .lead = afterReply answer → ended .follow = afterQuestion →
        Together wiring ended post) :
    Together wiring code post := by
  refine .send .lead question (.receive afterReply) asks ?_
  refine .receive .follow question respond (by simpa using listens) ?_
  refine .send .follow answer afterQuestion (by simpa using answers) ?_
  refine .receive .lead answer afterReply (by simp) ?_
  exact rest _ (by simp) (by simp)

/-- The leader has one item put on a port for each party, and each party takes
the one meant for it. -/
theorem share {code : Side → Process Message Port Item Error α} {post : (Side → α) → Prop}
    (ports : Side → Port) (items : Side → Item)
    (rest : Side → Item → Process Message Port Item Error α)
    (apart : ports .lead ≠ ports .follow)
    (writes : ∀ side, wiring.writer (ports side) = .lead)
    (reads : ∀ side, wiring.reader (ports side) = side)
    (leads : code .lead = .signal (ports .lead) (items .lead)
      (.signal (ports .follow) (items .follow) (.await (ports .lead) (rest .lead))))
    (follows : code .follow = .await (ports .follow) (rest .follow))
    (after : ∀ ended : Side → Process Message Port Item Error α,
      (∀ side, ended side = rest side (items side)) → Together wiring ended post) :
    Together wiring code post := by
  refine .signal .lead (ports .lead) (items .lead) _ (writes .lead) leads ?_
  refine .signal .lead (ports .follow) (items .follow) (.await (ports .lead) (rest .lead))
    (writes .follow) (by simp) ?_
  refine .await .lead (ports .lead) (items .lead) [] (rest .lead) (reads .lead) (by simp)
    (by simp [apart]) ?_
  refine .await .follow (ports .follow) (items .follow) [] (rest .follow) (reads .follow)
    (by simpa using follows) (by simp [apart.symm]) ?_
  have nothing : update (update (update (update (fun _ => []) (ports .lead) ([] ++ [items .lead]))
      (ports .follow) ([] ++ [items .follow])) (ports .lead) []) (ports .follow) [] =
      fun _ : Port => ([] : List Item) := by
    funext port
    by_cases second : port = ports .follow
    · simp [second]
    · by_cases first : port = ports .lead
      · simp [first, apart]
      · simp [first, second]
  have continues := after (update (update (update (update code .lead
    (.signal (ports .follow) (items .follow) (.await (ports .lead) (rest .lead)))) .lead
    (.await (ports .lead) (rest .lead))) .lead (rest .lead (items .lead))) .follow
    (rest .follow (items .follow))) (by
      intro side
      cases side <;> simp)
  unfold Together at continues
  convert continues using 1
  simpa [Function.update_of_ne apart.symm] using nothing

/-- A triple for the loop body is one pass of the loop, if what it comes to leads on to the
next. -/
theorem pass {enter : Side → α → Option (Process Message Port Item Error α)}
    {final : (Side → List α) → (Side → α) → Prop} {heads : Side → List α}
    {bodies : Side → Process Message Port Item Error α} {post : (Side → α) → Prop}
    (body : Together wiring bodies post) (ends : ∀ results, post results → final heads results) :
    Lockstep wiring enter final (.idle .lead) (fun _ => []) heads bodies := by
  have whole : Lockstep wiring enter final (.idle .lead) (fun _ => []) heads
      (fun side => bodies side >>= Process.done) := Lockstep.continued body (fun _ => Process.done)
    fun results holds => Lockstep.done results (fun _ => rfl) (fun _ => rfl)
      (ends results holds)
  simpa using whole

end Together

/-- The schedule of the first part of two programs is a run of the programs to where both
continue. At most one message is on the way, so none is delivered past another. -/
theorem Lockstep.reaches {blocks : Message → Message → Prop}
    (enter : Side → β → Option (Process Message Port Item Error β)) {talk : Talk Message}
    {stock : Port → List Item} {before : Side → List α}
    {code : Side → Process Message Port Item Error α} {post : (Side → α) → Prop}
    (first : Lockstep wiring (fun _ _ => none) (fun _ results => post results) talk stock before
      code)
    (next : Side → α → Process Message Port Item Error β) (heads : Side → List β) :
    ∃ results, Duet.ReachesInOrder blocks enter
      (.settled talk.toward stock heads fun side => code side >>= next side)
      (.settled (fun _ => []) (fun _ => []) heads fun side => next side (results side)) ∧
      post results := by
  induction first with
  | @done results stock _ code ended empty holds =>
    obtain rfl : stock = fun _ => [] := funext empty
    refine ⟨results, ?_, holds⟩
    simp only [ended, Process.done_bind]
    exact .refl
  | send side message process acts _ inductionHypothesis =>
    obtain ⟨results, reached, holds⟩ := inductionHypothesis
    rw [update_bind, ← Talk.toward_send side] at reached
    exact ⟨results, (Duet.settled_send (by simp [acts])).trans reached, holds⟩
  | receive side message process acts _ inductionHypothesis =>
    obtain ⟨results, reached, holds⟩ := inductionHypothesis
    rw [update_bind, ← Talk.toward_receive side side message] at reached
    refine ⟨results, (Duet.settled_step (.receive _ side message []
      (fun message => process message >>= next side) ?_ ?_)).trans reached, holds⟩
    · simp [Duet.settled, acts]
    · exact Talk.toward_carrying side message
  | signal side port item process writes acts _ inductionHypothesis =>
    obtain ⟨results, reached, holds⟩ := inductionHypothesis
    rw [update_bind] at reached
    exact ⟨results, (Duet.settled_signal (by simp [acts])).trans reached, holds⟩
  | await side port item others process reads acts present _ inductionHypothesis =>
    obtain ⟨results, reached, holds⟩ := inductionHypothesis
    rw [update_bind] at reached
    refine ⟨results, (Duet.settled_step (.await _ side port item others
      (fun item => process item >>= next side) ?_ present)).trans reached, holds⟩
    simp [Duet.settled, acts]
  | enter side head body returned again _ _ => cases again

end QChat
