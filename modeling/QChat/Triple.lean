import QChat.Schedule
import QChat.Together

/-!
# Rules for parts of scheduled programs

A `Triple` is the counterpart of `Together` for eager schedules: the two
processes, started with nothing pending, have an eager schedule to results that
satisfy the postcondition. Beside it stands what the follower's results have in
common whatever messages it gets, so that a continuation of a follower that
returns early can be seen to send nothing out of turn.

Programs that use no port and are in lockstep satisfy the same triple.
-/

namespace QChat

open Function (update)

variable {Message Port Item Error α β : Type}

/-- No second pass: the results of the two programs are final, and `post` says what they are. -/
def Loop.once (ready : Side → Port → Item → Prop) (returns : α → Prop)
    (post : (Side → α) → Prop) : Loop Message Port Item Error α where
  enter := fun _ _ => none
  ready := fun side _ => ready side
  idle := Side.select (fun _ => False) returns
  final := fun _ results => post results
  calm := by
    intro side head body idle again
    cases again

@[simp] theorem Loop.once_idle_follow (ready : Side → Port → Item → Prop) (returns : α → Prop)
    (post : (Side → α) → Prop) :
    (Loop.once ready returns post : Loop Message Port Item Error α).idle .follow = returns := rfl

/-- The process uses no port, as it only exchanges messages. Nothing has to be said of what is
in stock for such parts. -/
def Process.portless : Process Message Port Item Error α → Prop
  | .done _ | .raised _ => True
  | .send _ rest => rest.portless
  | .receive rest => ∀ message, (rest message).portless
  | .signal _ _ _ | .await _ _ => False

theorem Process.portless_bind (process : Process Message Port Item Error α)
    (next : α → Process Message Port Item Error β) (first : process.portless)
    (second : ∀ result, (next result).portless) : (process >>= next).portless := by
  induction process with
  | done result => exact second result
  | raised error => trivial
  | send message rest inductionHypothesis => exact inductionHypothesis first
  | receive rest inductionHypothesis => exact fun message => inductionHypothesis message (first message)
  | signal port item rest inductionHypothesis => exact False.elim first
  | await port rest inductionHypothesis => exact False.elim first

variable [DecidableEq Port]
variable {terms : Terms Message Port Item Error}
variable {ready : Side → Port → Item → Prop} {returns : α → Prop}

/-- Continue both processes after their results, which may come at different times: one party
may have returned while the other is still about to take a message. -/
theorem Scheduled.continued {loop : Loop Message Port Item Error β}
    {pending : Side → List Message} {stock : Port → List Item} {before : Side → List α}
    {heads : Side → List β} {code : Side → Process Message Port Item Error α}
    {post : (Side → α) → Prop}
    (first : Scheduled terms (Loop.once ready returns post) pending stock before code)
    (next : Side → α → Process Message Port Item Error β)
    (suits : ∀ side port item, ready side port item → loop.ready side (heads side) port item)
    (calm : ∀ result, returns result → (next .follow result).calm (loop.idle .follow))
    (rest : ∀ results, post results → Scheduled terms loop (fun _ => []) (fun _ => []) heads
      (fun side => next side (results side))) :
    Scheduled terms loop pending stock heads (fun side => code side >>= next side) := by
  induction first with
  | @done results pending stock _ code ended quiet empty holds =>
    obtain rfl : stock = fun _ => [] := funext empty
    obtain rfl : pending = fun _ => [] := funext quiet
    have whole : (fun side => code side >>= next side) = fun side => next side (results side) := by
      funext side
      rw [ended side]
      rfl
    rw [whole]
    exact rest results holds
  | raised errors failed quiet expected =>
    exact .raised errors (fun side => by simp [failed side]) quiet expected
  | send side message process acts _ inductionHypothesis =>
    refine .send side message (process >>= next side) (by simp [acts]) ?_
    rwa [← update_bind]
  | receive side message others process acts present alone settled silent _ inductionHypothesis =>
    refine .receive side message others (fun message => process message >>= next side)
      (by simp [acts]) present alone settled ?_ ?_
    · refine Process.calm_bind _ _ silent fun result idle => ?_
      cases side with
      | lead => exact calm result idle
      | follow => exact False.elim idle
    · rwa [← update_bind]
  | signal side port item process writes acts waits _ inductionHypothesis =>
    refine .signal side port item (process >>= next side) writes (by simp [acts]) ?_ ?_
    · intro prompt
      obtain ⟨nothing, held, here⟩ := waits prompt
      exact ⟨nothing, _, by rw [here, Process.receive_bind]⟩
    · rwa [← update_bind]
  | await side port item others process reads acts present fits _ inductionHypothesis =>
    refine .await side port item others (fun item => process item >>= next side) reads
      (by simp [acts]) present (suits side port item fits) ?_
    rwa [← update_bind]
  | enter side head body returned again _ _ => cases again

/-- The two processes have an eager schedule to results related by `post`. It is a Hoare triple
for a pair of programs, without a precondition, as programs hold what they start from. -/
def Triple (terms : Terms Message Port Item Error) (ready : Side → Port → Item → Prop)
    (returns : α → Prop) (code : Side → Process Message Port Item Error α)
    (post : (Side → α) → Prop) : Prop :=
  Scheduled terms (Loop.once ready returns post) (fun _ => []) (fun _ => []) (fun _ => []) code

namespace Triple

/-- Sequencing: the second part is proved for every joint result of the first. A follower whose
first part returns early has to take a message before it sends one, so that no message can come
between. -/
theorem bind {resting : β → Prop} {code : Side → Process Message Port Item Error α}
    {middle : (Side → α) → Prop} {next : Side → α → Process Message Port Item Error β}
    {post : (Side → β) → Prop} (first : Triple terms ready returns code middle)
    (calm : ∀ result, returns result → (next .follow result).calm resting)
    (rest : ∀ results, middle results →
      Triple terms ready resting (fun side => next side (results side)) post) :
    Triple terms ready resting (fun side => code side >>= next side) post :=
  Scheduled.continued first next (fun _ _ _ fits => fits) calm rest

/-- Both parties are done. -/
theorem done {post : (Side → α) → Prop} (results : Side → α) (holds : post results) :
    Triple terms ready returns
      (fun side => (.done (results side) : Process Message Port Item Error α)) post :=
  Scheduled.done results (fun _ => rfl) (fun _ => rfl) (fun _ => rfl) holds

/-- Both parties end with expected errors. -/
theorem raised {post : (Side → α) → Prop} (errors : Side → Error)
    (expected : terms.fails errors) :
    Triple terms ready returns
      (fun side => (.raised (errors side) : Process Message Port Item Error α)) post :=
  Scheduled.raised errors (fun _ => rfl) (fun _ => rfl) expected

/-- A weaker postcondition, and less known of the follower's results: the rule of
consequence. -/
theorem weaken {resting : α → Prop} {code : Side → Process Message Port Item Error α}
    {strong weak : (Side → α) → Prop} (first : Triple terms ready returns code strong)
    (known : ∀ result, returns result → resting result)
    (implies : ∀ results, strong results → weak results) :
    Triple terms ready resting code weak := by
  have whole : Triple terms ready resting (fun side => code side >>= Process.done) weak :=
    first.bind known fun results holds => done results (implies results holds)
  simpa using whole

/-- The leader asks and the follower answers; having answered, the follower sends
nothing before it takes the next message. -/
theorem exchange {code : Side → Process Message Port Item Error α}
    {post : (Side → α) → Prop} (question answer : Message)
    {afterReply : Message → Process Message Port Item Error α}
    {respond : Message → Process Message Port Item Error α}
    {afterQuestion : Process Message Port Item Error α}
    (asks : code .lead = .send question (.receive afterReply))
    (listens : code .follow = .receive respond)
    (answers : respond question = .send answer afterQuestion)
    (calm : afterQuestion.calm returns)
    (rest : ∀ ended : Side → Process Message Port Item Error α,
      ended .lead = afterReply answer → ended .follow = afterQuestion →
        Triple terms ready returns ended post) :
    Triple terms ready returns code post := by
  refine .send .lead question (.receive afterReply) asks ?_
  refine .receive .follow question [] respond (by simpa using listens) (by simp) (by simp)
    (by simp [Settled]) (by simp [Process.calm]) ?_
  refine .send .follow answer afterQuestion (by simpa using answers) ?_
  refine .receive .lead answer [] afterReply (by simp) (by simp) (by simp) (by simp [Settled])
    (by simpa using calm) ?_
  have nothing : update (update (update (update (fun _ => []) Side.lead.other
      ([] ++ [question])) .follow []) Side.follow.other
      (update (update (fun _ => []) Side.lead.other ([] ++ [question])) .follow []
        Side.follow.other ++ [answer])) .lead [] = fun _ : Side => ([] : List Message) := by
    funext side
    cases side <;> simp
  have continues := rest (update (update (update (update code .lead (.receive afterReply)) .follow
    (respond question)) .follow afterQuestion) .lead (afterReply answer)) (by simp) (by simp)
  unfold Triple at continues
  convert continues using 1

/-- The leader sends a notice and a question without waiting in between, and the
follower takes both before it answers. The question must not overtake the notice. -/
theorem announce {code : Side → Process Message Port Item Error α}
    {post : (Side → α) → Prop} (notice question answer : Message)
    {afterReply respond takeQuestion : Message → Process Message Port Item Error α}
    {afterQuestion : Process Message Port Item Error α}
    (asks : code .lead = .send notice (.send question (.receive afterReply)))
    (listens : code .follow = .receive respond)
    (takes : respond notice = .receive takeQuestion)
    (answers : takeQuestion question = .send answer afterQuestion)
    (inOrder : terms.blocks notice question) (calm : afterQuestion.calm returns)
    (rest : ∀ ended : Side → Process Message Port Item Error α,
      ended .lead = afterReply answer → ended .follow = afterQuestion →
        Triple terms ready returns ended post) :
    Triple terms ready returns code post := by
  refine .send .lead notice _ asks ?_
  refine .send .lead question (.receive afterReply) (by simp) ?_
  refine .receive .follow notice [question] respond (by simpa using listens) (by simp) (by simp)
    (by simp [Settled, inOrder]) (by simp [Process.calm]) ?_
  refine .receive .follow question [] takeQuestion (by simpa using takes) (by simp) (by simp)
    (by simp [Settled]) (by simp [Process.calm]) ?_
  refine .send .follow answer afterQuestion (by simpa using answers) ?_
  refine .receive .lead answer [] afterReply (by simp) (by simp) (by simp) (by simp [Settled])
    (by simpa using calm) ?_
  have continues := rest (Side.select (afterReply answer) afterQuestion) rfl rfl
  unfold Triple at continues
  convert continues using 1
  · funext side
    cases side <;> simp
  · funext side
    cases side <;> simp

/-- The leader has one item put on a port for each party, and each party takes
the one meant for it. -/
theorem share {code : Side → Process Message Port Item Error α} {post : (Side → α) → Prop}
    (ports : Side → Port) (items : Side → Item)
    (rest : Side → Item → Process Message Port Item Error α)
    (apart : ports .lead ≠ ports .follow) (free : ¬ terms.prompt)
    (writes : ∀ side, terms.wiring.writer (ports side) = .lead)
    (reads : ∀ side, terms.wiring.reader (ports side) = side)
    (suits : ∀ side, ready side (ports side) (items side))
    (leads : code .lead = .signal (ports .lead) (items .lead)
      (.signal (ports .follow) (items .follow) (.await (ports .lead) (rest .lead))))
    (follows : code .follow = .await (ports .follow) (rest .follow))
    (after : ∀ ended : Side → Process Message Port Item Error α,
      (∀ side, ended side = rest side (items side)) → Triple terms ready returns ended post) :
    Triple terms ready returns code post := by
  refine .signal .lead (ports .lead) (items .lead) _ (writes .lead) leads
    (fun prompt => absurd prompt free) ?_
  refine .signal .lead (ports .follow) (items .follow) (.await (ports .lead) (rest .lead))
    (writes .follow) (by simp) (fun prompt => absurd prompt free) ?_
  refine .await .lead (ports .lead) (items .lead) [] (rest .lead) (reads .lead) (by simp)
    (by simp [apart]) (suits .lead) ?_
  refine .await .follow (ports .follow) (items .follow) [] (rest .follow) (reads .follow)
    (by simpa using follows) (by simp [apart.symm]) (suits .follow) ?_
  have nothing : update (update (update (update (fun _ => []) (ports .lead) ([] ++ [items .lead]))
      (ports .follow) ([] ++ [items .follow])) (ports .lead) []) (ports .follow) [] =
      fun _ : Port => ([] : List Item) := by
    funext port
    by_cases second : port = ports .follow
    · simp [second]
    · by_cases first : port = ports .lead
      · simp [first, apart]
      · simp [first, second]
  have continues := after (update (update (update (update code .lead
    (.signal (ports .follow) (items .follow) (.await (ports .lead) (rest .lead)))) .lead
    (.await (ports .lead) (rest .lead))) .lead (rest .lead (items .lead))) .follow
    (rest .follow (items .follow))) (by
      intro side
      cases side <;> simp)
  unfold Triple at continues
  convert continues using 1
  simpa [Function.update_of_ne apart.symm] using nothing

/-- Programs in lockstep that use no port have an eager schedule, the same one. -/
theorem of_lockstep {wiring : Wiring Port} {post : (Side → α) → Prop} {talk : Talk Message}
    {stock : Port → List Item} {heads : Side → List α}
    {code : Side → Process Message Port Item Error α}
    (runs : Lockstep wiring (fun _ _ => none) (fun _ results => post results) talk stock heads code)
    (free : ∀ side, (code side).portless) :
    Scheduled terms (Loop.once ready (fun _ => True) post) talk.toward stock heads code := by
  have updated (code : Side → Process Message Port Item Error α) (side : Side)
      (process : Process Message Port Item Error α) (free : ∀ side, (code side).portless)
      (rest : process.portless) : ∀ party, (update code side process party).portless := by
    intro party
    by_cases same : party = side
    · subst same
      simpa using rest
    · simpa [same] using free party
  induction runs with
  | done results ended empty holds => exact .done results ended (fun _ => rfl) empty holds
  | send side message rest acts next inductionHypothesis =>
    refine .send side message rest acts ?_
    have here := free side
    rw [acts] at here
    have after := inductionHypothesis (updated _ _ _ free here)
    convert after using 1
    funext party
    cases side <;> cases party <;> simp [Talk.toward]
  | @receive side message rest stock heads code acts next inductionHypothesis =>
    have here := free side
    rw [acts] at here
    refine .receive side message [] rest acts (by simp [Talk.toward]) (by simp [Talk.toward])
      (by simp [Talk.toward, Settled]) ?_ ?_
    · -- The message is on its way, so the other party is neither about to send nor done.
      have there := free side.other
      cases process : code side.other with
      | done result =>
        cases side with
        | lead => trivial
        | follow =>
          have whole : Lockstep wiring (fun _ _ => none) (fun _ results => post results)
              (.carrying .follow message) stock heads code := .receive .follow message rest acts next
          have turn := whole.lead_returned result process rfl
          cases turn
      | raised error => trivial
      | send sent continued =>
        have whole : Lockstep wiring (fun _ _ => none) (fun _ results => post results)
            (.carrying side message) stock heads code := .receive side message rest acts next
        have turn := (whole.after_send side.other sent continued process).1
        cases turn
      | receive continued => trivial
      | signal port item continued =>
        rw [process] at there
        exact False.elim there
      | await port continued =>
        rw [process] at there
        exact False.elim there
    · have after := inductionHypothesis (updated _ _ _ free (here message))
      convert after using 1
      funext party
      cases side <;> cases party <;> simp [Talk.toward]
  | signal side port item rest writes acts next inductionHypothesis =>
    have here := free side
    rw [acts] at here
    exact False.elim here
  | await side port item others rest reads acts present next inductionHypothesis =>
    have here := free side
    rw [acts] at here
    exact False.elim here
  | enter side head body returned again next inductionHypothesis => cases again

/-- A lockstep triple without ports is a triple. At most one message is on the way then, so none
has to be kept in order. -/
theorem of_together {wiring : Wiring Port} {post : (Side → α) → Prop}
    {code : Side → Process Message Port Item Error α} (runs : Together wiring code post)
    (free : ∀ side, (code side).portless) :
    Triple terms ready (fun _ => True) code post := of_lockstep runs free

/-- A triple for the loop body is one pass of the loop, if what it comes to leads on to the
next. -/
theorem pass {loop : Loop Message Port Item Error α} {heads : Side → List α}
    {bodies : Side → Process Message Port Item Error α} {post : (Side → α) → Prop}
    (body : Triple terms ready returns bodies post)
    (suits : ∀ side port item, ready side port item → loop.ready side (heads side) port item)
    (known : ∀ result, returns result → loop.idle .follow result)
    (ends : ∀ results, post results → loop.final heads results) :
    Scheduled terms loop (fun _ => []) (fun _ => []) heads bodies := by
  have whole : Scheduled terms loop (fun _ => []) (fun _ => []) heads
      (fun side => bodies side >>= Process.done) :=
    Scheduled.continued body (fun _ => Process.done) suits known fun results holds =>
      Scheduled.done results (fun _ => rfl) (fun _ => rfl) (fun _ => rfl) (ends results holds)
  simpa using whole

end Triple

/-- The schedule of the first part of two programs is a run of the programs in order, to
where both continue or both have raised an error. -/
theorem Scheduled.reaches (enter : Side → β → Option (Process Message Port Item Error β))
    {pending : Side → List Message} {stock : Port → List Item} {before : Side → List α}
    {code : Side → Process Message Port Item Error α} {post : (Side → α) → Prop}
    (first : Scheduled terms (Loop.once ready returns post) pending stock before code)
    (next : Side → α → Process Message Port Item Error β) (heads : Side → List β) :
    (∃ results, Duet.ReachesInOrder terms.blocks enter
      (.settled pending stock heads fun side => code side >>= next side)
      (.settled (fun _ => []) (fun _ => []) heads fun side => next side (results side)) ∧
      post results) ∨
    ∃ later errors, Duet.ReachesInOrder terms.blocks enter
      (.settled pending stock heads fun side => code side >>= next side) later ∧
      (∀ side, later.code side = .raised (errors side)) ∧ terms.fails errors := by
  -- a run to some state and the rest of the schedule from there
  have ahead {state middle : Duet Message Port Item Error β}
      (sooner : Duet.ReachesInOrder terms.blocks enter state middle)
      (later : (∃ results, Duet.ReachesInOrder terms.blocks enter middle
        (.settled (fun _ => []) (fun _ => []) heads fun side => next side (results side)) ∧
        post results) ∨ ∃ later errors, Duet.ReachesInOrder terms.blocks enter middle later ∧
          (∀ side, later.code side = .raised (errors side)) ∧ terms.fails errors) :
      (∃ results, Duet.ReachesInOrder terms.blocks enter state
        (.settled (fun _ => []) (fun _ => []) heads fun side => next side (results side)) ∧
        post results) ∨ ∃ later errors, Duet.ReachesInOrder terms.blocks enter state later ∧
          (∀ side, later.code side = .raised (errors side)) ∧ terms.fails errors := by
    rcases later with ⟨results, reached, holds⟩ | ⟨later, errors, reached, rest⟩
    · exact .inl ⟨results, Relation.ReflTransGen.trans sooner reached, holds⟩
    · exact .inr ⟨later, errors, Relation.ReflTransGen.trans sooner reached, rest⟩
  induction first with
  | @done results pending stock _ code ended quiet empty holds =>
    obtain rfl : stock = fun _ => [] := funext empty
    obtain rfl : pending = fun _ => [] := funext quiet
    refine .inl ⟨results, ?_, holds⟩
    simp only [ended, Process.done_bind]
    exact .refl
  | raised errors failed quiet expected =>
    exact .inr ⟨_, errors, .refl, fun side => by simp [Duet.settled, failed], expected⟩
  | send side message process acts _ inductionHypothesis =>
    rw [update_bind] at inductionHypothesis
    exact ahead (Duet.settled_send (by simp [acts])) inductionHypothesis
  | receive side message others process acts present alone settled silent _ inductionHypothesis =>
    rw [update_bind] at inductionHypothesis
    exact ahead (Duet.settled_step (.receive _ side message others
      (fun message => process message >>= next side) (by simp [Duet.settled, acts]) present))
      inductionHypothesis
  | signal side port item process writes acts waits _ inductionHypothesis =>
    rw [update_bind] at inductionHypothesis
    exact ahead (Duet.settled_signal (by simp [acts])) inductionHypothesis
  | await side port item others process reads acts present fits _ inductionHypothesis =>
    rw [update_bind] at inductionHypothesis
    exact ahead (Duet.settled_step (.await _ side port item others
      (fun item => process item >>= next side) (by simp [Duet.settled, acts]) present))
      inductionHypothesis
  | enter side head body returned again _ _ => cases again

/-- One pass of both parties, where no error is expected, is a run in order to their next
results. -/
theorem Triple.reaches {bodies : Side → Process Message Port Item Error α}
    {post : (Side → α) → Prop} (body : Triple terms ready returns bodies post)
    (enter : Side → α → Option (Process Message Port Item Error α)) (results : Side → α)
    (starts : ∀ side, enter side (results side) = some (bodies side))
    (never : ∀ errors, ¬ terms.fails errors) (heads : Side → List α) :
    ∃ later, Duet.ReachesInOrder terms.blocks enter
      (.settled (fun _ => []) (fun _ => []) heads fun side => .done (results side))
      (.settled (fun _ => []) (fun _ => []) (fun side => heads side ++ [results side])
        fun side => .done (later side)) ∧ post later := by
  obtain ⟨later, passed, holds⟩ | ⟨_, errors, _, _, expected⟩ := Scheduled.reaches enter body
    (fun _ => Process.done) fun side => heads side ++ [results side]
  · simp only [Process.bind_done] at passed
    exact ⟨later, (Duet.settled_enter starts).trans passed, holds⟩
  · exact absurd expected (never errors)

end QChat
