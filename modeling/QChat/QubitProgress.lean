import Mathlib.Logic.Hydra
import QChat.Calls
import QChat.QubitPairing

/-!
# The end of the distributions

When a session starts only if every earlier one is over or apart from it, no session is
ever stuck, and without new sessions every run comes to an end. At its end every session
of which no end has given up is through, and nothing of it is left at the source or on the
way.
-/

namespace QChat

open Function (update)

namespace QubitNetwork

variable {User : Type} {net : QubitNetwork User} {position : Nat} {session : QubitSession User}

/-- An end of a session has failed: a wait has timed out or an action has raised. -/
def Failed (session : QubitSession User) : Prop := ∃ side error, session.code side = .raised error

/-- A session of which no end has failed is in a round or between two. -/
theorem Sound.round (sound : Sound net) (running : net.sessions[position]? = some session)
    (well : ¬ Failed session) : RoundStage position session (net.view position session.user) :=
  (sound.stage position session running).unfailed fun side error raised => well ⟨side, error, raised⟩

/-- The programs of the two ends of a session. -/
def ends (session : QubitSession User) : Multiset (Program Unit) :=
  {session.code .lead} + {session.code .follow}

/-- What the ends of all sessions still have to do. -/
def programs (sessions : List (QubitSession User)) : Multiset (Program Unit) :=
  (sessions.map ends).sum

/-- A program goes on with another one, or fails in its next action, which ends it. -/
def Shrinks (next program : Program Unit) : Prop :=
  Process.Continues next program ∨ (∃ error, next = .raised error) ∧ ¬ Ended program

/-- A program has finitely many actions, and fails at most once. So there is no infinite
sequence of programs each of which is what the last one goes on with. -/
theorem shrinks_wellFounded : WellFounded Shrinks := by
  refine ⟨fun program => ?_⟩
  induction program using Process.continues_wellFounded.induction with
  | _ program inductionHypothesis =>
    refine ⟨_, fun next shrinks => ?_⟩
    rcases shrinks with goesOn | ⟨⟨error, rfl⟩, -⟩
    · exact inductionHypothesis next goesOn
    · -- nothing comes after a failure
      refine ⟨_, fun last again => ?_⟩
      rcases again with goesOn | ⟨-, running⟩
      · cases goesOn
      · exact absurd (Or.inr ⟨error, rfl⟩) running

/-- A program that comes later in another one. -/
abbrev Later : Program Unit → Program Unit → Prop := Relation.TransGen Shrinks

theorem programs_set {sessions : List (QubitSession User)}
    (running : sessions[position]? = some session) (now : QubitSession User) :
    programs (sessions.set position now) + ends session = programs sessions + ends now := by
  induction sessions generalizing position with
  | nil => simp at running
  | cons first rest inductionHypothesis =>
    cases position with
    | zero =>
      obtain rfl : first = session := by simpa using running
      simp only [programs, List.set_cons_zero, List.map_cons, List.sum_cons]
      abel
    | succ position =>
      have others := inductionHypothesis (by simpa using running)
      simp only [programs] at others
      simp only [programs, List.set_cons_succ, List.map_cons, List.sum_cons, add_assoc, others]

/-- An end of one session goes on. -/
theorem programs_advance {sessions : List (QubitSession User)}
    (running : sessions[position]? = some session) {now : QubitSession User} {side : Side}
    {process : Program Unit} (code : now.code = update session.code side process)
    (later : Later process (session.code side)) :
    Relation.CutExpand Later (programs (sessions.set position now)) (programs sessions) := by
  refine ⟨{process}, session.code side, by simpa using later, ?_⟩
  have whole := programs_set running now
  cases side with
  | lead =>
    simp only [ends, code, Function.update_self, ne_eq, reduceCtorEq, not_false_eq_true,
      Function.update_of_ne, ← add_assoc] at whole
    exact add_right_cancel whole
  | follow =>
    simp only [ends, code, Function.update_self, ne_eq, reduceCtorEq, not_false_eq_true,
      Function.update_of_ne, add_left_comm _ ({session.code .lead} : Multiset (Program Unit))]
      at whole
    exact add_left_cancel whole

/-- What the source has to do and what travels: a request is worth two halves that are to be
sent, a pair of which one half is sent is worth one, and a message on its way one arrival. -/
def errands (net : QubitNetwork User) : Nat :=
  2 * net.requests.length + net.halved.length + net.travelling.length

/-- Nothing is left at the source or on the way, and both ends of a session have taken all its
pairs, so a session that comes next finds no half and no message of it. -/
structure Clear (net : QubitNetwork User) : Prop where
  requests : net.requests = []
  halved : net.halved = []
  received : ∀ side user, net.received side user = []
  travelling : net.travelling = []
  queue : ∀ user other, net.queue user other = []
  taken : ∀ (position : Nat) (session : QubitSession User), net.sessions[position]? = some session →
    ∀ side, session.taken side = pairs position session.requested

/-- When all sessions are through, nothing is left, as everything on the way is of a session
that is there. -/
theorem Sound.clear (sound : Sound net)
    (finished : ∀ session ∈ net.sessions, Finished session) : Clear net := by
  have whole {position : Nat} {session : QubitSession User}
      (running : net.sessions[position]? = some session) :
      net.view position session.user = ⟨[], [], fun _ => [], fun _ => []⟩ ∧
        ∀ side, session.taken side = pairs position session.requested := by
    have through := finished session (List.mem_of_getElem? running)
    refine (sound.round running ?_).of_finished through
    rintro ⟨side, error, raised⟩
    cases (through side).symm.trans raised
  have gone {position : Nat} {session : QubitSession User}
      (running : net.sessions[position]? = some session) : Over net position session :=
    ⟨fun side => Or.inl (finished session (List.mem_of_getElem? running) side), (whole running).1⟩
  have listed {position : Nat} (within : position < net.sessions.length) :
      net.view position net.sessions[position].user = ⟨[], [], fun _ => [], fun _ => []⟩ :=
    (whole (List.getElem?_eq_getElem within)).1
  constructor
  · refine List.eq_nil_iff_forall_not_mem.mpr fun pair member => ?_
    exact mine_ne_nil rfl member
      (congrArg View.requests (listed (sound.routed.requested pair member)))
  · refine List.eq_nil_iff_forall_not_mem.mpr fun pair member => ?_
    exact mine_ne_nil rfl member (congrArg View.halved (listed (sound.routed.halved pair member)))
  · intro side user
    refine List.eq_nil_iff_forall_not_mem.mpr fun pair member => ?_
    obtain ⟨session, running, rfl⟩ := sound.routed.received side user pair member
    exact busy_of_received rfl member (gone running)
  · refine List.eq_nil_iff_forall_not_mem.mpr fun envelope member => ?_
    have running := List.getElem?_eq_getElem (sound.routed.travelling envelope member)
    exact busy_of_message rfl (List.mem_append_right _ member) (gone running)
  · intro user other
    refine List.eq_nil_iff_forall_not_mem.mpr fun envelope member => ?_
    obtain ⟨session, running, rfl, rfl⟩ := sound.routed.queued user other envelope member
    exact busy_of_message rfl (List.mem_append_left _ member) (gone running)
  · exact fun position session running => (whole running).2

variable [DecidableEq User]

/-- A session goes on. -/
abbrev GoesOn (net after : QubitNetwork User) : Prop := Step net .goOn after

/-- A step that starts no session: a session goes on, or one of its ends fails. -/
def Goes (net after : QubitNetwork User) : Prop := GoesOn net after ∨ Step net .giveUp after

theorem goes_of_goesOn {after : QubitNetwork User} (run : Relation.ReflTransGen GoesOn net after) :
    Relation.ReflTransGen Goes net after :=
  Relation.ReflTransGen.mono (fun _ _ => Or.inl) _ _ run

/-- A step that starts no session leaves the users of all sessions. -/
theorem Step.users {act : Act} {after : QubitNetwork User} (step : Step net act after)
    (other : act ≠ .start) : after.sessions.map (·.user) = net.sessions.map (·.user) := by
  have kept {position : Nat} {session now : QubitSession User}
      (running : net.sessions[position]? = some session) (same : now.user = session.user) :
      (net.sessions.set position now).map (·.user) = net.sessions.map (·.user) := by
    refine List.ext_getElem? fun place => ?_
    simp only [List.getElem?_map, List.getElem?_set]
    split
    · next here =>
      subst here
      rw [running]
      simp [(List.getElem?_eq_some_iff.mp running).1, same]
    · rfl
  cases step with
  | start => exact absurd rfl other
  | requestEPR position session rest running acts => exact kept running rfl
  | createEPR before after pair session pending running => rfl
  | sendQubit before after pair session pending running => rfl
  | receiveEPR position session side pair others rest running acts ready => exact kept running rfl
  | _send_control_message position session side message rest running acts => exact kept running rfl
  | _store_control_message before after envelope session pending running => rfl
  | _wait_for_control_message position session side envelope others rest running acts ready =>
    exact kept running rfl
  | giveUp position session side error running goesOn => exact kept running rfl

theorem Step.length {act : Act} {after : QubitNetwork User} (step : Step net act after)
    (other : act ≠ .start) : after.sessions.length = net.sessions.length := by
  simpa using congrArg List.length (step.users other)

/-- Such a step advances an end of a session, or gets an errand done. -/
theorem Goes.smaller {after : QubitNetwork User} (goes : Goes net after) :
    Relation.CutExpand Later (programs after.sessions) (programs net.sessions) ∨
      after.sessions = net.sessions ∧ after.errands < net.errands := by
  rcases goes with step | step
  · cases step with
    | requestEPR position session rest running acts =>
      refine Or.inl (programs_advance running rfl ?_)
      rw [acts]
      exact .tail (.single (Or.inl (.signal Side.follow () rest))) (Or.inl (.signal Side.lead () _))
    | createEPR before after pair session pending running =>
      refine Or.inr ⟨rfl, ?_⟩
      simp only [errands, pending, List.length_append, List.length_cons, List.length_nil]
      omega
    | sendQubit before after pair session pending running =>
      refine Or.inr ⟨rfl, ?_⟩
      simp only [errands, pending, List.length_append, List.length_cons]
      omega
    | receiveEPR position session side pair others rest running acts ready =>
      refine Or.inl (programs_advance running rfl ?_)
      rw [acts]
      exact .single (Or.inl (.await side () rest))
    | _send_control_message position session side message rest running acts =>
      refine Or.inl (programs_advance running rfl ?_)
      rw [acts]
      exact .single (Or.inl (.send message rest))
    | _store_control_message before after envelope session pending running =>
      refine Or.inr ⟨rfl, ?_⟩
      simp only [errands, pending, List.length_append, List.length_cons]
      omega
    | _wait_for_control_message position session side envelope others rest running acts ready =>
      refine Or.inl (programs_advance running rfl ?_)
      rw [acts]
      exact .single (Or.inl (.receive envelope.message rest))
  · cases step with
    | giveUp position session side error running goesOn =>
      exact Or.inl (programs_advance running rfl (.single (Or.inr ⟨⟨error, rfl⟩, goesOn⟩)))

/-- An end only fails by giving up: where a session goes on, whoever has failed had failed
before. -/
theorem Sound.failed_before (sound : Sound net) {after : QubitNetwork User}
    (step : GoesOn net after) {place : Nat} {now : QubitSession User}
    (found : after.sessions[place]? = some now) (failed : Failed now) :
    ∃ before, net.sessions[place]? = some before ∧ Failed before := by
  -- an end of a session that is in a round or between two has not failed
  have well {position : Nat} {now : QubitSession User} {view : View}
      (stage : RoundStage position now view) : ¬ Failed now := by
    rintro ⟨side, error, raised⟩
    exact stage.unraised side error raised
  have goesOn {position : Nat} {session after : QubitSession User}
      (running : net.sessions[position]? = some session)
      (found : (net.sessions.set position after)[place]? = some now)
      (own : ¬ Failed session → ¬ Failed after) :
      ∃ before, net.sessions[place]? = some before ∧ Failed before := by
    rcases found_after running found with ⟨rfl, rfl⟩ | ⟨-, before⟩
    · exact ⟨session, running, by_contra fun none => own none failed⟩
    · exact ⟨now, before, failed⟩
  cases step with
  | createEPR before after pair session pending running => exact ⟨now, found, failed⟩
  | sendQubit before after pair session pending running => exact ⟨now, found, failed⟩
  | _store_control_message before after envelope session pending running =>
    exact ⟨now, found, failed⟩
  | requestEPR position session rest running acts =>
    exact goesOn running found fun none => well ((sound.round running none).requestEPR acts)
  | receiveEPR position session side pair others rest running acts ready =>
    have own := (sound.received_own running (busy_of_acts acts (by simp [Ended])) side).trans ready
    exact goesOn running found fun none => well ((sound.round running none).receiveEPR acts own)
  | _send_control_message position session side message rest running acts =>
    exact goesOn running found fun none => well ((sound.round running none).send acts)
  | _wait_for_control_message position session side envelope others rest running acts ready =>
    have own := sound.messages_own running (busy_of_acts acts (by simp [Ended])) ready
    exact goesOn running found fun none => well ((sound.round running none).receive acts own)

/-- Without new sessions no run is infinite, whatever sessions run at one time and whoever
gives up. -/
theorem goes_terminates : WellFounded fun after net : QubitNetwork User => Goes net after := by
  have later : WellFounded Later := shrinks_wellFounded.transGen
  have less := later.cutExpand.prod_lex Nat.lt_wfRel.wf
  refine Subrelation.wf ?_ (InvImage.wf (fun net : QubitNetwork User =>
    (programs net.sessions, net.errands)) less)
  intro after net goes
  rcases goes.smaller with advanced | ⟨same, fewer⟩
  · exact Prod.Lex.left _ _ advanced
  · simp only [InvImage, same]
    exact Prod.Lex.right _ fewer

/-- A half that is on the way to an end of a running session can be taken. -/
theorem Sound.take (sound : Sound net) (running : net.sessions[position]? = some session)
    {side : Side} {rest : Unit → Program Unit} (acts : session.code side = .await side rest)
    {pair : Pair} (there : (net.view position session.user).received side = [pair]) :
    ∃ after, GoesOn net after := by
  rw [sound.received_own running (busy_of_acts acts (by simp [Ended]))] at there
  exact ⟨_, .receiveEPR net position session side pair [] rest running acts there⟩

/-- A message that is on the way to an end of a running session can be stored or taken. -/
theorem Sound.listen (running : net.sessions[position]? = some session) {side : Side}
    {rest : Message → Program Unit} (acts : session.code side = .receive rest) {message : Message}
    (there : (net.view position session.user).messages side = [message]) :
    ∃ after, GoesOn net after := by
  cases queued : net.queue (session.user side) (session.user side.other) with
  | cons envelope others =>
    exact ⟨_, ._wait_for_control_message net position session side envelope others rest running
      acts queued⟩
  | nil =>
    have present : message ∈ (net.view position session.user).messages side := by simp [there]
    obtain ⟨envelope, member, -⟩ := List.mem_map.mp present
    rw [queued, List.nil_append] at member
    obtain ⟨travels, mark⟩ := List.mem_filter.mp member
    obtain ⟨rfl, -⟩ : envelope.session = position ∧ envelope.side = side := by simpa using mark
    obtain ⟨before, after, pending⟩ := List.append_of_mem travels
    exact ⟨_, ._store_control_message net before after envelope session pending running⟩

/-- When a session starts only if every earlier one is over or apart from it, none is
stuck: as long as a session is not through and no end of it has given up, an end of it, the
source or a connection can act for it. -/
theorem never_stuck {net : QubitNetwork User} (reached : ReachesApart net) {position : Nat}
    {session : QubitSession User} (running : net.sessions[position]? = some session)
    (well : ¬ Failed session) (unfinished : ¬ Finished session) :
    ∃ after, GoesOn net after := by
  have sound := reached.sound
  cases sound.round running well with
  | between rounds taken clear =>
    rcases rounds.inversion with ⟨leads, follows⟩ | ⟨round, leads, follows⟩
    · refine absurd (fun side => ?_) unfinished
      cases side with
      | lead => exact leads
      | follow => exact follows
    · exact ⟨_, .requestEPR net position session _ running leads⟩
  | during round number lead follow pair possible leads follows requested tookLead tookFollow
      shown =>
    cases lead with
    | asking =>
      exact ⟨_, ._send_control_message net position session .lead _ _ running leads⟩
    | awaiting =>
      cases pair with
      | requested =>
        have listed : Pair.mk position number ∈ net.requests :=
          List.mem_of_mem_filter (show _ ∈ (net.view position session.user).requests by
            simp [shown, Round.view])
        obtain ⟨before, after, pending⟩ := List.append_of_mem listed
        exact ⟨_, .createEPR net before after _ session pending running⟩
      | halved => exact sound.take running leads (by rw [shown]; rfl)
      | shared => exact sound.take running leads (by rw [shown]; rfl)
    | listening =>
      cases follow with
      | answering =>
        exact ⟨_, ._send_control_message net position session .follow _ _ running follows⟩
      | finished => exact Sound.listen running leads (by rw [shown]; rfl)
      | listening => exact Sound.listen running follows (by rw [shown]; rfl)
      | awaiting =>
        cases pair with
        | requested => exact absurd rfl (possible.lead_took (by decide))
        | halved =>
          have listed : Pair.mk position number ∈ net.halved :=
            List.mem_of_mem_filter (show _ ∈ (net.view position session.user).halved by
              simp [shown, Round.view])
          obtain ⟨before, after, pending⟩ := List.append_of_mem listed
          exact ⟨_, .sendQubit net before after _ session pending running⟩
        | shared => exact sound.take running follows (by rw [shown]; rfl)

theorem ReachesApart.goes {net after : QubitNetwork User} (reached : ReachesApart net)
    (run : Relation.ReflTransGen Goes net after) : ReachesApart after := by
  induction run with
  | refl => exact reached
  | tail _ goes inductionHypothesis =>
    rcases goes with step | step
    · exact inductionHypothesis.tail step (step.length (by decide))
    · exact inductionHypothesis.tail step (step.length (by decide))

/-- Where sessions only go on, they stay between the same users, and none of them fails. -/
theorem ReachesApart.unfailed {net after : QubitNetwork User} (reached : ReachesApart net)
    (run : Relation.ReflTransGen GoesOn net after) :
    after.sessions.map (·.user) = net.sessions.map (·.user) ∧
      ∀ (place : Nat) (now : QubitSession User), after.sessions[place]? = some now → Failed now →
        ∃ before, net.sessions[place]? = some before ∧ Failed before := by
  induction run with
  | refl => exact ⟨rfl, fun place now found failed => ⟨now, found, failed⟩⟩
  | tail earlier step inductionHypothesis =>
    obtain ⟨users, failing⟩ := inductionHypothesis
    refine ⟨(step.users (by decide)).trans users, fun place now found failed => ?_⟩
    have still := (reached.goes (goes_of_goesOn earlier)).sound
    obtain ⟨before, there, had⟩ := still.failed_before step found failed
    exact failing place before there had

/-- When a session starts only if every earlier one is over or apart from it, and no more
sessions start, every run comes to an end, whoever gives up and when. Where no session can go
on, each session of which no end has given up is through, both its ends have taken all its
pairs, and nothing of it is left; if no end has given up at all, nothing is left.

Proof: every step makes one program shorter or moves something that is on its way, and programs
are finite, so no run goes on for ever. An end that cannot go on waits for something that is
missing, and the invariant of the pairing says that nothing is. -/
theorem distributions_end {net : QubitNetwork User} (reached : ReachesApart net) :
    (¬ ∃ run : Nat → QubitNetwork User, run 0 = net ∧ ∀ n, Goes (run n) (run (n + 1))) ∧
    ∀ after, Relation.ReflTransGen Goes net after → (∀ next, ¬ GoesOn after next) →
      (∀ (position : Nat) (session : QubitSession User), after.sessions[position]? = some session →
        ¬ Failed session → Finished session ∧ Over after position session ∧
          ∀ side, session.taken side = pairs position session.requested) ∧
      ((∀ session ∈ after.sessions, ¬ Failed session) → Clear after) := by
  constructor
  · rintro ⟨run, -, goes⟩
    have finite : IsWellFounded (QubitNetwork User) fun after net => Goes net after :=
      ⟨goes_terminates⟩
    obtain ⟨n, stops⟩ := WellFounded.not_rel_apply_succ (r := fun after net => Goes net after) run
    exact stops (goes n)
  · intro after run stopped
    have still := reached.goes run
    have finished {position : Nat} {session : QubitSession User}
        (running : after.sessions[position]? = some session) (well : ¬ Failed session) :
        Finished session := by
      by_contra unfinished
      obtain ⟨next, step⟩ := never_stuck still running well unfinished
      exact stopped next step
    constructor
    · intro position session running well
      have through := finished running well
      obtain ⟨clear, taken⟩ := (still.sound.round running well).of_finished through
      exact ⟨through, ⟨fun side => Or.inl (through side), clear⟩, taken⟩
    · intro well
      refine still.sound.clear fun session member => ?_
      obtain ⟨position, running⟩ := List.mem_iff_getElem?.mp member
      exact finished running (well session member)

/-- Every run in which no end gives up can be continued to its end. -/
theorem reaches_end (net : QubitNetwork User) :
    ∃ after, Relation.ReflTransGen GoesOn net after ∧
      ∀ next, ¬ GoesOn after next := by
  refine goes_terminates.induction (C := fun net => ∃ after,
    Relation.ReflTransGen GoesOn net after ∧
      ∀ next, ¬ GoesOn after next) net fun net inductionHypothesis => ?_
  by_cases stopped : ∃ next, GoesOn net next
  · obtain ⟨next, step⟩ := stopped
    obtain ⟨after, run, ended⟩ := inductionHypothesis next (Or.inl step)
    exact ⟨after, .head step run, ended⟩
  · exact ⟨net, .refl, fun next step => stopped ⟨next, step⟩⟩

/-- The leader of a session gives up, and a session of a hundred rounds beside it, of two
other users, comes to its end. -/
theorem distributions_end_beside : ∃ (net : QubitNetwork Nat) (session : QubitSession Nat),
    net.sessions.map (·.user) = [Side.select 0 1, Side.select 2 3] ∧
      net.sessions[1]? = some session ∧ Finished session ∧ Over net 1 session ∧
      ∀ side, session.taken side = pairs 1 session.requested := by
  let users : Side → Nat := Side.select 0 1
  let others : Side → Nat := Side.select 2 3
  obtain ⟨afterReply, -, leads, -⟩ := distribution_leads users
  have started : ReachesApart { (initial : QubitNetwork Nat) with sessions := [fresh users] } := by
    refine Relation.ReflTransGen.refl.tail ⟨⟨_, .start initial users (distribution users) (by decide)
      (distribution_distributions users)⟩, ?_⟩
    intro session new position other found
    cases found
  have both := Relation.ReflTransGen.tail started ⟨⟨_, .start _ others (distribution others)
    (by decide) (distribution_distributions others)⟩, by
      intro session new position other found busy
      cases position with
      | succ position => cases found
      | zero =>
        obtain rfl := Option.some.inj found
        obtain rfl := List.singleton_inj.mp (List.append_cancel_left new)
        exact ⟨fun side => by cases side <;> decide, fun crossed => absurd (crossed .lead) (by decide)⟩⟩
  let failed : QubitSession Nat := { fresh users with
    code := update (fresh users).code .lead (.raised (.Exception "Connection refused")) }
  let start : QubitNetwork Nat := { (initial : QubitNetwork Nat) with
    sessions := [failed, fresh others] }
  have alone : ReachesApart start := ReachesApart.tail both
    (.giveUp _ 0 (fresh users) .lead (.Exception "Connection refused") rfl
      (by simp [Ended, fresh, leads])) rfl
  obtain ⟨net, run, stopped⟩ := reaches_end start
  obtain ⟨same, failing⟩ := alone.unfailed run
  obtain ⟨session, found⟩ : ∃ session, net.sessions[1]? = some session := by
    refine ⟨_, List.getElem?_eq_getElem ?_⟩
    have length := congrArg List.length same
    simp only [List.length_map] at length
    rw [length]
    decide
  refine ⟨net, session, same, found, ?_⟩
  refine ((distributions_end alone).2 net (goes_of_goesOn run) stopped).1 1 session found ?_
  intro raised
  obtain ⟨before, there, side, error, had⟩ := failing 1 session found raised
  obtain rfl := Option.some.inj there
  -- the second session has not begun
  cases side
  · obtain ⟨_, -, other, -⟩ := distribution_leads others
    cases had.symm.trans other
  · obtain ⟨_, other⟩ := distribution_follows others
    cases had.symm.trans other

end QubitNetwork

end QChat
