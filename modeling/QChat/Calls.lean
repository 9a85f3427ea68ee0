import Mathlib.Algebra.BigOperators.Group.Finset.Basic
import Mathlib.Algebra.Order.BigOperators.Group.Finset
import Mathlib.Data.Fintype.Basic
import Mathlib.Order.GameAdd
import QChat.Triple

/-!
# One call on each side

Two processes that are run once, with no loop around them. Every step makes one of
the processes smaller or moves something on its way, so there is no infinite run.
With a two-party triple every run therefore ends, and it ends with the results of
the triple.
-/

namespace QChat

open Function (update)

instance : Fintype Side := ⟨{.lead, .follow}, fun side => by cases side <;> decide⟩

variable {Message Port Item Error α : Type}

/-- A process is what another one may go on with after its first action. Where the action takes
a message or an item this is so for any of them, so the relation branches as the tree does. -/
inductive Process.Continues : Process Message Port Item Error α →
    Process Message Port Item Error α → Prop where
  | send (message : Message) (rest : Process Message Port Item Error α) :
      Continues rest (.send message rest)
  | receive (message : Message) (rest : Message → Process Message Port Item Error α) :
      Continues (rest message) (.receive rest)
  | signal (port : Port) (item : Item) (rest : Process Message Port Item Error α) :
      Continues rest (.signal port item rest)
  | await (port : Port) (item : Item) (rest : Item → Process Message Port Item Error α) :
      Continues (rest item) (.await port rest)

/-- A process has finitely many actions in every order of answers. There is no bound on their
number, as a party may go on differently with each message. -/
theorem Process.continues_wellFounded :
    WellFounded (Process.Continues : Process Message Port Item Error α → _ → Prop) := by
  refine ⟨fun process => ?_⟩
  induction process with
  | done result => exact ⟨_, nofun⟩
  | raised error => exact ⟨_, nofun⟩
  | send message rest inductionHypothesis =>
    refine ⟨_, ?_⟩
    rintro _ ⟨⟩
    exact inductionHypothesis
  | receive rest inductionHypothesis =>
    refine ⟨_, ?_⟩
    rintro _ ⟨⟩
    exact inductionHypothesis _
  | signal port item rest inductionHypothesis =>
    refine ⟨_, ?_⟩
    rintro _ ⟨⟩
    exact inductionHypothesis
  | await port rest inductionHypothesis =>
    refine ⟨_, ?_⟩
    rintro _ ⟨⟩
    exact inductionHypothesis _

namespace Duet

/-- Nothing is run again after a result. -/
def single : Side → α → Option (Process Message Port Item Error α) := fun _ _ => none

variable [Fintype Port]

/-- How many messages and items have not arrived: those that travel to either party and those
that are shipped. -/
def underway (state : Duet Message Port Item Error α) : Nat :=
  ∑ side, (state.travelling side).length + ∑ port, (state.shipping port).length

variable [DecidableEq Port]

/-- Taking one away from one of several lists makes their total smaller. -/
theorem sum_update_lt {Place Content : Type} [Fintype Place] [DecidableEq Place]
    (lists : Place → List Content) (place : Place) {fewer : List Content}
    (less : fewer.length < (lists place).length) :
    ∑ here, (update lists place fewer here).length < ∑ here, (lists here).length := by
  refine Finset.sum_lt_sum (fun here _ => ?_) ⟨place, Finset.mem_univ place, ?_⟩
  · by_cases same : here = place
    · subst same
      rw [Function.update_self]
      exact less.le
    · rw [Function.update_of_ne same]
  · rwa [Function.update_self]

/-- A step advances one of the processes, or only brings something nearer. In the second case
the processes stay as they are. -/
theorem step_smaller {state next : Duet Message Port Item Error α}
    (moves : Step single state next) :
    (∃ side process, Process.Continues process (state.code side) ∧
      next.code = update state.code side process) ∨
    next.code = state.code ∧ next.underway < state.underway := by
  cases moves with
  | send side message rest acts =>
    exact Or.inl ⟨side, rest, by rw [acts]; exact .send message rest, rfl⟩
  | receive side message others rest acts ready =>
    exact Or.inl ⟨side, rest message, by rw [acts]; exact .receive message rest, rfl⟩
  | signal side port item rest acts =>
    exact Or.inl ⟨side, rest, by rw [acts]; exact .signal port item rest, rfl⟩
  | await side port item others rest acts ready =>
    exact Or.inl ⟨side, rest item, by rw [acts]; exact .await port item rest, rfl⟩
  | deliver side before after message pending =>
    have less : (before ++ after).length < (state.travelling side).length := by
      rw [pending, List.length_append, List.length_append, List.length_cons]
      omega
    exact Or.inr ⟨rfl, Nat.add_lt_add_right (sum_update_lt state.travelling side less) _⟩
  | arrive port item others pending =>
    have less : others.length < (state.shipping port).length := by
      rw [pending]
      exact Nat.lt_succ_self _
    exact Or.inr ⟨rfl, Nat.add_lt_add_left (sum_update_lt state.shipping port less) _⟩
  | enter side head body returned again => cases again

/-- What is left of a state: the two processes, then what is underway. -/
def remaining (state : Duet Message Port Item Error α) :
    (Process Message Port Item Error α × Process Message Port Item Error α) × Nat :=
  ((state.code .lead, state.code .follow), state.underway)

/-- No run of two single calls is infinite, as every step makes less of what remains. -/
theorem single_terminates : WellFounded
    (fun next state : Duet Message Port Item Error α => Step single state next) := by
  have processes : WellFounded
      (Process.Continues : Process Message Port Item Error α → _ → Prop) :=
    Process.continues_wellFounded
  have less := (processes.prod_gameAdd processes).prod_lex Nat.lt_wfRel.wf
  refine Subrelation.wf ?_ (InvImage.wf remaining less)
  intro next state moves
  rcases step_smaller moves with ⟨side, process, continues, code⟩ | ⟨code, fewer⟩
  · simp only [InvImage, remaining, code]
    refine Prod.Lex.left _ _ ?_
    cases side with
    | lead => exact .fst continues
    | follow => exact .snd continues
  · simp only [InvImage, remaining, code]
    exact Prod.Lex.right _ fewer

/-- The calls on both sides return, with results that `post` relates: no run is infinite,
none stops before both have returned, no party raises, and what a party returns is part
of such results. -/
structure BothReturn (code : Side → Process Message Port Item Error α)
    (post : (Side → α) → Prop) : Prop where
  terminates : WellFounded
    (fun next state : Duet Message Port Item Error α => Step single state next)
  raises : ∀ state, Reaches single (start code) state → ∀ side error,
    state.code side ≠ .raised error
  returns : ∀ state, Reaches single (start code) state → (∀ next, ¬ Step single state next) →
    ∃ results, post results ∧ ∀ side, state.code side = .done (results side)
  result : ∀ state, Reaches single (start code) state → ∀ side result,
    state.code side = .done result → ∃ results, post results ∧ results side = result

omit [Fintype Port] in
/-- Two descriptions of the results of calls that return hold of the same results. -/
theorem BothReturn.meet {code : Side → Process Message Port Item Error α}
    {one two : (Side → α) → Prop} (first : BothReturn code one) (second : BothReturn code two) :
    ∃ results, one results ∧ two results := by
  -- some run ends, since none is infinite
  have ended : ∀ state : Duet Message Port Item Error α, Reaches single (start code) state →
      ∃ last, Reaches single (start code) last ∧ ∀ next, ¬ Step single last next := by
    intro state
    induction state using first.terminates.induction with
    | _ state inductionHypothesis =>
      intro reached
      by_cases stuck : ∀ next, ¬ Step single state next
      · exact ⟨state, reached, stuck⟩
      · obtain ⟨next, moves⟩ := not_forall_not.mp stuck
        exact inductionHypothesis next moves (reached.tail moves)
  obtain ⟨last, reached, stuck⟩ := ended _ Relation.ReflTransGen.refl
  obtain ⟨results, holds, returned⟩ := first.returns last reached stuck
  obtain ⟨others, also, alike⟩ := second.returns last reached stuck
  have same : results = others :=
    funext fun side => Process.done.inj ((returned side).symm.trans (alike side))
  exact ⟨results, holds, same ▸ also⟩

end Duet

/-- After two single calls nothing starts again. -/
theorem Lockstep.opens_single (post : (Side → α) → Prop) :
    Lockstep.Opens (Duet.single : Side → α → Option (Process Message Port Item Error α))
      (fun _ results => post results) := by
  intro heads results holds
  constructor
  · intro head entered body again
    cases again
  · intro head entered body again
    cases again

variable [DecidableEq Port] {wiring : Wiring Port}

/-- Two processes in lockstep that have both returned have returned an accepted result. -/
theorem Lockstep.final_results
    {enter : Side → α → Option (Process Message Port Item Error α)}
    {final : (Side → List α) → (Side → α) → Prop} {talk : Talk Message}
    {stock : Port → List Item} {heads : Side → List α}
    {code : Side → Process Message Port Item Error α} {results : Side → α}
    (runs : Lockstep wiring enter final talk stock heads code)
    (ended : ∀ side, code side = .done (results side))
    (stops : ∀ side, enter side (results side) = none) : final heads results := by
  cases runs with
  | done found returned empty holds =>
    have same : found = results := by
      funext side
      exact Process.done.inj ((returned side).symm.trans (ended side))
    exact same ▸ holds
  | send side message rest acts next => cases acts.symm.trans (ended side)
  | receive side message rest acts next => cases acts.symm.trans (ended side)
  | signal side port item rest writes acts next => cases acts.symm.trans (ended side)
  | await side port item others rest reads acts ready next => cases acts.symm.trans (ended side)
  | enter side head body returned again next =>
    obtain rfl := Process.done.inj (returned.symm.trans (ended side))
    cases again.symm.trans (stops side)

theorem Lockstep.closed_single (post : (Side → α) → Prop) :
    Lockstep.Closed wiring (Duet.single : Side → α → Option (Process Message Port Item Error α))
      (fun _ results => post results) := by
  intro heads results holds
  left
  intro side
  rfl

/-- Two calls with a two-party triple return in every run: no step is possible only where both
have returned, and no run goes on for ever. -/
theorem Together.bothReturn [Fintype Port] {code : Side → Process Message Port Item Error α}
    {post : (Side → α) → Prop} (runs : Together wiring code post) : Duet.BothReturn code post := by
  have inStep {state : Duet Message Port Item Error α}
      (reached : Duet.Reaches Duet.single (Duet.start code) state) :=
    (Lockstep.start_inStep code runs).run (Lockstep.closed_single post) reached
  refine ⟨Duet.single_terminates, ?_, ?_, ?_⟩
  · intro state reached
    obtain ⟨_, _, _, still⟩ := inStep reached
    exact still.not_raised
  · intro state reached stuck
    rcases (inStep reached).progress (Lockstep.closed_single post) with ended | ⟨next, moves⟩
    · choose results returned using ended
      obtain ⟨_, _, _, still⟩ := inStep reached
      exact ⟨results, still.final_results (fun side => (returned side).1) fun _ => rfl,
        fun side => (returned side).1⟩
    · exact absurd moves (stuck next)
  · intro state reached side result returned
    obtain ⟨_, _, _, still⟩ := inStep reached
    exact still.last_pass (Lockstep.opens_single post) side result returned rfl

/-- Equal messages apart, a message is not delivered past an earlier one. Equal ones cannot be
told apart, so their order is not asked for. -/
abbrev Duet.firstInFirstOut : Message → Message → Prop := fun earlier later => earlier ≠ later

/-- An element that can be moved to the front of a list equals all before it. -/
theorem eq_of_moved {β : Type} {front : β} {before after : List β}
    (moved : front :: (before ++ after) = before ++ front :: after) :
    ∀ earlier ∈ before, earlier = front := by
  induction before with
  | nil =>
    intro earlier member
    cases member
  | cons head before inductionHypothesis =>
    rw [List.cons_append, List.cons_append, List.cons.injEq] at moved
    obtain ⟨rfl, moved⟩ := moved
    intro earlier member
    rcases List.mem_cons.mp member with rfl | inside
    · rfl
    · exact inductionHypothesis moved earlier inside

/-- Where a step is possible, one that keeps the order of the messages is. -/
theorem Duet.ordered_step {enter : Side → α → Option (Process Message Port Item Error α)}
    {state next : Duet Message Port Item Error α} (moves : Step enter state next) :
    ∃ after, Step enter state after ∧ Ordered firstInFirstOut state after := by
  have undelivered {after : Duet Message Port Item Error α}
      (fewer : ∀ side, (after.queue side).length ≤ (state.queue side).length) :
      Ordered firstInFirstOut state after := by
    intro side before message rest _ _ queued
    have longer := fewer side
    rw [queued, List.length_append, List.length_singleton] at longer
    omega
  cases moves with
  | send side message rest acts =>
    exact ⟨_, .send state side message rest acts, undelivered fun _ => le_rfl⟩
  | receive side message others rest acts ready =>
    refine ⟨_, .receive state side message others rest acts ready, undelivered fun party => ?_⟩
    by_cases same : party = side
    · subst same
      simp [ready]
    · simp [same]
  | signal side port item rest acts =>
    exact ⟨_, .signal state side port item rest acts, undelivered fun _ => le_rfl⟩
  | arrive port item others pending =>
    exact ⟨_, .arrive state port item others pending, undelivered fun _ => le_rfl⟩
  | await side port item others rest acts ready =>
    exact ⟨_, .await state side port item others rest acts ready, undelivered fun _ => le_rfl⟩
  | enter side head body returned again =>
    exact ⟨_, .enter state side head body returned again, undelivered fun _ => le_rfl⟩
  | deliver side before after message pending =>
    obtain ⟨first, rest, travels⟩ : ∃ first rest, state.travelling side = first :: rest := by
      cases before with
      | nil => exact ⟨message, after, pending⟩
      | cons first before => exact ⟨first, before ++ message :: after, pending⟩
    refine ⟨_, .deliver state side [] rest first travels, ?_⟩
    intro party earlier delivered later whole left queued
    by_cases same : party = side
    · subst same
      simp only [Function.update_self, List.nil_append, List.append_cancel_left_eq,
        List.cons.injEq, and_true] at left queued
      subst left queued
      intro passed member differs
      exact differs (eq_of_moved (travels.symm.trans whole) passed member)
    · have lengths := congrArg List.length queued
      simp [same] at lengths

/-- The calls on both sides end when messages are delivered in order, both with results
that `post` relates or both with errors that `fails` relates. -/
structure Duet.BothEnd (code : Side → Process Message Port Item Error α)
    (post : (Side → α) → Prop) (fails : (Side → Error) → Prop) : Prop where
  terminates : WellFounded
    (fun next state : Duet Message Port Item Error α => Step single state next)
  ends : ∀ state, ReachesInOrder firstInFirstOut single (start code) state →
    (∀ next, Step single state next → ¬ Ordered firstInFirstOut state next) →
    (∃ results, post results ∧ ∀ side, state.code side = .done (results side)) ∨
      ∃ errors, fails errors ∧ ∀ side, state.code side = .raised (errors side)
  raises : ∀ state, ReachesInOrder firstInFirstOut single (start code) state → ∀ side error,
    state.code side = .raised error → ∃ errors, fails errors ∧ errors side = error
  result : ∀ state, ReachesInOrder firstInFirstOut single (start code) state → ∀ side result,
    state.code side = .done result → ∃ results, post results ∧ results side = result

/-- Weaker conditions on the results and errors. -/
theorem Duet.BothEnd.weaken {code : Side → Process Message Port Item Error α}
    {strong weak : (Side → α) → Prop} {few many : (Side → Error) → Prop}
    (ends : BothEnd code strong few) (implies : ∀ results, strong results → weak results)
    (expected : ∀ errors, few errors → many errors) : BothEnd code weak many := by
  refine ⟨ends.terminates, ?_, ?_, ?_⟩
  · intro state reached stuck
    rcases ends.ends state reached stuck with ⟨results, holds, returned⟩ | ⟨errors, known, failed⟩
    · exact Or.inl ⟨results, implies results holds, returned⟩
    · exact Or.inr ⟨errors, expected errors known, failed⟩
  · intro state reached side error failed
    obtain ⟨errors, known, same⟩ := ends.raises state reached side error failed
    exact ⟨errors, expected errors known, same⟩
  · intro state reached side result returned
    obtain ⟨results, holds, same⟩ := ends.result state reached side result returned
    exact ⟨results, implies results holds, same⟩

/-- Two calls that end can be run to where no message can be delivered in order. -/
theorem Duet.BothEnd.reaches_end {code : Side → Process Message Port Item Error α}
    {post : (Side → α) → Prop} {fails : (Side → Error) → Prop} (ends : BothEnd code post fails) :
    ∃ state, ReachesInOrder firstInFirstOut single (start code) state ∧
      ∀ next, Step single state next → ¬ Ordered firstInFirstOut state next := by
  have further (state : Duet Message Port Item Error α) :
      ReachesInOrder firstInFirstOut single (start code) state →
      ∃ last, ReachesInOrder firstInFirstOut single (start code) last ∧
        ∀ next, Step single last next → ¬ Ordered firstInFirstOut last next := by
    induction state using ends.terminates.induction with
    | _ state inductionHypothesis =>
      intro reached
      by_cases stuck : ∀ next, Step single state next → ¬ Ordered firstInFirstOut state next
      · exact ⟨state, reached, stuck⟩
      · push Not at stuck
        obtain ⟨next, moves, ordered⟩ := stuck
        exact inductionHypothesis next moves (reached.tail ⟨moves, ordered⟩)
  exact further _ .refl

section Scheduled

variable {terms : Terms Message Port Item Error} {ready : Side → Port → Item → Prop}
variable {returns : α → Prop} {post : (Side → α) → Prop} {pending : Side → List Message}
variable {stock : Port → List Item} {heads : Side → List α}
variable {code : Side → Process Message Port Item Error α}

/-- Two calls on schedule that have both ended have ended as the schedule does. -/
theorem Scheduled.ended_once
    (runs : Scheduled terms (Loop.once ready returns post) pending stock heads code)
    (ended : ∀ side, (∃ result, code side = .done result) ∨ ∃ error, code side = .raised error) :
    (∃ results, post results ∧ ∀ side, code side = .done (results side)) ∨
      ∃ errors, terms.fails errors ∧ ∀ side, code side = .raised (errors side) := by
  have idle (side : Side) (process : Process Message Port Item Error α)
      (acts : code side = process) (active : ∀ result, process ≠ .done result)
      (sound : ∀ error, process ≠ .raised error) : False := by
    rcases ended side with ⟨result, returned⟩ | ⟨error, failed⟩
    · exact active result (acts.symm.trans returned)
    · exact sound error (acts.symm.trans failed)
  cases runs with
  | done results returned quiet empty holds => exact Or.inl ⟨results, holds, returned⟩
  | raised errors failed quiet expected => exact Or.inr ⟨errors, expected, failed⟩
  | send side message rest acts next => exact (idle side _ acts nofun nofun).elim
  | receive side message others rest acts present alone settled calm next =>
    exact (idle side _ acts nofun nofun).elim
  | signal side port item rest writes acts waits next => exact (idle side _ acts nofun nofun).elim
  | await side port item others rest reads acts present suits next =>
    exact (idle side _ acts nofun nofun).elim
  | enter side head body returned again next => cases again

/-- What a call on schedule has returned is part of the results of the schedule. -/
theorem Scheduled.returned_once
    (runs : Scheduled terms (Loop.once ready returns post) pending stock heads code) (side : Side)
    (result : α) (returned : code side = .done result) :
    ∃ results, post results ∧ results side = result := by
  induction runs with
  | done results ended quiet empty holds =>
    exact ⟨results, holds, Process.done.inj ((ended side).symm.trans returned)⟩
  | raised errors failed quiet expected => cases (failed side).symm.trans returned
  | send sender sent continued sends next inductionHypothesis =>
    have distinct : side ≠ sender := Side.apart returned sends (by simp)
    exact inductionHypothesis (by simp [distinct, returned])
  | receive receiver received left continued takes here alone settled calm next
      inductionHypothesis =>
    have distinct : side ≠ receiver := Side.apart returned takes (by simp)
    exact inductionHypothesis (by simp [distinct, returned])
  | signal putter port item continued writes puts waits next inductionHypothesis =>
    have distinct : side ≠ putter := Side.apart returned puts (by simp)
    exact inductionHypothesis (by simp [distinct, returned])
  | await taker port item others continued reads takes present suits next inductionHypothesis =>
    have distinct : side ≠ taker := Side.apart returned takes (by simp)
    exact inductionHypothesis (by simp [distinct, returned])
  | enter enterer head body ended again next inductionHypothesis => cases again

/-- Two calls with a triple end in every run that delivers messages in order. -/
theorem Triple.bothEnd [Fintype Port] (inOrder : terms.blocks = Duet.firstInFirstOut)
    (runs : Triple terms ready returns code post) : Duet.BothEnd code post terms.fails := by
  have closed : Scheduled.Closed terms (Loop.once ready returns post) := by
    intro heads results holds
    left
    intro side
    rfl
  have onSchedule {state : Duet Message Port Item Error α}
      (reached : Duet.ReachesInOrder Duet.firstInFirstOut Duet.single (Duet.start code) state) :
      Scheduled.OnSchedule terms (Loop.once ready returns post) state :=
    (Scheduled.start_onSchedule code runs).run closed (inOrder ▸ reached)
  refine ⟨Duet.single_terminates, ?_, ?_, ?_⟩
  · intro state reached stuck
    rcases (onSchedule reached).progress closed with ended | ⟨next, moves⟩
    · obtain ⟨_, _, _, still⟩ := onSchedule reached
      refine still.ended_once fun side => ?_
      rcases ended side with ⟨result, returned⟩ | failed
      · exact Or.inl ⟨result, returned.1⟩
      · exact Or.inr failed
    · obtain ⟨after, possible, ordered⟩ := Duet.ordered_step moves
      exact absurd ordered (stuck after possible)
  · intro state reached side error failed
    obtain ⟨_, _, _, still⟩ := onSchedule reached
    exact still.raised_fails side error failed
  · intro state reached side result returned
    obtain ⟨_, _, _, still⟩ := onSchedule reached
    exact still.returned_once side result returned

end Scheduled

end QChat
