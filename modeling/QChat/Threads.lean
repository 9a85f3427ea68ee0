import Mathlib.Logic.Function.Basic
import Mathlib.Logic.Relation

/-!
# Threads with a lock

Any number of threads share a state and one lock. The place of a thread says what it
does next: it stops, it looks at the state without the lock, or it enters a critical
section. In a critical section it reads the state any number of times and then changes
it in one access. Between two accesses of a thread, inside a section or outside, the
other threads may act.

A section whose only change is its last access is atomic: every state of an interleaved
run is one of a run in which each section is a single step.
-/

namespace QChat

open Function (update)

/-- The accesses of a critical section. The last one gives the place where the thread goes on.
Between two of them other threads may act, but none that needs the lock. -/
inductive Section (State Place : Type) where
  | read (rest : State → Section State Place)
  | update (change : State → State) (next : State → Place)

/-- What a thread does next: it stops, looks at the state without the lock, or goes into a
critical section. -/
inductive Action (State Place : Type) where
  | stop
  | peek (next : State → Place)
  | guarded (body : Section State Place)

/-- The shared state, the places of the threads, and the thread that has the lock with
what is left of its section. With nothing left it only gives the lock back. -/
structure Threads (Thread State Place : Type) where
  state : State
  place : Thread → Place
  holder : Option (Thread × Option (Section State Place))

variable {Thread State Place : Type}

/-- What a section does when it is not interrupted. -/
def Section.run : Section State Place → State → State × Place
  | .read rest, state => (rest state).run state
  | .update change next, state => (change state, next state)

@[simp] theorem Section.run_read (rest : State → Section State Place) (state : State) :
    (Section.read rest).run state = (rest state).run state := rfl

@[simp] theorem Section.run_update (change : State → State) (next : State → Place)
    (state : State) : (Section.update change next).run state = (change state, next state) := rfl

namespace Threads

variable [DecidableEq Thread] (program : Place → Action State Place)

/-- One access of one thread, or one use of the lock. A thread that is not in a section may act
while another one is. -/
inductive Step : Threads Thread State Place → Threads Thread State Place → Prop where
  | peek (threads : Threads Thread State Place) (thread : Thread) (next : State → Place)
      (acts : program (threads.place thread) = .peek next)
      (outside : ∀ left, threads.holder ≠ some (thread, left)) :
      Step threads { threads with
        place := update threads.place thread (next threads.state) }
  | acquire (threads : Threads Thread State Place) (thread : Thread)
      (body : Section State Place) (acts : program (threads.place thread) = .guarded body)
      (unlocked : threads.holder = none) :
      Step threads { threads with holder := some (thread, some body) }
  | read (threads : Threads Thread State Place) (thread : Thread)
      (rest : State → Section State Place)
      (inside : threads.holder = some (thread, some (.read rest))) :
      Step threads { threads with holder := some (thread, some (rest threads.state)) }
  | update (threads : Threads Thread State Place) (thread : Thread) (change : State → State)
      (next : State → Place)
      (inside : threads.holder = some (thread, some (.update change next))) :
      Step threads {
        state := change threads.state
        place := update threads.place thread (next threads.state)
        holder := some (thread, none) }
  | release (threads : Threads Thread State Place) (thread : Thread)
      (inside : threads.holder = some (thread, none)) :
      Step threads { threads with holder := none }

/-- The threads at their first places, with nobody in a section. -/
def start (state : State) (place : Thread → Place) : Threads Thread State Place :=
  ⟨state, place, none⟩

abbrev Reaches (before after : Threads Thread State Place) : Prop :=
  Relation.ReflTransGen (Step program) before after

/-- A step in which a section is not interrupted: it is run as a whole, from the state it
finds. -/
inductive Atomic : State × (Thread → Place) → State × (Thread → Place) → Prop where
  | peek (state : State) (place : Thread → Place) (thread : Thread) (next : State → Place)
      (acts : program (place thread) = .peek next) :
      Atomic (state, place) (state, update place thread (next state))
  | guarded (state : State) (place : Thread → Place) (thread : Thread)
      (body : Section State Place) (acts : program (place thread) = .guarded body) :
      Atomic (state, place) ((body.run state).1, update place thread (body.run state).2)

/-- What is left of a section leads where the whole section leads from here. -/
def Undisturbed (threads : Threads Thread State Place) : Prop :=
  ∀ thread left, threads.holder = some (thread, some left) →
    ∃ body, program (threads.place thread) = .guarded body ∧
      left.run threads.state = body.run threads.state

variable {program}

/-- Until its last access a section is not disturbed, and this access is the atomic step. -/
theorem Undisturbed.step {before after : Threads Thread State Place}
    (undisturbed : Undisturbed program before) (step : Step program before after) :
    Undisturbed program after ∧
      Relation.ReflTransGen (Atomic program) (before.state, before.place)
        (after.state, after.place) := by
  cases step with
  | peek thread next acts outside =>
    refine ⟨?_, .single (.peek _ _ thread next acts)⟩
    intro other left inside
    have apart : other ≠ thread := by
      rintro rfl
      exact outside _ inside
    simpa [apart] using undisturbed other left inside
  | acquire thread body acts unlocked =>
    refine ⟨?_, .refl⟩
    intro other left inside
    obtain ⟨rfl, rfl⟩ : thread = other ∧ body = left := by simpa using inside
    exact ⟨body, acts, rfl⟩
  | read thread rest inside =>
    refine ⟨?_, .refl⟩
    intro other left holds
    obtain ⟨rfl, rfl⟩ : thread = other ∧ rest before.state = left := by simpa using holds
    obtain ⟨body, acts, same⟩ := undisturbed thread _ inside
    exact ⟨body, acts, same⟩
  | update thread change next inside =>
    obtain ⟨body, acts, same⟩ := undisturbed thread _ inside
    constructor
    · intro other left holds
      simp at holds
    · have whole := Atomic.guarded before.state before.place thread body acts
      rw [← same] at whole
      exact .single whole
  | release thread inside =>
    refine ⟨?_, .refl⟩
    intro other left holds
    cases holds

/-- Every state that an interleaved run reaches is reached with uninterrupted sections. -/
theorem Reaches.atomic {state : State} {place : Thread → Place}
    {threads : Threads Thread State Place} (reached : Reaches program (start state place) threads) :
    Relation.ReflTransGen (Atomic program) (state, place) (threads.state, threads.place) := by
  suffices both : Undisturbed program threads ∧
      Relation.ReflTransGen (Atomic program) (state, place) (threads.state, threads.place) from
    both.2
  induction reached with
  | refl =>
    refine ⟨?_, .refl⟩
    intro thread left inside
    cases inside
  | tail earlier step inductionHypothesis =>
    obtain ⟨undisturbed, sooner⟩ := inductionHypothesis
    obtain ⟨after, last⟩ := undisturbed.step step
    exact ⟨after, sooner.trans last⟩

/-- What uninterrupted steps keep holds in every interleaved run. -/
theorem Reaches.invariant {state : State} {place : Thread → Place}
    {threads : Threads Thread State Place}
    (reached : Reaches program (start state place) threads)
    (holds : State → (Thread → Place) → Prop) (initially : holds state place)
    (kept : ∀ before after, holds before.1 before.2 → Atomic program before after →
      holds after.1 after.2) : holds threads.state threads.place := by
  have atomic := reached.atomic
  generalize goal : (threads.state, threads.place) = ended at atomic
  suffices last : holds ended.1 ended.2 by
    rw [← goal] at last
    exact last
  clear goal
  induction atomic with
  | refl => exact initially
  | tail _ step inductionHypothesis => exact kept _ _ inductionHypothesis step

/-- A section that is left alone comes to its end. -/
theorem Reaches.finish {before : Threads Thread State Place} {thread : Thread}
    {left : Section State Place} (inside : before.holder = some (thread, some left)) :
    Reaches program before {
      state := (left.run before.state).1
      place := update before.place thread (left.run before.state).2
      holder := none } := by
  induction left generalizing before with
  | read rest inductionHypothesis =>
    exact Relation.ReflTransGen.head (.read before thread rest inside)
      (inductionHypothesis before.state rfl)
  | update change next =>
    exact (Relation.ReflTransGen.single (.update before thread change next inside)).tail
      (.release _ thread rfl)

/-- Every run with uninterrupted sections is an interleaved one. -/
theorem Reaches.of_atomic {first last : State × (Thread → Place)}
    (atomic : Relation.ReflTransGen (Atomic program) first last) :
    Reaches program (start first.1 first.2) (start last.1 last.2) := by
  induction atomic with
  | refl => exact .refl
  | tail _ step inductionHypothesis =>
    refine inductionHypothesis.trans ?_
    cases step with
    | peek state place thread next acts =>
      refine .single (.peek (start state place) thread next acts ?_)
      intro left inside
      cases inside
    | guarded state place thread body acts =>
      exact Relation.ReflTransGen.head (.acquire (start state place) thread body acts rfl)
        (Reaches.finish rfl)

end Threads

end QChat
