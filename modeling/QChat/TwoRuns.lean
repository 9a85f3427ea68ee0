import Mathlib.Data.List.Forall2
import QChat.Dict
import QChat.Methods
import QChat.Runs

/-!
# Two runs at a time

Two dictionaries that differ only in some of their values, methods that return the same
from states that are alike, and runs that are matched step by step. What is shown here
for one step or one part of a method is lifted to whole methods and whole runs.
-/

namespace QChat

namespace Dict

section Alike

variable {κ ν : Type} {related : κ → ν → ν → Prop}

/-- The same keys in the same order, with related values. The relation may depend on the key, so
that single entries can be left out of the comparison. -/
def AlikeEntries (related : κ → ν → ν → Prop) : List (κ × ν) → List (κ × ν) → Prop :=
  List.Forall₂ fun entry other => entry.1 = other.1 ∧ related entry.1 entry.2 other.2

/-- Dictionaries with the same keys, in the same order, and related values. -/
def Alike (related : κ → ν → ν → Prop) (one two : Dict κ ν) : Prop :=
  AlikeEntries related one.entries two.entries

/-- Where every value is related to itself, so is every dictionary. -/
theorem Alike.refl (reflexive : ∀ key value, related key value value) (dict : Dict κ ν) :
    dict.Alike related dict :=
  List.forall₂_same.mpr fun entry _ => ⟨rfl, reflexive entry.1 entry.2⟩

/-- Dictionaries that are alike list the same keys. -/
theorem Alike.keys {one two : Dict κ ν} (alike : one.Alike related two) : one.keys = two.keys := by
  obtain ⟨entries, _⟩ := one
  obtain ⟨others, _⟩ := two
  change entries.map Prod.fst = others.map Prod.fst
  change AlikeEntries related entries others at alike
  clear * - alike
  induction alike with
  | nil => rfl
  | cons head _ inductionHypothesis => rw [List.map_cons, List.map_cons, head.1, inductionHypothesis]

variable [DecidableEq κ]

/-- What is found under a key is related, or missing in both lists. -/
theorem AlikeEntries.lookup {entries others : List (κ × ν)}
    (alike : AlikeEntries related entries others) (key : κ) :
    Option.Rel (related key) (Dict.lookup key entries) (Dict.lookup key others) := by
  induction alike with
  | nil => exact .none
  | @cons entry other _ _ head _ inductionHypothesis =>
    obtain ⟨stored, value⟩ := entry
    obtain ⟨_, found⟩ := other
    obtain ⟨rfl, values⟩ := head
    by_cases same : stored = key
    · subst same
      simpa only [Dict.lookup, ↓reduceIte] using .some values
    · simpa only [Dict.lookup, same, ↓reduceIte] using inductionHypothesis

/-- Assigning related values to a key, where it is or at the end. -/
theorem AlikeEntries.assign {entries others : List (κ × ν)}
    (alike : AlikeEntries related entries others) (key : κ) {value other : ν}
    (values : related key value other) :
    AlikeEntries related (Dict.assign key value entries) (Dict.assign key other others) := by
  induction alike with
  | nil => exact .cons ⟨rfl, values⟩ .nil
  | @cons entry found _ _ head tail inductionHypothesis =>
    obtain ⟨stored, old⟩ := entry
    obtain ⟨_, kept⟩ := found
    obtain ⟨rfl, olds⟩ := head
    by_cases same : stored = key
    · subst same
      simpa only [Dict.assign, ↓reduceIte] using .cons ⟨rfl, values⟩ tail
    · simpa only [Dict.assign, same, ↓reduceIte] using .cons ⟨rfl, olds⟩ inductionHypothesis

/-- A key is in both dictionaries or in neither, and its values are related. -/
theorem Alike.get? {one two : Dict κ ν} (alike : one.Alike related two) (key : κ) :
    (one.get? key = none ∧ two.get? key = none) ∨
      ∃ value other, one.get? key = some value ∧ two.get? key = some other ∧
        related key value other := by
  have entries := AlikeEntries.lookup alike key
  change Option.Rel (related key) (one.get? key) (two.get? key) at entries
  generalize one.get? key = first at entries ⊢
  generalize two.get? key = second at entries ⊢
  cases entries with
  | none => exact .inl ⟨rfl, rfl⟩
  | some values => exact .inr ⟨_, _, rfl, rfl, values⟩

/-- Storing related values under one key keeps dictionaries alike. -/
theorem Alike.set {one two : Dict κ ν} (alike : one.Alike related two) (key : κ) {value other : ν}
    (values : related key value other) :
    (one.set key value).Alike related (two.set key other) :=
  AlikeEntries.assign alike key values

/-- Merging dictionaries that are alike into two that are: the induction is over the entries
merged in, in their order. -/
theorem Alike.update {one two first second : Dict κ ν} (alike : one.Alike related two)
    (changes : first.Alike related second) :
    (one.update first).Alike related (two.update second) := by
  obtain ⟨entries, _⟩ := first
  obtain ⟨others, _⟩ := second
  change (entries.foldl (fun merged entry => merged.set entry.1 entry.2) one).Alike related
    (others.foldl (fun merged entry => merged.set entry.1 entry.2) two)
  change AlikeEntries related entries others at changes
  clear * - alike changes
  induction changes generalizing one two with
  | nil => exact alike
  | @cons entry found _ _ head _ inductionHypothesis =>
    obtain ⟨stored, value⟩ := entry
    obtain ⟨_, other⟩ := found
    obtain ⟨rfl, values⟩ := head
    exact inductionHypothesis (alike.set stored values)

end Alike

end Dict

namespace Method

variable {State Other Error α β : Type} {alike : State → State → Prop}

/-- The method returns the same from states that are alike, and leaves them alike. What the
method cannot see is whatever such states may differ in. -/
def Blind (alike : State → State → Prop) (method : Method State Error α) : Prop :=
  ∀ one two, alike one two →
    (method one).1 = (method two).1 ∧ alike (method one).2 (method two).2

namespace Blind

/-- A computation has no access to the state. -/
theorem compute (value : Except Error α) :
    Blind alike (liftM value : Method State Error α) := fun _ _ same => ⟨rfl, same⟩

/-- Returning a result leaves the states as they are. -/
theorem pure (result : α) : Blind alike (Pure.pure result : Method State Error α) :=
  fun _ _ same => ⟨rfl, same⟩

/-- So does raising an exception. -/
theorem raise (exception : Error) : Blind alike (.raise exception : Method State Error α) :=
  fun _ _ same => ⟨rfl, same⟩

/-- A change of the state that keeps states alike. -/
theorem modify {change : State → State}
    (changes : ∀ one two, alike one two → alike (change one) (change two)) :
    Blind alike (.modify change : Method State Error Unit) :=
  fun one two same => ⟨rfl, changes one two same⟩

/-- Methods are composed: both return, or both raise the same exception and end there. -/
theorem bind {first : Method State Error α} {next : α → Method State Error β}
    (begins : Blind alike first) (goesOn : ∀ result, Blind alike (next result)) :
    Blind alike (first >>= next) := by
  intro one two same
  obtain ⟨results, states⟩ := begins one two same
  rw [bind_apply, bind_apply, ← results]
  cases (first one).1 with
  | error exception => exact ⟨rfl, states⟩
  | ok result => exact goesOn result _ _ states

/-- Reading the state, where what follows is the same for states that are alike. This is the one
place where something has to be shown about what a method reads. -/
theorem get_bind {next : State → Method State Error β}
    (same : ∀ one two, alike one two → next one = next two)
    (goesOn : ∀ state, Blind alike (next state)) : Blind alike (Method.get >>= next) := by
  intro one two states
  rw [Method.get_bind, Method.get_bind, same one two states]
  exact goesOn two one two states

/-- A method of the first part of a state, where the second part is the same. -/
theorem onFirst {method : Method State Error α} (blind : Blind alike method) :
    Blind (fun one two : State × Other => alike one.1 two.1 ∧ one.2 = two.2)
      method.onFirst := by
  rintro ⟨one, object⟩ ⟨two, _⟩ ⟨states, rfl⟩
  obtain ⟨results, after⟩ := blind one two states
  exact ⟨results, after, rfl⟩

end Blind

end Method

section Runs

variable {State Event : Type} {alike : State → State → Prop}

/-- What matches a list with a last entry has a last entry that matches it. -/
theorem matching_snoc {fits : Event → Event → Prop} {events others : List Event} {last : Event}
    (matching : List.Forall₂ fits (events ++ [last]) others) :
    ∃ front back, others = front ++ [back] ∧ List.Forall₂ fits events front ∧ fits last back := by
  induction events generalizing others with
  | nil =>
    cases matching with
    | cons fitting rest =>
      cases rest
      exact ⟨[], _, rfl, .nil, fitting⟩
  | cons event events inductionHypothesis =>
    cases matching with
    | cons fitting rest =>
      obtain ⟨front, back, rfl, firsts, here⟩ := inductionHypothesis rest
      exact ⟨_ :: front, back, rfl, .cons fitting firsts, here⟩

/-- Runs whose events match go through states that are alike, if single steps do. The induction
is over the run from its end, so a matching list of events is split at its last one. -/
theorem Run.matched {step : State → Event → State → Prop} {fits : Event → Event → Prop}
    (simulates : ∀ {one two event other next}, alike one two → fits event other →
      step one event next → ∃ after, step two other after ∧ alike next after)
    {start final : State} {steps : List (State × Event)} (run : Run step start steps final)
    {begin : State} (same : alike start begin) {events : List Event}
    (matching : List.Forall₂ fits (steps.map Prod.snd) events) :
    ∃ others last, Run step begin others last ∧ others.map Prod.snd = events ∧ alike final last ∧
      List.Forall₂ alike (steps.map Prod.fst) (others.map Prod.fst) := by
  induction run generalizing events with
  | nil =>
    cases matching
    exact ⟨[], begin, .nil, rfl, same, .nil⟩
  | @snoc steps state next event run stepped inductionHypothesis =>
    rw [List.map_append, List.map_singleton] at matching
    obtain ⟨front, other, rfl, firsts, fitting⟩ := matching_snoc matching
    obtain ⟨others, last, otherRun, rfl, here, states⟩ := inductionHypothesis firsts
    obtain ⟨after, taken, there⟩ := simulates here fitting stepped
    refine ⟨others ++ [(last, other)], after, .snoc otherRun taken, ?_, there, ?_⟩
    · rw [List.map_append, List.map_singleton]
    · rw [List.map_append, List.map_append]
      exact List.rel_append states (.cons here .nil)

/-- Chains of steps are matched state by state, if single steps are. -/
theorem matched_chain {step : State → State → Prop}
    (simulates : ∀ {one two next}, alike one two → step one next →
      ∃ after, step two after ∧ alike next after)
    {start begin : State} {states : List State} (same : alike start begin)
    (chain : List.IsChain step (start :: states)) :
    ∃ others, List.IsChain step (begin :: others) ∧ List.Forall₂ alike states others := by
  induction states generalizing start begin with
  | nil => exact ⟨[], .singleton _, .nil⟩
  | cons next states inductionHypothesis =>
    obtain ⟨stepped, rest⟩ := List.isChain_cons_cons.mp chain
    obtain ⟨after, taken, there⟩ := simulates same stepped
    obtain ⟨others, otherChain, alikes⟩ := inductionHypothesis there rest
    exact ⟨after :: others, otherChain.cons_cons taken, .cons there alikes⟩

end Runs

end QChat
