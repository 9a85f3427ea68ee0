import QChat.Exceptions

/-!
# Methods with state and exceptions

A method of an object reads and changes the object's state and returns a result
or raises. What it changed before it raises stays changed, so the state after
the call is there in both cases.
-/

namespace QChat

/-- A method: from the state before the call to the result and the state after. -/
def Method (State Error α : Type) : Type := State → Except Error α × State

namespace Method

variable {State Error α β : Type}

instance : Monad (Method State Error) where
  pure result := fun state => (.ok result, state)
  bind first next := fun state =>
    match first state with
    | (.ok result, after) => next result after
    | (.error exception, after) => (.error exception, after)

/-- A computation that does not touch the state. -/
def compute (value : Except Error α) : Method State Error α := fun state => (value, state)

instance : MonadLift (Except Error) (Method State Error) := ⟨compute⟩

/-- The state. -/
def get : Method State Error State := fun state => (.ok state, state)

/-- Changes the state. -/
def modify (change : State → State) : Method State Error Unit := fun state => (.ok (), change state)

/-- Raises an exception. -/
def raise (exception : Error) : Method State Error α := fun state => (.error exception, state)

/-- A method that works on the first of two objects. -/
def onFirst {Other : Type} (method : Method State Error α) : Method (State × Other) Error α :=
  fun (state, other) => ((method state).1, ((method state).2, other))

/-- A method that also works on an object of its own, which is gone afterwards. -/
def withObject {Other : Type} (object : Other) (method : Method (State × Other) Error α) :
    Method State Error α :=
  fun state => ((method (state, object)).1, (method (state, object)).2.1)

@[simp] theorem pure_apply (result : α) (state : State) :
    (pure result : Method State Error α) state = (.ok result, state) := rfl

@[simp] theorem get_bind (next : State → Method State Error β) (state : State) :
    (get >>= next) state = next state state := rfl

@[simp] theorem modify_bind (change : State → State) (next : Unit → Method State Error β)
    (state : State) : (modify change >>= next) state = next () (change state) := rfl

@[simp] theorem modify_apply (change : State → State) (state : State) :
    (modify change : Method State Error Unit) state = (.ok (), change state) := rfl

/-- An exception leaves the state as it is. Changes made before it stay. -/
@[simp] theorem raise_apply (exception : Error) (state : State) :
    (raise exception : Method State Error α) state = (.error exception, state) := rfl

@[simp] theorem raise_bind (exception : Error) (next : α → Method State Error β) (state : State) :
    (raise exception >>= next) state = (.error exception, state) := rfl

/-- A computation returns or raises and leaves the state alone. -/
@[simp] theorem compute_apply (value : Except Error α) (state : State) :
    (liftM value : Method State Error α) state = (value, state) := rfl

/-- After a computation the method goes on with its result, or is over. -/
theorem compute_bind (value : Except Error α) (next : α → Method State Error β) (state : State) :
    ((liftM value : Method State Error α) >>= next) state =
      match value with
      | .ok result => next result state
      | .error exception => (.error exception, state) := by
  cases value <;> rfl

/-- A method that goes on after a first part: what the first part does and what
the rest does from there. -/
theorem bind_apply (first : Method State Error α) (next : α → Method State Error β)
    (state : State) :
    (first >>= next) state =
      match (first state).1 with
      | .ok result => next result (first state).2
      | .error exception => (.error exception, (first state).2) := by
  change (match first state with
    | (.ok result, after) => next result after
    | (.error exception, after) => (.error exception, after)) = _
  rcases first state with ⟨_ | _, _⟩ <;> rfl

/-- A method whose first part returns goes on from there. -/
theorem bind_of_ok {first : Method State Error α} {next : α → Method State Error β}
    {state after : State} {result : α} (returned : first state = (.ok result, after)) :
    (first >>= next) state = next result after := by
  rw [bind_apply, returned]

/-- A method that returns has returned from its first part. -/
theorem ok_of_bind {first : Method State Error α} {next : α → Method State Error β}
    {state after : State} {result : β} (returned : (first >>= next) state = (.ok result, after)) :
    ∃ value middle, first state = (.ok value, middle) ∧
      next value middle = (.ok result, after) := by
  rw [bind_apply] at returned
  rcases called : first state with ⟨exception | value, middle⟩
  · rw [called] at returned
    cases returned
  · rw [called] at returned
    exact ⟨value, middle, rfl, returned⟩

/-- A computation that is followed by a method that returns has a result. -/
theorem ok_of_compute {value : Except Error α} {next : α → Method State Error β}
    {state after : State} {result : β}
    (returned : ((liftM value : Method State Error α) >>= next) state = (.ok result, after)) :
    ∃ computed, value = .ok computed ∧ next computed state = (.ok result, after) := by
  cases value with
  | error exception => cases returned
  | ok computed => exact ⟨computed, rfl, returned⟩

/-- A method that returns has passed its check. -/
theorem ok_of_guard {fails : Prop} [Decidable fails] {exception : Error}
    {rest : Method State Error α} {state after : State} {result : α}
    (returned : (if fails then .raise exception else rest) state = (.ok result, after)) :
    ¬ fails ∧ rest state = (.ok result, after) := by
  by_cases failed : fails
  · rw [if_pos failed] at returned
    cases returned
  · rw [if_neg failed] at returned
    exact ⟨failed, returned⟩

/-- A relation that composes relates the state before a call with the state
after it, if it does so for both parts. -/
theorem bind_relates (related : State → State → Prop)
    (composes : ∀ one two three, related one two → related two three → related one three)
    {first : Method State Error α} {next : α → Method State Error β} {state : State}
    (begins : related state (first state).2)
    (goesOn : ∀ result after, first state = (.ok result, after) →
      related after (next result after).2) :
    related state ((first >>= next) state).2 := by
  rw [bind_apply]
  rcases called : first state with ⟨result | result, after⟩
  · rw [called] at begins
    exact begins
  · rw [called] at begins
    exact composes _ _ _ begins (goesOn result after called)

/-- A computation changes nothing; what follows it matters only if it has a result. -/
theorem compute_relates (related : State → State → Prop) {value : Except Error α}
    {next : α → Method State Error β} {state : State} (unchanged : related state state)
    (goesOn : ∀ result, value = .ok result → related state (next result state).2) :
    related state (((liftM value : Method State Error α) >>= next) state).2 := by
  cases value with
  | error exception => exact unchanged
  | ok result => exact goesOn result rfl

end Method

end QChat
