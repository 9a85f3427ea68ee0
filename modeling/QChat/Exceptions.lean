/-!
# Exceptions

The exceptions the modelled functions raise, with the texts the source gives to
its own exception classes. Exceptions of the language and its libraries are told
apart by their class; a missing key is kept because callers show it.
-/

namespace QChat

/-- A raised exception. The source's own classes carry the text they are raised with; a
placeholder that the source leaves unfilled is in the text. -/
inductive Exn where
  | ProtocolException (text : String)
  | DBException (text : String)
  | ConnectionError (text : String)
  | MalformedMessage (text : String)
  | Exception (text : String)
  | KeyError (key : String)
  | IndexError
  | OverflowError
  | ZeroDivisionError
  | TypeError
  | ValueError
  | AttributeError
  | UnicodeError
deriving DecidableEq, Repr

variable {ε α β : Type}

@[simp] theorem ok_bind (result : α) (next : α → Except ε β) :
    (Except.ok result >>= next) = next result := (rfl)

@[simp] theorem error_bind (exception : ε) (next : α → Except ε β) :
    (Except.error exception >>= next) = .error exception := (rfl)

@[simp] theorem pure_ok (result : α) : (pure result : Except ε α) = .ok result := (rfl)

/-- A computation that returns has run through each of its parts. -/
theorem ok_of_bind {first : Except ε α} {next : α → Except ε β} {result : β}
    (returned : (first >>= next) = .ok result) :
    ∃ value, first = .ok value ∧ next value = .ok result := by
  cases first with
  | error exception => cases returned
  | ok value => exact ⟨value, rfl, returned⟩

end QChat
