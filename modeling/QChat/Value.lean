import Mathlib.Data.Rat.Defs
import QChat.Bits
import QChat.Dict
import QChat.Exceptions

/-!
# Python values

The values that occur in messages and in the user database: what `json.loads`
produces, and byte strings, which `json.dumps` refuses. A Python `str` is a Lean
`String`: a sequence of Unicode scalar values, so lone surrogates are not
represented. A tuple is a list here, as it is after a JSON transfer.

An integer and a floating point number are different values. A floating point
number is kept as its text, which no operation of the program changes. The values
`nan`, `inf` and `-inf`, which `json` reads and writes although no JSON text has
them, are kept apart from the numbers.

Objects are entry lists. A Python `dict` has each key once; `IsJson` states this
for every object in a value, along with the absence of byte strings.
-/

namespace QChat

/-- A Python `bytes` value. -/
abbrev Bytes := List UInt8

/-- The characters numbers are written with. -/
def isNumberChar (char : Char) : Bool := char.isDigit || char ∈ ['-', '+', '.', 'e']

/-- One or more digits. -/
def isDigits (text : List Char) : Bool := !text.isEmpty && text.all Char.isDigit

/-- Digits without a leading zero. -/
def isWhole (text : List Char) : Bool :=
  isDigits text && (decide (text.head? ≠ some '0') || decide (text.length = 1))

/-- An exponent, or nothing. -/
def isExponent : List Char → Bool
  | [] => true
  | 'e' :: '+' :: digits => isDigits digits
  | 'e' :: '-' :: digits => isDigits digits
  | 'e' :: digits => isDigits digits
  | _ => false

/-- A number's text without its minus sign. -/
def unsigned (text : List Char) : List Char := if text.head? = some '-' then text.tail else text

/-- A whole part, then a fraction or none, then an exponent or none. -/
def isNumberText (text : List Char) : Bool :=
  isWhole ((unsigned text).takeWhile Char.isDigit) &&
    match (unsigned text).dropWhile Char.isDigit with
    | '.' :: rest =>
      isDigits (rest.takeWhile Char.isDigit) && isExponent (rest.dropWhile Char.isDigit)
    | rest => isExponent rest

/-- The text of a floating point number: it has a fraction or an exponent, which
tells it from an integer. -/
def isFloatText (text : List Char) : Bool :=
  text.all isNumberChar && isNumberText text && text.any (fun char => char ∈ ['.', 'e'])

/-- A floating point number by its text. No modelled function computes with such a number, so
the text is kept as it was read. -/
structure FloatText where
  text : String
  valid : isFloatText text.toList = true
deriving DecidableEq

/-- The number some digits stand for. -/
def digitsValue (digits : List Char) : Nat :=
  digits.foldl (fun value digit => 10 * value + (digit.toNat - '0'.toNat)) 0

/-- The value of a signed decimal text with optional fraction and exponent. -/
def FloatText.value (number : FloatText) : ℚ :=
  let text := number.text.toList
  let mantissa := (text.takeWhile (· ≠ 'e')).filter (· ≠ '-')
  let exponent := (text.dropWhile (· ≠ 'e')).filter Char.isDigit
  let whole := mantissa.takeWhile (· ≠ '.')
  let fraction := (mantissa.dropWhile (· ≠ '.')).drop 1
  let size : ℚ := mkRat (digitsValue (whole ++ fraction)) (10 ^ fraction.length)
  let scale : ℚ := mkRat (10 ^ digitsValue exponent) 1
  let scaled := if '-' ∈ text.dropWhile (· ≠ 'e') then size / scale else size * scale
  if text.head? = some '-' then -scaled else scaled

/-- The floating point values that are no numbers, by the names `json` has for them. No JSON
text has these names; the module writes and reads them all the same. -/
inductive FloatConstant where
  | NaN
  | Infinity
  | negInfinity
deriving DecidableEq

/-- What `str` writes for such a value. -/
def FloatConstant.text : FloatConstant → String
  | .NaN => "nan"
  | .Infinity => "inf"
  | .negInfinity => "-inf"

/-- A Python value, as far as messages, databases and configurations hold them. Lists and tuples
are not told apart, and the keys of objects are texts. -/
inductive Value where
  | null
  | bool (value : Bool)
  | num (value : Int)
  | float (value : FloatText)
  | constant (value : FloatConstant)
  | str (value : String)
  | bytes (value : Bytes)
  | arr (items : List Value)
  | obj (entries : List (String × Value))

namespace Value

/-- The values `json` can write: no byte strings, and every object has each of its keys once.
These are also the values it reads. -/
inductive IsJson : Value → Prop where
  | null : IsJson .null
  | bool (value : Bool) : IsJson (.bool value)
  | num (value : Int) : IsJson (.num value)
  | float (value : FloatText) : IsJson (.float value)
  | constant (value : FloatConstant) : IsJson (.constant value)
  | str (value : String) : IsJson (.str value)
  | arr (items : List Value) (each : ∀ item ∈ items, IsJson item) : IsJson (.arr items)
  | obj (entries : List (String × Value)) (distinct : (entries.map Prod.fst).Nodup)
      (each : ∀ entry ∈ entries, IsJson entry.2) : IsJson (.obj entries)

theorem isJson_nothing : (obj []).IsJson :=
  .obj [] List.nodup_nil fun _ member => by cases member

/-- Python's truth value. -/
def truthy : Value → Bool
  | .null => false
  | .bool value => value
  | .num value => value ≠ 0
  | .float value => value.value ≠ 0
  | .constant _ => true
  | .str value => value ≠ ""
  | .bytes value => !value.isEmpty
  | .arr items => !items.isEmpty
  | .obj entries => !entries.isEmpty

/-- A list of bits. -/
def ofBits (bits : List Bit) : Value := .arr (bits.map (fun bit => .num bit.val))

/-- A list of positions. -/
def ofNats (values : List Nat) : Value := .arr (values.map (fun value : Nat => .num value))

/-- The value under a string subscript. -/
def item (data : Value) (key : String) : Except Exn Value :=
  match data with
  | .obj entries =>
    match Dict.lookup key entries with
    | some value => .ok value
    | none => .error (.KeyError key)
  | _ => .error .TypeError

/-- Takes a field out of a dictionary: its value, and what is left. -/
def pop (data : Value) (key : String) : Except Exn (Value × Value) :=
  match data with
  | .obj entries =>
    match Dict.lookup key entries with
    | some value => .ok (value, .obj (Dict.remove key entries))
    | none => .error (.KeyError key)
  | .arr _ => .error .TypeError
  | _ => .error .AttributeError

/-- The integer a value is where an integer is required: a truth value counts. -/
def index : Value → Except Exn Int
  | .num value => .ok value
  | .bool value => .ok (if value then 1 else 0)
  | _ => .error .TypeError

/-- The values a loop over this one visits. -/
def iterate : Value → Except Exn (List Value)
  | .arr items => .ok items
  | .str text => .ok (text.toList.map (fun char => .str (String.singleton char)))
  | .bytes value => .ok (value.map (fun byte => .num byte.toNat))
  | .obj entries => .ok (entries.map (fun entry => .str entry.1))
  | _ => .error .TypeError

/-- Equality with a text. -/
def isText (value : Value) (text : String) : Bool :=
  match value with
  | .str other => other = text
  | _ => false

/-- Equality with an integer. -/
def equals (value : Value) (number : Int) : Bool :=
  match value with
  | .num other => other = number
  | .bool other => (if other then 1 else 0) = number
  | .float other => other.value = number
  | _ => false

/-- Whether a length is below this value. -/
def exceeds (value : Value) (length : Nat) : Except Exn Bool :=
  match value with
  | .num bound => .ok (decide ((length : Int) < bound))
  | .bool bound => .ok (decide (length < if bound then 1 else 0))
  | .float bound => .ok (decide ((length : ℚ) < bound.value))
  | .constant bound => .ok (decide (bound = .Infinity))
  | _ => .error .TypeError

/-- The list of integers a value is. Other values that `numpy` would accept as a
row are refused here. -/
def row : Value → Except Exn (List Int)
  | .arr items => items.mapM index
  | _ => .error .ValueError

/-- The product with a byte, if it is an integer and so has `to_bytes`. -/
def times (value : Value) (byte : UInt8) : Except Exn Int :=
  match value with
  | .num factor => .ok (factor * byte.toNat)
  | .bool factor => .ok (if factor then byte.toNat else 0)
  | .null | .obj _ => .error .TypeError
  | _ => .error .AttributeError

@[simp] theorem times_num (factor : Int) (byte : UInt8) :
    (num factor).times byte = .ok (factor * byte.toNat) := (rfl)

@[simp] theorem equals_num (one two : Int) : (num one).equals two = decide (one = two) := (rfl)

@[simp] theorem item_single (key : String) (value : Value) :
    (obj [(key, value)]).item key = .ok value := by
  simp [item, Dict.lookup]

@[simp] theorem item_first (key : String) (value : Value) (others : List (String × Value)) :
    (obj ((key, value) :: others)).item key = .ok value := by
  simp [item, Dict.lookup]

theorem pop_obj {entries : List (String × Value)} {key : String} {value : Value}
    (stored : Dict.lookup key entries = some value) :
    (obj entries).pop key = .ok (value, .obj (Dict.remove key entries)) := by
  simp only [pop, stored]

@[simp] theorem iterate_ofBits (bits : List Bit) :
    (ofBits bits).iterate = .ok (bits.map (fun bit => .num bit.val)) := rfl

@[simp] theorem iterate_ofNats (values : List Nat) :
    (ofNats values).iterate = .ok (values.map (fun value : Nat => .num value)) := rfl

@[simp] theorem row_ofBits (bits : List Bit) :
    (ofBits bits).row = .ok (bits.map (fun bit => (bit.val : Int))) := by
  induction bits with
  | nil => rfl
  | cons bit rest inductionHypothesis =>
    simp only [ofBits, row, List.map_cons, List.mapM_cons, index] at inductionHypothesis ⊢
    rw [inductionHypothesis]
    rfl

/-- Bits are equal as integers exactly if they are equal. -/
@[simp] theorem equals_bit (one two : Bit) :
    (num one.val).equals (two.val : Int) = decide (one = two) := by
  have same : ((one.val : Int) = two.val) ↔ one = two := by rw [Fin.ext_iff]; omega
  simp only [equals, same]

end Value

end QChat
