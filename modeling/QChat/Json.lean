import QChat.Messages

/-!
# JSON texts

The `json` module with its default settings, as far as the program uses it:
writing with `, ` and `: ` between the parts and with every character outside
printable ASCII escaped, and reading of whole texts. What is written is read back
as it was, keys in their order.

The constants `NaN`, `Infinity` and `-Infinity`, which no JSON text has, are written and
read as the source's language does. Escapes of lone surrogates are refused here, since
they make no Unicode text. A floating point number keeps the text it was read with.
Integers may have any number of digits, and lists and objects may be nested to any depth.
-/

namespace QChat

namespace Json

/-! ## Characters -/

/-- A hexadecimal digit, lower case. -/
def hexDigit (value : Nat) : Char := value.digitChar

/-- The value of a hexadecimal digit of either case, if it is one. -/
def hexValue (char : Char) : Option Nat :=
  if char.isDigit then some (char.toNat - '0'.toNat)
  else if 'a' ≤ char ∧ char ≤ 'f' then some (char.toNat - 'a'.toNat + 10)
  else if 'A' ≤ char ∧ char ≤ 'F' then some (char.toNat - 'A'.toNat + 10)
  else none

/-- The escape of a 16 bit code unit. -/
def escapeUnit (unit : Nat) : List Char :=
  ['\\', 'u', hexDigit (unit / 4096 % 16), hexDigit (unit / 256 % 16), hexDigit (unit / 16 % 16),
    hexDigit (unit % 16)]

/-- The text of a character inside a string. -/
def escape (char : Char) : List Char :=
  if char = '"' then ['\\', '"']
  else if char = '\\' then ['\\', '\\']
  else if char = '\n' then ['\\', 'n']
  else if char = '\r' then ['\\', 'r']
  else if char = '\t' then ['\\', 't']
  else if char.toNat = 12 then ['\\', 'f']
  else if char.toNat = 8 then ['\\', 'b']
  else if 32 ≤ char.toNat ∧ char.toNat < 127 then [char]
  else if char.toNat < 65536 then escapeUnit char.toNat
  else
    escapeUnit (55296 + (char.toNat - 65536) / 1024) ++
      escapeUnit (56320 + (char.toNat - 65536) % 1024)

/-- Four hexadecimal digits. -/
def readUnit : List Char → Option (Nat × List Char)
  | one :: two :: three :: four :: rest => do
    let one ← hexValue one
    let two ← hexValue two
    let three ← hexValue three
    let four ← hexValue four
    return (((one * 16 + two) * 16 + three) * 16 + four, rest)
  | _ => none

/-- The character an escape stands for, behind its backslash. -/
def readEscape : List Char → Option (Char × List Char)
  | [] => none
  | char :: rest =>
    if char = '"' ∨ char = '\\' ∨ char = '/' then some (char, rest)
    else if char = 'n' then some ('\n', rest)
    else if char = 'r' then some ('\r', rest)
    else if char = 't' then some ('\t', rest)
    else if char = 'f' then some (Char.ofNat 12, rest)
    else if char = 'b' then some (Char.ofNat 8, rest)
    else if char = 'u' then
      match readUnit rest with
      | none => none
      | some (unit, rest) =>
        if unit < 55296 ∨ 57344 ≤ unit then some (Char.ofNat unit, rest)
        else if unit < 56320 then
          match rest with
          | '\\' :: 'u' :: rest =>
            match readUnit rest with
            | none => none
            | some (low, rest) =>
              if 56320 ≤ low ∧ low < 57344 then
                some (Char.ofNat (65536 + (unit - 55296) * 1024 + (low - 56320)), rest)
              else none
          | _ => none
        else none
    else none

/-- The next character of a string: itself or by its escape. Control characters
must be escaped. -/
def readChar : List Char → Option (Char × List Char)
  | [] => none
  | char :: rest =>
    if char = '\\' then readEscape rest
    else if char.toNat < 32 then none
    else some (char, rest)

/-- The rest of a string behind its opening quote. -/
def readString : Nat → List Char → Option (List Char × List Char)
  | 0, _ => none
  | _ + 1, [] => none
  | fuel + 1, char :: rest =>
    if char = '"' then some ([], rest)
    else do
      let (read, rest) ← readChar (char :: rest)
      let (chars, rest) ← readString fuel rest
      return (read :: chars, rest)

/-- A string between its quotes, with every character as itself or escaped. -/
def writeString (text : String) : List Char := '"' :: (text.toList.flatMap escape ++ ['"'])

/-- A written hexadecimal digit is read back. -/
theorem hexValue_hexDigit (value : Nat) (small : value < 16) :
    hexValue (hexDigit value) = some value := by
  revert value
  decide

/-- The four digits of an escape are read back as its code unit. -/
theorem readUnit_escapeUnit (unit : Nat) (small : unit < 65536) (rest : List Char) :
    readUnit ((escapeUnit unit).drop 2 ++ rest) = some (unit, rest) := by
  have digits : (((unit / 4096 % 16) * 16 + unit / 256 % 16) * 16 + unit / 16 % 16) * 16 +
      unit % 16 = unit := by omega
  simp only [escapeUnit, List.drop_succ_cons, List.drop_zero, List.cons_append, List.nil_append,
    readUnit, hexValue_hexDigit _ (Nat.mod_lt _ (by decide : 0 < 16)), Option.bind_eq_bind,
    Option.bind_some, digits, Option.pure_def]

/-- The escape of a character outside the surrogates is read as that character. -/
theorem readChar_unit (char : Char) (small : char.toNat < 65536) (rest : List Char) :
    readChar (escapeUnit char.toNat ++ rest) = some (char, rest) := by
  have read := readUnit_escapeUnit char.toNat small rest
  have scalar : char.toNat < 55296 ∨ 57344 ≤ char.toNat := by
    rcases char.valid with low | ⟨high, _⟩
    · exact Or.inl low
    · exact Or.inr high
  simp only [escapeUnit, List.cons_append, List.nil_append, List.drop_succ_cons, List.drop_zero]
    at read
  simp only [escapeUnit, List.cons_append, List.nil_append, readChar, readEscape, Char.reduceEq,
    ↓reduceIte, or_self, read, if_pos scalar, Char.ofNat_toNat]

/-- Every character is below the end of Unicode. -/
theorem char_toNat_lt (char : Char) : char.toNat < 1114112 := by
  rcases char.valid with low | ⟨_, high⟩
  · exact Nat.lt_trans low (by decide)
  · exact high

/-- A pair of escaped surrogates is read as the character it encodes. -/
theorem readChar_pair (char : Char) (large : 65536 ≤ char.toNat) (rest : List Char) :
    readChar (escapeUnit (55296 + (char.toNat - 65536) / 1024) ++
      escapeUnit (56320 + (char.toNat - 65536) % 1024) ++ rest) = some (char, rest) := by
  have bound := char_toNat_lt char
  have high := readUnit_escapeUnit (55296 + (char.toNat - 65536) / 1024) (by omega)
    (escapeUnit (56320 + (char.toNat - 65536) % 1024) ++ rest)
  have low := readUnit_escapeUnit (56320 + (char.toNat - 65536) % 1024) (by omega) rest
  have value : 65536 + (55296 + (char.toNat - 65536) / 1024 - 55296) * 1024 +
      (56320 + (char.toNat - 65536) % 1024 - 56320) = char.toNat := by omega
  have notScalar : ¬ (55296 + (char.toNat - 65536) / 1024 < 55296 ∨
      57344 ≤ 55296 + (char.toNat - 65536) / 1024) := by omega
  have leading : 55296 + (char.toNat - 65536) / 1024 < 56320 := by omega
  have trailing : 56320 ≤ 56320 + (char.toNat - 65536) % 1024 ∧
      56320 + (char.toNat - 65536) % 1024 < 57344 := by omega
  simp only [escapeUnit, List.cons_append, List.nil_append, List.drop_succ_cons, List.drop_zero]
    at high low
  simp only [escapeUnit, List.cons_append, List.nil_append, readChar, readEscape, Char.reduceEq,
    ↓reduceIte, or_self, high, if_neg notScalar, if_pos leading, low, if_pos trailing, value,
    Char.ofNat_toNat]

/-- Every character is read back from its text: as itself, from a short escape, from one code
unit or from a pair of surrogates. -/
theorem readChar_escape (char : Char) (rest : List Char) :
    readChar (escape char ++ rest) = some (char, rest) := by
  unfold escape
  split_ifs with quote backslash newline carriage tab form back printable basic
  · subst quote
    rfl
  · subst backslash
    rfl
  · subst newline
    rfl
  · subst carriage
    rfl
  · subst tab
    rfl
  · rw [← Char.ofNat_toNat char, form]
    rfl
  · rw [← Char.ofNat_toNat char, back]
    rfl
  · simp only [List.cons_append, List.nil_append, readChar, if_neg backslash,
      if_neg (show ¬ char.toNat < 32 by omega)]
  · exact readChar_unit char basic rest
  · exact readChar_pair char (by omega) rest

/-- The first character of an escape does not close a string. -/
theorem escape_head (char : Char) : ∃ first rest, escape char = first :: rest ∧ first ≠ '"' := by
  unfold escape
  split_ifs with quote
  · exact ⟨_, _, rfl, by decide⟩
  · exact ⟨_, _, rfl, by decide⟩
  · exact ⟨_, _, rfl, by decide⟩
  · exact ⟨_, _, rfl, by decide⟩
  · exact ⟨_, _, rfl, by decide⟩
  · exact ⟨_, _, rfl, by decide⟩
  · exact ⟨_, _, rfl, by decide⟩
  · exact ⟨_, _, rfl, quote⟩
  · exact ⟨_, _, rfl, by decide⟩
  · exact ⟨_, _, rfl, by decide⟩

/-- A written string is read back up to its closing quote. The fuel has to exceed the number of
characters, for each of which one is used. -/
theorem readString_chars (chars : List Char) (rest : List Char) (fuel : Nat)
    (enough : chars.length < fuel) :
    readString fuel (chars.flatMap escape ++ '"' :: rest) = some (chars, rest) := by
  induction chars generalizing fuel with
  | nil =>
    obtain ⟨fuel, rfl⟩ := Nat.exists_eq_add_one.mpr enough
    simp only [List.flatMap_nil, List.nil_append, readString, ↓reduceIte]
  | cons char chars inductionHypothesis =>
    obtain ⟨fuel, rfl⟩ := Nat.exists_eq_add_one.mpr (Nat.zero_lt_of_lt enough)
    obtain ⟨first, more, escaped, open'⟩ := escape_head char
    have read := readChar_escape char (chars.flatMap escape ++ '"' :: rest)
    rw [escaped, List.cons_append] at read
    rw [List.flatMap_cons, List.append_assoc, escaped, List.cons_append, readString, if_neg open',
      read]
    simp only [List.length_cons] at enough
    simp only [Option.bind_eq_bind, Option.bind_some, inductionHypothesis fuel (by omega),
      Option.pure_def]

/-! ## Numbers -/

/-- An integer: its digits, behind a minus sign if it is negative. -/
def writeInt (value : Int) : List Char :=
  if value < 0 then '-' :: Nat.toDigits 10 value.natAbs else Nat.toDigits 10 value.natAbs

/-- The text of an integer: an optional minus sign before a whole number. -/
def isIntText (text : List Char) : Bool := isWhole (unsigned text)

/-- The integer that its text stands for. -/
def intValue (text : List Char) : Int :=
  if text.head? = some '-' then -(Nat.ofDigitChars 10 text.tail 0 : Nat)
  else (Nat.ofDigitChars 10 text 0 : Nat)

/-- The number a text stands for. -/
def readNumber (text : List Char) : Option Value :=
  if valid : isFloatText text = true then
    some (.float ⟨String.ofList text, by rw [String.toList_ofList]; exact valid⟩)
  else if isIntText text then some (.num (intValue text))
  else none

/-- A character a number can be written with; the exponent sign may be upper case. -/
def scansNumber (char : Char) : Bool := isNumberChar char || char = 'E'

/-- What does not continue a number. -/
def Delimits (rest : List Char) : Prop := ∀ char, rest.head? = some char → scansNumber char = false

/-- The digits of a positive number do not start with a zero. The induction is over the number,
with its last digit taken off. -/
theorem toDigits_head (value : Nat) (positive : 0 < value) :
    (Nat.toDigits 10 value).head? ≠ some '0' := by
  induction value using Nat.strong_induction_on with
  | _ value inductionHypothesis =>
    rw [Nat.toDigits_eq_if (by decide)]
    split
    · next small =>
      have digit : ∀ value < 10, 0 < value → [value.digitChar].head? ≠ some '0' := by decide
      exact digit value small positive
    · next large =>
      have shorter := inductionHypothesis (value / 10) (by omega) (by omega)
      have nonempty : Nat.toDigits 10 (value / 10) ≠ [] := Nat.toDigits_ne_nil
      rwa [List.head?_append_of_ne_nil _ nonempty]

/-- The digits of a number are a whole number as the grammar has it. -/
theorem isWhole_toDigits (value : Nat) : isWhole (Nat.toDigits 10 value) = true := by
  have digits : isDigits (Nat.toDigits 10 value) = true := by
    simp only [isDigits, Bool.and_eq_true, Bool.not_eq_true', List.isEmpty_eq_false_iff,
      List.all_eq_true]
    exact ⟨Nat.toDigits_ne_nil, fun char member =>
      Nat.isDigit_of_mem_toDigits (by decide) (by decide) member⟩
  rw [isWhole, digits, Bool.true_and, Bool.or_eq_true, decide_eq_true_eq, decide_eq_true_eq]
  rcases Nat.eq_zero_or_pos value with rfl | positive
  · exact Or.inr (by rw [Nat.toDigits_zero, List.length_singleton])
  · exact Or.inl (toDigits_head value positive)

/-- Digits are no sign. -/
theorem toDigits_unsigned (value : Nat) : (Nat.toDigits 10 value).head? ≠ some '-' := by
  intro signed
  have digit := Nat.isDigit_of_mem_toDigits (by decide) (by decide)
    (List.mem_of_mem_head? signed : '-' ∈ Nat.toDigits 10 value)
  exact absurd digit (by decide)

/-- An integer is written with digits and a minus sign only. -/
theorem writeInt_chars (value : Int) (char : Char) (member : char ∈ writeInt value) :
    char.isDigit = true ∨ char = '-' := by
  have digit (member : char ∈ Nat.toDigits 10 value.natAbs) : char.isDigit = true :=
    Nat.isDigit_of_mem_toDigits (by decide) (by decide) member
  unfold writeInt at member
  split at member
  · rcases List.mem_cons.mp member with rfl | later
    · exact Or.inr rfl
    · exact Or.inl (digit later)
  · exact Or.inl (digit member)

/-- Digits belong to numbers. -/
theorem isNumberChar_of_digit {char : Char} (digit : char.isDigit = true) :
    isNumberChar char = true := by
  rw [isNumberChar, digit, Bool.true_or]

/-- A written integer is read back as the integer it was, not as a floating point number. -/
theorem readNumber_writeInt (value : Int) : readNumber (writeInt value) = some (.num value) := by
  have whole : isFloatText (writeInt value) = false := by
    have plain : (writeInt value).any (fun char => char ∈ ['.', 'e']) = false := by
      rw [List.any_eq_false]
      intro char member
      rcases writeInt_chars value char member with digit | rfl
      · intro point
        rcases List.mem_pair.mp (of_decide_eq_true point) with rfl | rfl
        · exact absurd digit (by decide)
        · exact absurd digit (by decide)
      · decide
    rw [isFloatText, plain, Bool.and_false]
  have digits := Nat.ofDigitChars_ten_toDigits (n := value.natAbs)
  have notFloat : ¬ isFloatText (writeInt value) = true := by rw [whole]; decide
  rw [readNumber, dif_neg notFloat]
  unfold writeInt
  split
  · next negative =>
    have text : isIntText ('-' :: Nat.toDigits 10 value.natAbs) = true := by
      simp only [isIntText, unsigned, List.head?_cons, ↓reduceIte, List.tail_cons, isWhole_toDigits]
    simp only [text, ↓reduceIte, intValue, List.head?_cons, List.tail_cons, digits, Option.some.injEq,
      Value.num.injEq]
    omega
  · next positive =>
    have text : isIntText (Nat.toDigits 10 value.natAbs) = true := by
      simp only [isIntText, unsigned, if_neg (toDigits_unsigned value.natAbs), isWhole_toDigits]
    simp only [text, ↓reduceIte, intValue, if_neg (toDigits_unsigned value.natAbs), digits,
      Option.some.injEq, Value.num.injEq]
    omega

/-- A floating point number is read back with the text it had. -/
theorem readNumber_float (value : FloatText) :
    readNumber value.text.toList = some (.float value) := by
  rw [readNumber, dif_pos value.valid]
  simp only [String.ofList_toList]

/-! ## Values -/

/-- Skips white space. -/
def skip (text : List Char) : List Char := text.dropWhile (fun char => char ∈ [' ', '\t', '\n', '\r'])

/-- The text of a floating point value that is no number. -/
def writeConstant : FloatConstant → List Char
  | .NaN => ['N', 'a', 'N']
  | .Infinity => ['I', 'n', 'f', 'i', 'n', 'i', 't', 'y']
  | .negInfinity => ['-', 'I', 'n', 'f', 'i', 'n', 'i', 't', 'y']

mutual

/-- The text of a value. -/
def write : Value → List Char
  | .null => ['n', 'u', 'l', 'l']
  | .bool true => ['t', 'r', 'u', 'e']
  | .bool false => ['f', 'a', 'l', 's', 'e']
  | .num value => writeInt value
  | .float value => value.text.toList
  | .constant value => writeConstant value
  | .str text => writeString text
  | .bytes _ => []
  | .arr [] => ['[', ']']
  | .arr (item :: items) => '[' :: (write item ++ (writeItems items ++ [']']))
  | .obj [] => ['{', '}']
  | .obj ((key, value) :: entries) =>
    '{' :: (writeString key ++ (':' :: ' ' :: (write value ++ (writeEntries entries ++ ['}']))))

/-- The further items of a list. -/
def writeItems : List Value → List Char
  | [] => []
  | item :: items => ',' :: ' ' :: (write item ++ writeItems items)

/-- The further entries of an object. -/
def writeEntries : List (String × Value) → List Char
  | [] => []
  | (key, value) :: entries =>
    ',' :: ' ' :: (writeString key ++ (':' :: ' ' :: (write value ++ writeEntries entries)))

end

mutual

/-- Whether a value holds no byte string. -/
def serializable : Value → Bool
  | .bytes _ => false
  | .arr items => serializableItems items
  | .obj entries => serializableEntries entries
  | _ => true

/-- Whether no item of a list holds a byte string. -/
def serializableItems : List Value → Bool
  | [] => true
  | item :: items => serializable item && serializableItems items

/-- Whether no value of an object holds a byte string. -/
def serializableEntries : List (String × Value) → Bool
  | [] => true
  | (_, value) :: entries => serializable value && serializableEntries entries

end

/-- A literal, a constant or a number. -/
def readAtom (text : List Char) : Option (Value × List Char) :=
  match text with
  | 'n' :: 'u' :: 'l' :: 'l' :: rest => some (.null, rest)
  | 't' :: 'r' :: 'u' :: 'e' :: rest => some (.bool true, rest)
  | 'f' :: 'a' :: 'l' :: 's' :: 'e' :: rest => some (.bool false, rest)
  | 'N' :: 'a' :: 'N' :: rest => some (.constant .NaN, rest)
  | 'I' :: 'n' :: 'f' :: 'i' :: 'n' :: 'i' :: 't' :: 'y' :: rest =>
    some (.constant .Infinity, rest)
  | '-' :: 'I' :: 'n' :: 'f' :: 'i' :: 'n' :: 'i' :: 't' :: 'y' :: rest =>
    some (.constant .negInfinity, rest)
  | _ => do
    let scanned := (text.takeWhile scansNumber).map (fun char => if char = 'E' then 'e' else char)
    let value ← readNumber scanned
    return (value, text.dropWhile scansNumber)

/-- A key, the colon behind it and the white space around that. -/
def readKey (text : List Char) : Option (String × List Char) :=
  match text with
  | '"' :: rest => do
    let (key, rest) ← readString rest.length rest
    match skip rest with
    | ':' :: rest => return (String.ofList key, skip rest)
    | _ => none
  | _ => none

mutual

/-- The value a text starts with, and the text behind it. -/
def read : Nat → List Char → Option (Value × List Char)
  | 0, _ => none
  | _ + 1, [] => none
  | fuel + 1, char :: rest =>
    if char = '"' then
      (readString rest.length rest).map fun (text, rest) => (.str (String.ofList text), rest)
    else if char = '[' then
      if (skip rest).head? = some ']' then some (.arr [], (skip rest).tail)
      else (readItems fuel (skip rest)).map fun (items, rest) => (.arr items, rest)
    else if char = '{' then
      if (skip rest).head? = some '}' then some (.obj [], (skip rest).tail)
      else (readEntries fuel (skip rest)).map fun (entries, rest) =>
        (.obj (Dict.ofList entries).entries, rest)
    else readAtom (char :: rest)

/-- The items of a list up to its closing bracket. -/
def readItems : Nat → List Char → Option (List Value × List Char)
  | 0, _ => none
  | fuel + 1, text => do
    let (item, rest) ← read fuel text
    match skip rest with
    | ']' :: rest => return ([item], rest)
    | ',' :: rest => do
      let (items, rest) ← readItems fuel (skip rest)
      return (item :: items, rest)
    | _ => none

/-- The entries of an object up to its closing brace. -/
def readEntries : Nat → List Char → Option (List (String × Value) × List Char)
  | 0, _ => none
  | fuel + 1, text => do
    let (key, rest) ← readKey text
    let (value, rest) ← read fuel rest
    match skip rest with
    | '}' :: rest => return ([(key, value)], rest)
    | ',' :: rest => do
      let (entries, rest) ← readEntries fuel (skip rest)
      return ((key, value) :: entries, rest)
    | _ => none

end

/-- Nothing is skipped before a visible character. -/
theorem skip_cons {char : Char} {rest : List Char}
    (visible : char ∉ [' ', '\t', '\n', '\r']) : skip (char :: rest) = char :: rest := by
  rw [skip, List.dropWhile_cons_of_neg (by simpa using visible)]

/-- A space is skipped. -/
theorem skip_space (rest : List Char) : skip (' ' :: rest) = skip rest := by
  rw [skip, List.dropWhile_cons_of_pos (by decide), skip]

/-- A text that starts with a character of a value: no white space and no closing
bracket. -/
def Begins (text : List Char) : Prop :=
  ∃ first more, text = first :: more ∧ first ∉ [' ', '\t', '\n', '\r'] ∧ first ≠ ']'

/-- What follows a text does not matter for how it begins. -/
theorem Begins.append {text : List Char} (begins : Begins text) (rest : List Char) :
    Begins (text ++ rest) := by
  obtain ⟨first, more, rfl, visible, inside⟩ := begins
  exact ⟨first, more ++ rest, rfl, visible, inside⟩

/-- A text that begins with a visible character has no white space before it. -/
theorem Begins.skip {text : List Char} (begins : Begins text) : skip text = text := by
  obtain ⟨first, more, rfl, visible, _⟩ := begins
  exact skip_cons visible

/-- The characters of numbers are visible, and none of them closes a list. -/
theorem visible_of_number {char : Char} (number : isNumberChar char = true) :
    char ∉ [' ', '\t', '\n', '\r'] ∧ char ≠ ']' := by
  constructor
  · intro space
    simp only [List.mem_cons, List.not_mem_nil, or_false] at space
    rcases space with rfl | rfl | rfl | rfl <;> exact absurd number (by decide)
  · rintro rfl
    exact absurd number (by decide)

/-- The text of a number: number characters, at least one, that are read as this number. Where
such a text ends is found by the first character that no number has. -/
structure NumberText (text : List Char) (value : Value) : Prop where
  nonempty : text ≠ []
  chars : ∀ char ∈ text, isNumberChar char = true
  read : readNumber text = some value

/-- The text of an integer is that of a number. -/
theorem numberText_int (value : Int) : NumberText (writeInt value) (.num value) where
  nonempty := by
    unfold writeInt
    split
    · exact List.cons_ne_nil _ _
    · exact Nat.toDigits_ne_nil
  chars char member := by
    rcases writeInt_chars value char member with digit | rfl
    · exact isNumberChar_of_digit digit
    · decide
  read := readNumber_writeInt value

/-- So is the text of a floating point number. -/
theorem numberText_float (value : FloatText) : NumberText value.text.toList (.float value) where
  nonempty empty := by
    have valid := value.valid
    rw [empty] at valid
    exact absurd valid (by decide)
  chars := by
    have valid := value.valid
    rw [isFloatText, Bool.and_eq_true, Bool.and_eq_true, List.all_eq_true] at valid
    exact valid.1.1
  read := readNumber_float value

/-- A number begins with a visible character. -/
theorem NumberText.begins {text : List Char} {value : Value} (number : NumberText text value) :
    Begins text := by
  cases text with
  | nil => exact absurd rfl number.nonempty
  | cons first more =>
    have digit := number.chars first List.mem_cons_self
    exact ⟨first, more, rfl, (visible_of_number digit).1, (visible_of_number digit).2⟩

/-- A written value begins with a visible character, by which its kind is told. -/
theorem begins_write (value : Value) (valid : value.IsJson) : Begins (write value) := by
  cases valid with
  | null => exact ⟨_, _, rfl, by decide, by decide⟩
  | bool value => cases value <;> exact ⟨_, _, rfl, by decide, by decide⟩
  | num value => exact (numberText_int value).begins
  | float value => exact (numberText_float value).begins
  | constant value => cases value <;> exact ⟨_, _, rfl, by decide, by decide⟩
  | str text => exact ⟨_, _, rfl, by decide, by decide⟩
  | arr items _ => cases items <;> exact ⟨_, _, by rw [write], by decide, by decide⟩
  | obj entries _ _ =>
    rcases entries with _ | ⟨⟨key, value⟩, entries⟩ <;>
      exact ⟨_, _, by rw [write], by decide, by decide⟩

/-- The scan for a number ends where its text does, if what follows does not continue it. -/
theorem takeWhile_number {text rest : List Char} (chars : ∀ char ∈ text, isNumberChar char = true)
    (delimits : Delimits rest) :
    (text ++ rest).takeWhile scansNumber = text ∧ (text ++ rest).dropWhile scansNumber = rest := by
  induction text with
  | nil =>
    cases rest with
    | nil => exact ⟨rfl, rfl⟩
    | cons char rest =>
      have stops := delimits char rfl
      simp only [List.nil_append, List.takeWhile_cons, List.dropWhile_cons, stops,
        Bool.false_eq_true, ↓reduceIte, and_self]
  | cons char text inductionHypothesis =>
    have scans : scansNumber char = true := by
      rw [scansNumber, chars char List.mem_cons_self, Bool.true_or]
    obtain ⟨taken, left⟩ := inductionHypothesis fun char member =>
      chars char (List.mem_cons_of_mem _ member)
    simp only [List.cons_append, List.takeWhile_cons, List.dropWhile_cons, scans, ↓reduceIte, taken,
      left, and_self]

/-- A number is read as an atom: none of the literals and constants starts like it, but for the
minus sign of one. -/
theorem readAtom_number {text rest : List Char} {value : Value} (number : NumberText text value)
    (delimits : Delimits rest) : readAtom (text ++ rest) = some (value, rest) := by
  obtain ⟨first, more, rfl⟩ := List.exists_cons_of_ne_nil number.nonempty
  have digit := number.chars first List.mem_cons_self
  obtain ⟨taken, left⟩ := takeWhile_number number.chars delimits
  have same : (first :: more).map (fun char => if char = 'E' then 'e' else char) = first :: more := by
    conv_rhs => rw [← List.map_id (first :: more)]
    apply List.map_congr_left
    intro char member
    refine if_neg ?_
    rintro rfl
    exact absurd (number.chars 'E' member) (by decide)
  unfold readAtom
  split
  · next literal =>
    rw [(List.cons.inj literal).1] at digit
    exact absurd digit (by decide)
  · next literal =>
    rw [(List.cons.inj literal).1] at digit
    exact absurd digit (by decide)
  · next literal =>
    rw [(List.cons.inj literal).1] at digit
    exact absurd digit (by decide)
  · next literal =>
    rw [(List.cons.inj literal).1] at digit
    exact absurd digit (by decide)
  · next literal =>
    rw [(List.cons.inj literal).1] at digit
    exact absurd digit (by decide)
  · next literal =>
    -- a minus sign alone is no number, and a number does not go on with a letter
    obtain ⟨sign, others⟩ := List.cons.inj literal
    cases more with
    | nil =>
      rw [sign] at number
      have none : readNumber ['-'] = none := rfl
      cases none.symm.trans number.read
    | cons second more =>
      have letter := number.chars second (by simp)
      rw [(List.cons.inj others).1] at letter
      exact absurd letter (by decide)
  · simp only [taken, left, same, number.read, Option.bind_eq_bind, Option.bind_some, Option.pure_def]

/-- A number is read as a value. -/
theorem read_number {text rest : List Char} {value : Value} (number : NumberText text value)
    (delimits : Delimits rest) (fuel : Nat) : read (fuel + 1) (text ++ rest) = some (value, rest) := by
  have atom := readAtom_number number delimits
  obtain ⟨first, more, rfl⟩ := List.exists_cons_of_ne_nil number.nonempty
  have digit := number.chars first List.mem_cons_self
  have other (char : Char) (letter : isNumberChar char = false) : first ≠ char := by
    rintro rfl
    rw [digit] at letter
    cases letter
  rw [List.cons_append] at atom ⊢
  rw [read, if_neg (other '"' (by decide)), if_neg (other '[' (by decide)),
    if_neg (other '{' (by decide)), atom]

/-- Escaping makes no text shorter, so the length of a written string is fuel enough to read it.
-/
theorem length_escape (chars : List Char) : chars.length ≤ (chars.flatMap escape).length := by
  induction chars with
  | nil => exact Nat.le_refl 0
  | cons char chars inductionHypothesis =>
    obtain ⟨first, more, escaped, _⟩ := escape_head char
    simp only [List.flatMap_cons, escaped, List.length_cons, List.length_append]
    omega

/-- A string is read back, whatever follows its closing quote. -/
theorem readString_write (text : String) (rest : List Char) :
    readString ((text.toList.flatMap escape ++ '"' :: rest).length)
      (text.toList.flatMap escape ++ '"' :: rest) = some (text.toList, rest) := by
  refine readString_chars text.toList rest _ ?_
  have long := length_escape text.toList
  simp only [List.length_append, List.length_cons]
  omega

/-- A key is read back with the colon and the space behind it. -/
theorem readKey_write (key : String) {rest : List Char} (begins : Begins rest) :
    readKey (writeString key ++ (':' :: ' ' :: rest)) = some (key, rest) := by
  have string := readString_write key (':' :: ' ' :: rest)
  simp only [writeString, List.cons_append, List.append_assoc, List.nil_append, readKey, string,
    Option.bind_eq_bind, Option.bind_some, skip_cons (show ':' ∉ [' ', '\t', '\n', '\r'] by decide),
    skip_space, begins.skip, String.ofList_toList, Option.pure_def]

/-- Reading undoes the writing of a value wherever the text may go on. -/
def ReadsBack (value : Value) : Prop :=
  ∀ fuel rest, 2 * (write value).length ≤ fuel → Delimits rest →
    read fuel (write value ++ rest) = some (value, rest)

/-- A character that cannot stand in a number ends it. -/
theorem delimits_cons {char : Char} (rest : List Char) (stops : scansNumber char = false) :
    Delimits (char :: rest) := by
  intro first head
  cases head
  exact stops

/-- What follows an item of a list ends a number. -/
theorem delimits_items (items : List Value) (rest : List Char) :
    Delimits (writeItems items ++ ']' :: rest) := by
  cases items with
  | nil => exact delimits_cons _ (by decide)
  | cons item items =>
    rw [writeItems]
    exact delimits_cons _ (by decide)

/-- What follows a value of an object ends a number. -/
theorem delimits_entries (entries : List (String × Value)) (rest : List Char) :
    Delimits (writeEntries entries ++ '}' :: rest) := by
  rcases entries with _ | ⟨⟨key, value⟩, entries⟩
  · exact delimits_cons _ (by decide)
  · rw [writeEntries]
    exact delimits_cons _ (by decide)

/-- The items of a list are read back, if each of them is. The fuel covers two steps for every
character, one for the value and one for what separates it from the next. -/
theorem readItems_write (items : List Value) : ∀ (item : Value) (fuel : Nat) (rest : List Char),
    (∀ value ∈ item :: items, value.IsJson ∧ ReadsBack value) →
    2 * ((write item).length + (writeItems items).length) + 2 ≤ fuel →
    readItems fuel (write item ++ (writeItems items ++ ']' :: rest)) = some (item :: items, rest) := by
  induction items with
  | nil =>
    intro item fuel rest each enough
    obtain ⟨fuel, rfl⟩ := Nat.exists_eq_add_one.mpr (show 0 < fuel by omega)
    have back := (each item List.mem_cons_self).2 fuel _ (by omega) (delimits_items [] rest)
    rw [readItems, back]
    simp only [Option.bind_eq_bind, Option.bind_some, writeItems, List.nil_append,
      skip_cons (show ']' ∉ [' ', '\t', '\n', '\r'] by decide), Option.pure_def]
  | cons next items inductionHypothesis =>
    intro item fuel rest each enough
    obtain ⟨fuel, rfl⟩ := Nat.exists_eq_add_one.mpr (show 0 < fuel by omega)
    have back := (each item List.mem_cons_self).2 fuel _ (by omega) (delimits_items (next :: items) rest)
    have begins := begins_write next (each next (by simp)).1
    simp only [writeItems, List.length_cons, List.length_append] at enough
    have others := inductionHypothesis next fuel rest
      (fun value member => each value (List.mem_cons_of_mem _ member)) (by omega)
    rw [readItems, back]
    simp only [Option.bind_eq_bind, Option.bind_some, writeItems, List.cons_append,
      skip_cons (show ',' ∉ [' ', '\t', '\n', '\r'] by decide), skip_space, List.append_assoc,
      (begins.append _).skip, others, Option.pure_def]

/-- The entries of an object are read back in their order, if each value is, in the same way. -/
theorem readEntries_write (entries : List (String × Value)) :
    ∀ (key : String) (value : Value) (fuel : Nat) (rest : List Char),
    (∀ entry ∈ (key, value) :: entries, entry.2.IsJson ∧ ReadsBack entry.2) →
    2 * ((writeString key).length + (write value).length + (writeEntries entries).length) + 2 ≤ fuel →
    readEntries fuel (writeString key ++ (':' :: ' ' :: (write value ++
      (writeEntries entries ++ '}' :: rest)))) = some ((key, value) :: entries, rest) := by
  induction entries with
  | nil =>
    intro key value fuel rest each enough
    obtain ⟨fuel, rfl⟩ := Nat.exists_eq_add_one.mpr (show 0 < fuel by omega)
    obtain ⟨valid, reads⟩ := each (key, value) List.mem_cons_self
    have back := reads fuel _ (by dsimp only; omega) (delimits_entries [] rest)
    rw [readEntries, readKey_write key ((begins_write value valid).append _)]
    simp only [Option.bind_eq_bind, Option.bind_some]
    rw [back]
    simp only [Option.bind_some, writeEntries, List.nil_append,
      skip_cons (show '}' ∉ [' ', '\t', '\n', '\r'] by decide), Option.pure_def]
  | cons next entries inductionHypothesis =>
    intro key value fuel rest each enough
    obtain ⟨nextKey, nextValue⟩ := next
    obtain ⟨fuel, rfl⟩ := Nat.exists_eq_add_one.mpr (show 0 < fuel by omega)
    obtain ⟨valid, reads⟩ := each (key, value) List.mem_cons_self
    have back := reads fuel _ (by dsimp only; omega)
      (delimits_entries ((nextKey, nextValue) :: entries) rest)
    have begins : Begins (writeString nextKey) := ⟨_, _, rfl, by decide, by decide⟩
    simp only [writeEntries, List.length_cons, List.length_append] at enough
    have others := inductionHypothesis nextKey nextValue fuel rest
      (fun entry member => each entry (List.mem_cons_of_mem _ member)) (by omega)
    rw [readEntries, readKey_write key ((begins_write value valid).append _)]
    simp only [Option.bind_eq_bind, Option.bind_some]
    rw [back]
    simp only [Option.bind_some, writeEntries, List.cons_append,
      skip_cons (show ',' ∉ [' ', '\t', '\n', '\r'] by decide), skip_space, List.append_assoc,
      (begins.append _).skip, others, Option.pure_def]

/-- Every JSON value is read back. The induction is on the value; in a list or an
object each part is followed by a comma or the closing character, which no number
goes on with. -/
theorem readsBack {value : Value} (valid : value.IsJson) : ReadsBack value := by
  induction valid with
  | null =>
    intro fuel rest enough _
    obtain ⟨fuel, rfl⟩ := Nat.exists_eq_add_one.mpr (Nat.lt_of_lt_of_le (by decide) enough)
    rfl
  | bool value =>
    intro fuel rest enough _
    cases value <;>
      obtain ⟨fuel, rfl⟩ := Nat.exists_eq_add_one.mpr (Nat.lt_of_lt_of_le (by decide) enough) <;>
      rfl
  | num value =>
    intro fuel rest enough delimits
    have number := numberText_int value
    have long := List.length_pos_iff.mpr number.nonempty
    simp only [write] at enough ⊢
    obtain ⟨fuel, rfl⟩ := Nat.exists_eq_add_one.mpr (show 0 < fuel by omega)
    exact read_number number delimits fuel
  | float value =>
    intro fuel rest enough delimits
    have number := numberText_float value
    have long := List.length_pos_iff.mpr number.nonempty
    simp only [write] at enough ⊢
    obtain ⟨fuel, rfl⟩ := Nat.exists_eq_add_one.mpr (show 0 < fuel by omega)
    exact read_number number delimits fuel
  | constant value =>
    intro fuel rest enough _
    cases value <;>
      obtain ⟨fuel, rfl⟩ := Nat.exists_eq_add_one.mpr (Nat.lt_of_lt_of_le (by decide) enough) <;>
      rfl
  | str text =>
    intro fuel rest enough _
    simp only [write, writeString, List.length_cons] at enough
    obtain ⟨fuel, rfl⟩ := Nat.exists_eq_add_one.mpr (show 0 < fuel by omega)
    have string := readString_write text rest
    simp only [write, writeString, List.cons_append, List.append_assoc, List.nil_append, read,
      ↓reduceIte, string, Option.map_some, String.ofList_toList]
  | arr items each inductionHypothesis =>
    intro fuel rest enough _
    cases items with
    | nil =>
      simp only [write, List.length_cons, List.length_nil] at enough
      obtain ⟨fuel, rfl⟩ := Nat.exists_eq_add_one.mpr (show 0 < fuel by omega)
      simp only [write, List.cons_append, List.nil_append, read, Char.reduceEq, ↓reduceIte,
        skip_cons (show ']' ∉ [' ', '\t', '\n', '\r'] by decide), List.head?_cons, List.tail_cons]
    | cons item items =>
      simp only [write, List.length_cons, List.length_append, List.length_nil] at enough
      obtain ⟨fuel, rfl⟩ := Nat.exists_eq_add_one.mpr (show 0 < fuel by omega)
      have begins := begins_write item (each item List.mem_cons_self)
      have all := readItems_write items item fuel rest
        (fun value member => ⟨each value member, inductionHypothesis value member⟩) (by omega)
      obtain ⟨first, more, text, visible, inside⟩ := begins.append (writeItems items ++ ']' :: rest)
      rw [text] at all
      simp only [write, List.cons_append, List.append_assoc, List.nil_append, read, Char.reduceEq,
        ↓reduceIte, text, skip_cons visible, List.head?_cons, Option.some.injEq, inside, all,
        Option.map_some]
  | obj entries distinct each inductionHypothesis =>
    intro fuel rest enough _
    rcases entries with _ | ⟨⟨key, value⟩, entries⟩
    · simp only [write, List.length_cons, List.length_nil] at enough
      obtain ⟨fuel, rfl⟩ := Nat.exists_eq_add_one.mpr (show 0 < fuel by omega)
      simp only [write, List.cons_append, List.nil_append, read, Char.reduceEq, ↓reduceIte,
        skip_cons (show '}' ∉ [' ', '\t', '\n', '\r'] by decide), List.head?_cons, List.tail_cons]
    · simp only [write, List.length_cons, List.length_append, List.length_nil] at enough
      obtain ⟨fuel, rfl⟩ := Nat.exists_eq_add_one.mpr (show 0 < fuel by omega)
      have all := readEntries_write entries key value fuel rest
        (fun entry member => ⟨each entry member, inductionHypothesis entry member⟩) (by omega)
      have starts : ∀ text, skip (writeString key ++ text) = writeString key ++ text :=
        fun text => skip_cons (by decide)
      have inside : ∀ text, (writeString key ++ text).head? ≠ some '}' := by
        intro text
        rw [writeString, List.cons_append, List.head?_cons]
        decide
      simp only [write, List.cons_append, List.append_assoc, List.nil_append, read, Char.reduceEq,
        ↓reduceIte, starts, if_neg (inside _), all, Option.map_some,
        Dict.ofList_entries _ distinct]

/-- `json.dumps`: byte strings are refused. -/
def dumps (value : Value) : Except Exn String :=
  if serializable value then .ok (String.ofList (write value)) else .error .TypeError

/-- `json.loads`: one value, white space around it and nothing else. -/
def loads (text : String) : Except Exn Value :=
  let text := skip text.toList
  match read (2 * text.length + 2) text with
  | some (value, rest) => if skip rest = [] then .ok value else .error .ValueError
  | none => .error .ValueError

end Json

/-- The `json` module with its default settings. -/
def json : JsonCodec := ⟨Json.dumps, Json.loads⟩

/-- A value that can be read from a JSON text holds no byte string. -/
theorem Json.serializable_of_isJson {value : Value} (valid : value.IsJson) :
    serializable value = true := by
  induction valid with
  | arr items each inductionHypothesis =>
    rw [serializable]
    clear each
    induction items with
    | nil => rfl
    | cons item items rest =>
      rw [serializableItems, inductionHypothesis item List.mem_cons_self, Bool.true_and]
      exact rest fun value member => inductionHypothesis value (List.mem_cons_of_mem _ member)
  | obj entries distinct each inductionHypothesis =>
    rw [serializable]
    clear each distinct
    induction entries with
    | nil => rfl
    | cons entry entries rest =>
      rw [serializableEntries, inductionHypothesis entry List.mem_cons_self, Bool.true_and]
      exact rest fun other member => inductionHypothesis other (List.mem_cons_of_mem _ member)
  | _ => rfl

/-- Loading undoes dumping. -/
theorem json_faithful : json.Faithful where
  loads_dumps value valid := by
    refine ⟨String.ofList (Json.write value), ?_, ?_⟩
    · exact if_pos (Json.serializable_of_isJson valid)
    · have starts := (Json.begins_write value valid).skip
      have back := Json.readsBack valid (2 * (Json.write value).length + 2) [] (by omega)
        (by intro _ head; cases head)
      rw [List.append_nil] at back
      simp only [json, Json.loads, String.toList_ofList, starts, back]
      rfl

end QChat
