import QChat.Golay

/-!
# The Hamming code

`ECC_Hamming` shares everything but its matrix and its table with the Golay code.
Its constructor stores the table's entries under arrays, which cannot be keys of a
dictionary, and the shape that a syndrome is given is that of the Golay code. So
there is no Hamming object, and one with any table could not encode a word.
-/

namespace QChat

open Bits

/-- Hamming matrix for error correction. -/
def H_Hamming : List (List Bit) :=
  [[1, 0, 1, 0, 1, 0, 1],
   [0, 1, 1, 0, 0, 1, 1],
   [0, 0, 0, 1, 1, 1, 1]]

/-- What is put between the brackets of a dictionary. -/
inductive Key where
  | tuple (entries : List Bit)
  | ndarray (entries : List Bit)

/-- `self.dict_H[key] = error`: only a tuple has a hash. -/
def ECC.setItem (self : ECC) (key : Key) (error : List Bit) : Except Exn ECC :=
  match key with
  | .tuple s => .ok { self with dict_H := self.dict_H.set s error }
  | .ndarray _ => .error .TypeError

/-- `getSyndrome` of a vector that is still a row: the product exists only for a matrix
of one column. -/
def getSyndromeOfRow (H : List (List Bit)) (v : List Bit) : Except Exn (List Bit) :=
  if ∀ row ∈ H, row.length = 1 then
    reshape 11 (H.flatMap fun row => v.map fun entry => row.headD 0 * entry)
  else .error .ValueError

/-- Initializes the Hamming error correcting code: the zero error, then the errors of
one bit. -/
def ECC_Hamming.init : Except Exn ECC := do
  let self : ECC := ⟨7, H_Hamming, Dict.empty⟩
  let s := Key.ndarray (List.replicate 3 0)
  let self ← self.setItem s (List.replicate 7 0)
  (List.range' 1 23).foldlM (fun self i => do
    let vi := eVect 23 i
    let s ← getSyndromeOfRow H_Golay vi
    self.setItem (.ndarray s) vi) self

/-- Decodes each chunk of `y` with the syndrome of the chunk of `x`, and puts the results
together. -/
def ECC.correctChunks (self : ECC) (x y : List Bit) : Except Exn (List Bit) := do
  let words ← ((self.chunk x).zip (self.chunk y)).mapM fun (original, received) => do
    let s ← self.encode original
    self.decode received (integers s)
  return words.flatten

/-- There is a Hamming object, and it gives `x` back. -/
def HammingCorrects (x y : List Bit) : Prop :=
  ∃ self, ECC_Hamming.init = .ok self ∧ self.correctChunks x y = .ok x

theorem hamming_init : ECC_Hamming.init = .error .TypeError := rfl

/-- With any table: a syndrome of three bits is refused. -/
theorem hamming_encode (dict_H : Dict (List Bit) (List Bit)) (word : List Bit)
    (width : word.length = 7) :
    (⟨7, H_Hamming, dict_H⟩ : ECC).encode word = .error .ValueError := by
  have shape : reshape 7 word = .ok word := by rw [reshape, if_pos width]
  have rows : ∀ row ∈ H_Hamming, row.length = word.length := by
    rw [width]
    decide
  have three : (apply H_Hamming word).length = 3 := apply_length H_Hamming word
  have refused : reshape 11 (apply H_Hamming word) = .error .ValueError := by
    rw [reshape, three]
    rfl
  simp only [ECC.encode, shape, ok_bind, getSyndrome, if_pos rows, refused]

/-- The Hamming code corrects nothing: no object can be constructed, as its table would need a
row as a key, and an object with its matrix and any table cannot encode a word, as a syndrome is
given the shape of a Golay syndrome. -/
theorem hamming_never (x y : List Bit) :
    ¬ HammingCorrects x y ∧
    ∀ dict_H word, word.length = 7 →
      (⟨7, H_Hamming, dict_H⟩ : ECC).encode word = .error .ValueError := by
  refine ⟨?_, hamming_encode⟩
  rintro ⟨self, constructed, _⟩
  rw [hamming_init] at constructed
  cases constructed

/-- Not even two equal words are reconciled. -/
theorem hamming_zero_word :
    ¬ HammingCorrects (List.replicate 7 0) (List.replicate 7 0) := by
  rintro ⟨self, constructed, _⟩
  cases constructed

end QChat
