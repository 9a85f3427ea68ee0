import QChat.Bits
import QChat.Dict
import QChat.Exceptions

/-!
# Linear codes

Syndrome coding as `ecc.py` computes it. A codeword is corrected with the help of
the syndrome of the word it should equal: the sum of that syndrome and the
word's own is the key under which the error is listed. The Golay table is filled
by the three nested loops of the constructor, in their order, each store
replacing what was stored under the same key before.

Matrices and vectors have entries 0 and 1, and every product and sum is reduced
modulo two before it is used, so entries are bits.
-/

namespace QChat

open Bits

/-- Golay matrix for error correction. -/
def H_Golay : List (List Bit) :=
  [[1, 0, 0, 1, 1, 1, 0, 0, 0, 1, 1, 1, 1, 0, 0, 0, 0, 0, 0, 0, 0, 0, 0],
   [1, 0, 1, 0, 1, 1, 0, 1, 1, 0, 0, 1, 0, 1, 0, 0, 0, 0, 0, 0, 0, 0, 0],
   [1, 0, 1, 1, 0, 1, 1, 0, 1, 0, 1, 0, 0, 0, 1, 0, 0, 0, 0, 0, 0, 0, 0],
   [1, 0, 1, 1, 1, 0, 1, 1, 0, 1, 0, 0, 0, 0, 0, 1, 0, 0, 0, 0, 0, 0, 0],
   [1, 1, 0, 0, 1, 1, 1, 0, 1, 1, 0, 0, 0, 0, 0, 0, 1, 0, 0, 0, 0, 0, 0],
   [1, 1, 0, 1, 0, 1, 1, 1, 0, 0, 0, 1, 0, 0, 0, 0, 0, 1, 0, 0, 0, 0, 0],
   [1, 1, 0, 1, 1, 0, 0, 1, 1, 0, 1, 0, 0, 0, 0, 0, 0, 0, 1, 0, 0, 0, 0],
   [1, 1, 1, 0, 0, 1, 0, 1, 0, 1, 1, 0, 0, 0, 0, 0, 0, 0, 0, 1, 0, 0, 0],
   [1, 1, 1, 0, 1, 0, 1, 0, 0, 0, 1, 1, 0, 0, 0, 0, 0, 0, 0, 0, 1, 0, 0],
   [1, 1, 1, 1, 0, 0, 0, 0, 1, 1, 0, 1, 0, 0, 0, 0, 0, 0, 0, 0, 0, 1, 0],
   [0, 1, 1, 1, 1, 1, 1, 1, 1, 1, 1, 1, 0, 0, 0, 0, 0, 0, 0, 0, 0, 0, 1]]

/-- A vector takes the given shape only if it has that many entries. -/
def reshape (length : Nat) (v : List Bit) : Except Exn (List Bit) :=
  if v.length = length then .ok v else .error .ValueError

/-- Calculates the syndrome string given a matrix and codeword. The result is
given the shape of a Golay syndrome. -/
def getSyndrome (H : List (List Bit)) (v : List Bit) : Except Exn (List Bit) :=
  if ∀ row ∈ H, row.length = v.length then reshape 11 (apply H v) else .error .ValueError

/-- A zero vector of the given length with a one `position` places from its end. -/
def eVect (length position : Nat) : List Bit :=
  (List.replicate length 0).set (length - position) 1

/-- The attributes of an `ECC` object: the length of its codewords, its parity matrix, and the
table from syndromes to errors that the constructor fills. -/
structure ECC where
  codeword_length : Nat
  H : List (List Bit)
  dict_H : Dict (List Bit) (List Bit)

/-- How Python writes a tuple of bits. -/
def tupleText (bits : List Bit) : String :=
  "(" ++ ", ".intercalate (bits.map (fun bit => toString bit.val)) ++ ")"

/-- The sum of a row of integers and a syndrome, modulo two. Rows of one length
are added entry by entry, a single integer is added to every entry. The integers of a
received row are taken as they are, also from `2 ^ 63` on, where an array may round them:
no encoder sends such a row. -/
def addModTwo (s : List Int) (s_hat : List Bit) : Except Exn (List Bit) :=
  let bits := s.map (fun (entry : Int) => Fin.ofNat 2 (entry % 2).toNat)
  if bits.length = s_hat.length then .ok (add bits s_hat)
  else match bits with
    | [bit] => .ok (add (List.replicate s_hat.length bit) s_hat)
    | _ => .error .ValueError

namespace ECC

/-- Chunks a list into the object's codeword length, the last chunk possibly
shorter: one slice for each multiple of the codeword length below the length. -/
def chunk (self : ECC) (x : List Bit) : List (List Bit) :=
  (List.range ((x.length + self.codeword_length - 1) / self.codeword_length)).map
    (fun i => (x.drop (i * self.codeword_length)).take self.codeword_length)

/-- Encodes a codeword into its syndrome. -/
def encode (self : ECC) (x : List Bit) : Except Exn (List Bit) := do
  let v ← reshape self.codeword_length x
  getSyndrome self.H v

/-- Corrects errors in the codeword `x` using the syndrome `s` of the original. -/
def decode (self : ECC) (x : List Bit) (s : List Int) : Except Exn (List Bit) := do
  let xm ← reshape self.codeword_length x
  let s_hat ← getSyndrome self.H xm
  let cs ← addModTwo s s_hat
  match self.dict_H.get? cs with
  | none => .error (.KeyError (tupleText cs))
  | some em => .ok (add xm em)

/-- Store an error under its syndrome. -/
def store (self : ECC) (error : List Bit) : Except Exn ECC := do
  let s ← self.encode error
  return { self with dict_H := self.dict_H.set s error }

end ECC

/-- Initializes the Golay error correcting code: the zero error first, then for
every position the single error, the double errors that extend it and the triple
errors that extend those. -/
def ECC_Golay.init : Except Exn ECC := do
  let self : ECC := ⟨23, H_Golay, Dict.empty.set (List.replicate 11 0) (List.replicate 23 0)⟩
  (List.range' 1 23).foldlM (fun self i => do
    let vi := eVect 23 i
    let self ← self.store vi
    (List.range' (i + 1) (23 - i)).foldlM (fun self j => do
      let v_ij := add vi (eVect 23 j)
      let self ← self.store v_ij
      (List.range' (j + 1) (23 - j)).foldlM (fun self k => do
        let v_ijk := add v_ij (eVect 23 k)
        self.store v_ijk) self) self) self

end QChat
