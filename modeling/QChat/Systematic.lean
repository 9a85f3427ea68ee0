import QChat.Bits

/-!
# Parity checks in systematic form

A parity-check matrix is systematic if its last columns are the identity. For every
choice of the first bits and every syndrome there is then exactly one word: a syndrome
says nothing about the first bits.

Nothing here refers to a particular code.
-/

namespace QChat

namespace Bits

/-- The identity matrix. -/
def identity (size : Nat) : List (List Bit) :=
  (List.range size).map fun place =>
    List.replicate place 0 ++ 1 :: List.replicate (size - 1 - place) 0

/-- A matrix with the identity of the given size in its last columns. The last entries of a word
can then be chosen to give it any syndrome. -/
structure Systematic (rows : List (List Bit)) (width : Nat) : Prop where
  identity : rows.map (List.drop width) = identity rows.length
  wide : ∀ row ∈ rows, width ≤ row.length

theorem dot_zeros (count : Nat) (bits : List Bit) : dot (List.replicate count 0) bits = 0 := by
  induction count generalizing bits with
  | zero => rfl
  | succ count inductionHypothesis =>
    cases bits with
    | nil => rfl
    | cons bit rest =>
      have tails := inductionHypothesis rest
      simp only [dot, List.replicate_succ, List.zipWith_cons_cons, List.sum_cons] at tails ⊢
      rw [tails]
      have zero : ∀ one : Bit, 0 * one + 0 = 0 := by decide
      exact zero bit

/-- A row of the identity picks one bit. -/
theorem dot_unit (place behind : Nat) (bits : List Bit) (inside : place < bits.length) :
    dot (List.replicate place 0 ++ 1 :: List.replicate behind 0) bits = bits[place] := by
  induction place generalizing bits with
  | zero =>
    cases bits with
    | nil => cases inside
    | cons bit rest =>
      have tails := dot_zeros behind rest
      simp only [dot, List.replicate_zero, List.nil_append, List.zipWith_cons_cons, List.sum_cons,
        List.getElem_cons_zero] at tails ⊢
      rw [tails]
      have one : ∀ other : Bit, 1 * other + 0 = other := by decide
      exact one bit
  | succ place inductionHypothesis =>
    cases bits with
    | nil => cases inside
    | cons bit rest =>
      have tails := inductionHypothesis rest (Nat.lt_of_succ_lt_succ inside)
      simp only [dot, List.replicate_succ, List.cons_append, List.zipWith_cons_cons,
        List.sum_cons, List.getElem_cons_succ] at tails ⊢
      rw [tails]
      have zero : ∀ one other : Bit, 0 * one + other = other := by decide
      exact zero bit _

theorem apply_identity (bits : List Bit) : apply (identity bits.length) bits = bits := by
  apply List.ext_getElem
  · simp only [apply_length, identity, List.length_map, List.length_range]
  · intro place bounded inside
    simp only [apply, identity, List.getElem_map, List.getElem_range]
    exact dot_unit place _ bits inside

/-- The inner product goes through two vectors part by part. -/
theorem dot_append (row front tail : List Bit) (wide : front.length ≤ row.length) :
    dot row (front ++ tail) =
      dot (row.take front.length) front + dot (row.drop front.length) tail := by
  induction front generalizing row with
  | nil =>
    have zero : ∀ one : Bit, one = 0 + one := by decide
    simpa only [dot, List.length_nil, List.take_zero, List.drop_zero, List.nil_append,
      List.zipWith_nil_right, List.sum_nil] using zero _
  | cons bit front inductionHypothesis =>
    cases row with
    | nil => simp at wide
    | cons entry row =>
      have tails := inductionHypothesis row (Nat.le_of_succ_le_succ wide)
      simp only [dot, List.length_cons, List.take_succ_cons, List.drop_succ_cons,
        List.cons_append, List.zipWith_cons_cons, List.sum_cons] at tails ⊢
      rw [tails]
      have associates : ∀ one two three : Bit, one + (two + three) = one + two + three := by decide
      exact associates _ _ _

variable {rows : List (List Bit)}

/-- The syndrome of a word is that of its first bits, plus the others. -/
theorem apply_systematic {front tail : List Bit} (systematic : Systematic rows front.length)
    (width : tail.length = rows.length) :
    apply rows (front ++ tail) = add (apply (rows.map (List.take front.length)) front) tail := by
  have parts : apply rows (front ++ tail) =
      add (apply (rows.map (List.take front.length)) front)
        (apply (rows.map (List.drop front.length)) tail) := by
    simp only [apply, add, List.map_map, List.zipWith_map, List.zipWith_self]
    refine List.map_congr_left fun row member => ?_
    exact dot_append row front tail (systematic.wide row member)
  rw [parts, systematic.identity, ← width, apply_identity]

/-- For every choice of the first bits exactly one word has the syndrome. -/
theorem Systematic.completes {front : List Bit} (systematic : Systematic rows front.length)
    (syndrome : List Bit) (width : syndrome.length = rows.length) :
    ∃! tail, tail.length = rows.length ∧ apply rows (front ++ tail) = syndrome := by
  have short : (apply (rows.map (List.take front.length)) front).length = rows.length := by
    rw [apply_length, List.length_map]
  refine ⟨add (apply (rows.map (List.take front.length)) front) syndrome, ⟨?_, ?_⟩, ?_⟩
  · rw [add_length, short, width, Nat.min_self]
  · rw [apply_systematic systematic (by rw [add_length, short, width, Nat.min_self])]
    exact add_cancel _ _ (by rw [short, width])
  · rintro tail ⟨length, same⟩
    rw [apply_systematic systematic length] at same
    rw [← same]
    exact (add_cancel _ _ (by rw [short, length])).symm

end Bits

end QChat
