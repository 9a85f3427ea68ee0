import Mathlib

/-!
# Vectors over the two-element field

Bit vectors as lists, with addition, weight and distance, the positions of their
ones, and the product with a parity-check matrix. `number` reads a vector as a
natural number; it turns addition into exclusive or, so that a statement about
all light vectors can be checked on numbers.

Nothing here refers to a particular code.
-/

namespace QChat

/-- A bit. Addition and multiplication are modulo two. -/
abbrev Bit := Fin 2

instance bit_neZero : NeZero (2 : Nat) := ⟨by decide⟩

namespace Bits

/-- Componentwise sum. -/
def add (left right : List Bit) : List Bit := List.zipWith (· + ·) left right

/-- The number of ones. -/
def weight (bits : List Bit) : Nat := bits.countP (· = 1)

/-- The number of positions at which two vectors differ. -/
def distance (left right : List Bit) : Nat :=
  (List.zip left right).countP (fun pair => pair.1 ≠ pair.2)

/-- Inner product. -/
def dot (row bits : List Bit) : Bit := (List.zipWith (· * ·) row bits).sum

/-- Product of a matrix, given by its rows, with a vector. -/
def apply (rows : List (List Bit)) (bits : List Bit) : List Bit := rows.map (dot · bits)

/-- The vector of the given length with ones at exactly the given positions. -/
def indicator (length : Nat) (positions : List Nat) : List Bit :=
  (List.range length).map (fun position => if position ∈ positions then 1 else 0)

/-- The positions of the ones, in increasing order. -/
def support (bits : List Bit) : List Nat :=
  (List.range bits.length).filter (fun position => bits[position]? = some 1)

/-- A vector as a number, its first bit least significant. -/
def number : List Bit → Nat
  | [] => 0
  | bit :: rest => bit.val + 2 * number rest

@[simp] theorem add_length (left right : List Bit) :
    (add left right).length = min left.length right.length := List.length_zipWith

@[simp] theorem apply_length (rows : List (List Bit)) (bits : List Bit) :
    (apply rows bits).length = rows.length := List.length_map _

@[simp] theorem indicator_length (length : Nat) (positions : List Nat) :
    (indicator length positions).length = length := by simp [indicator]

theorem add_swap (left right : List Bit) : add left right = add right left := by
  have swaps : ∀ one two : Bit, one + two = two + one := by decide
  exact List.zipWith_comm_of_comm swaps

/-- Adding a vector twice changes nothing: every bit is its own negative. -/
theorem add_cancel (left right : List Bit) (width : left.length = right.length) :
    add left (add left right) = right := by
  induction left generalizing right with
  | nil =>
    cases right with
    | nil => rfl
    | cons bit rest => simp at width
  | cons bit rest inductionHypothesis =>
    cases right with
    | nil => simp at width
    | cons other tail =>
      have tailWidth : rest.length = tail.length := Nat.succ.inj width
      have head : ∀ one two : Bit, one + (one + two) = two := by decide
      have tails := inductionHypothesis tail tailWidth
      simp only [add, List.zipWith_cons_cons, head] at tails ⊢
      rw [tails]

/-- The sum has its ones where the vectors differ. -/
theorem weight_add (left right : List Bit) : weight (add left right) = distance left right := by
  induction left generalizing right with
  | nil => simp [weight, add, distance]
  | cons bit rest inductionHypothesis =>
    cases right with
    | nil => simp [weight, add, distance]
    | cons other tail =>
      have tails := inductionHypothesis tail
      have head : ∀ one two : Bit, one + two = 1 ↔ one ≠ two := by decide
      simp only [weight, add, distance, List.zipWith_cons_cons, List.zip_cons_cons,
        List.countP_cons, head, decide_eq_true_eq] at tails ⊢
      rw [tails]

@[simp] theorem distance_self (bits : List Bit) : distance bits bits = 0 := by
  induction bits with
  | nil => rfl
  | cons bit rest inductionHypothesis =>
    simp only [distance] at inductionHypothesis
    simp only [distance, List.zip_cons_cons, List.countP_cons, inductionHypothesis, ne_eq,
      not_true_eq_false, decide_false, Bool.false_eq_true, ↓reduceIte]

theorem dot_add (row left right : List Bit) (width : left.length = right.length) :
    dot row (add left right) = dot row left + dot row right := by
  induction row generalizing left right with
  | nil => simp [dot]
  | cons entry row inductionHypothesis =>
    cases left with
    | nil =>
      obtain rfl : right = [] := List.eq_nil_of_length_eq_zero width.symm
      simp [dot, add]
    | cons bit rest =>
      cases right with
      | nil => simp at width
      | cons other tail =>
        have tails := inductionHypothesis rest tail (Nat.succ.inj width)
        simp only [dot, add, List.zipWith_cons_cons, List.sum_cons] at tails ⊢
        rw [tails]
        have distributes : ∀ factor one two sum total : Bit,
            factor * (one + two) + (sum + total) =
              factor * one + sum + (factor * two + total) := by decide
        exact distributes _ _ _ _ _

/-- The matrix product is linear. -/
theorem apply_add (rows : List (List Bit)) (left right : List Bit)
    (width : left.length = right.length) :
    apply rows (add left right) = add (apply rows left) (apply rows right) := by
  induction rows with
  | nil => rfl
  | cons row rest inductionHypothesis =>
    simp only [apply, add, List.map_cons, List.zipWith_cons_cons] at inductionHypothesis ⊢
    rw [inductionHypothesis]
    exact congrArg (· :: _) (dot_add row left right width)

/-- Vectors of one length are determined by their numbers. -/
theorem number_injective (left right : List Bit) (width : left.length = right.length)
    (same : number left = number right) : left = right := by
  induction left generalizing right with
  | nil =>
    cases right with
    | nil => rfl
    | cons bit rest => simp at width
  | cons bit rest inductionHypothesis =>
    cases right with
    | nil => simp at width
    | cons other tail =>
      have bitBound := bit.isLt
      have otherBound := other.isLt
      simp only [number] at same
      have heads : bit = other := Fin.ext (by omega)
      have tails := inductionHypothesis tail (Nat.succ.inj width) (by omega)
      rw [heads, tails]

theorem number_bound (bits : List Bit) : number bits < 2 ^ bits.length := by
  induction bits with
  | nil => decide
  | cons bit rest inductionHypothesis =>
    have bound := bit.isLt
    simp only [number, List.length_cons, Nat.pow_succ]
    omega

/-- Addition of vectors is exclusive or of their numbers. -/
theorem number_add (left right : List Bit) (width : left.length = right.length) :
    number (add left right) = number left ^^^ number right := by
  induction left generalizing right with
  | nil =>
    obtain rfl : right = [] := List.eq_nil_of_length_eq_zero width.symm
    rfl
  | cons bit rest inductionHypothesis =>
    cases right with
    | nil => simp at width
    | cons other tail =>
      have tails := inductionHypothesis tail (Nat.succ.inj width)
      change (bit + other).val + 2 * number (add rest tail) =
        (bit.val + 2 * number rest) ^^^ (other.val + 2 * number tail)
      rw [tails]
      have bitBound := bit.isLt
      have otherBound := other.isLt
      have low : ((bit.val + 2 * number rest) ^^^ (other.val + 2 * number tail)) % 2 =
          (bit + other).val := by
        rw [Nat.xor_mod_two_eq, Fin.val_add]
        omega
      have high : ((bit.val + 2 * number rest) ^^^ (other.val + 2 * number tail)) / 2 =
          number rest ^^^ number tail := by
        rw [Nat.xor_div_two]
        congr 1 <;> omega
      omega

theorem indicator_congr (length : Nat) (left right : List Nat)
    (same : ∀ position, position ∈ left ↔ position ∈ right) :
    indicator length left = indicator length right := by
  simp [indicator, same]

/-- A new position is one more summand. -/
theorem indicator_cons (length position : Nat) (positions : List Nat)
    (absent : position ∉ positions) :
    indicator length (position :: positions) =
      add (indicator length [position]) (indicator length positions) := by
  apply List.ext_getElem
  · simp
  · intro index bounded _
    simp only [indicator, add, List.getElem_map, List.getElem_range, List.getElem_zipWith,
      List.mem_cons, List.not_mem_nil, or_false]
    by_cases here : index = position
    · subst here
      simp [absent]
    · simp [here]

/-- Every vector is the indicator of its support. -/
theorem indicator_support (bits : List Bit) : indicator bits.length (support bits) = bits := by
  apply List.ext_getElem
  · simp
  · intro index _ bounded
    have two : ∀ bit : Bit, bit = 0 ∨ bit = 1 := by decide
    obtain zero | one := two bits[index]
    · simp [indicator, support, bounded, zero]
    · simp [indicator, support, bounded, one]

/-- The support is listed in increasing order. -/
theorem support_increasing (bits : List Bit) : (support bits).Pairwise (· < ·) :=
  List.Pairwise.filter _ List.pairwise_lt_range

theorem support_bound (bits : List Bit) (position : Nat) (member : position ∈ support bits) :
    position < bits.length := by
  simpa using (List.mem_filter.mp member).1

/-- There is one position in the support for each one. -/
theorem support_length (bits : List Bit) : (support bits).length = weight bits := by
  have listed : bits = (List.range bits.length).map (fun position => bits.getD position 0) := by
    apply List.ext_getElem
    · simp
    · intro index bounded _
      simp [bounded]
  unfold weight
  conv_rhs => rw [listed]
  rw [List.countP_map, support, ← List.countP_eq_length_filter]
  apply List.countP_congr
  intro position member
  have bounded : position < bits.length := by simpa using member
  simp [bounded]

/-- Check that no number occurs twice, with the numbers seen so far as the bits
of `seen`. -/
def distinctFrom (seen : Nat) : List Nat → Bool
  | [] => true
  | value :: rest => !seen.testBit value && distinctFrom (seen ||| 1 <<< value) rest

/-- The check accepts only lists without repetition that avoid what was seen. -/
theorem distinctFrom_sound (seen : Nat) (values : List Nat)
    (checked : distinctFrom seen values = true) :
    values.Nodup ∧ ∀ value ∈ values, seen.testBit value = false := by
  induction values generalizing seen with
  | nil => simp
  | cons value rest inductionHypothesis =>
    simp only [distinctFrom, Bool.and_eq_true, Bool.not_eq_true'] at checked
    obtain ⟨restNodup, restFresh⟩ := inductionHypothesis _ checked.2
    have fresh : ∀ other ∈ rest, seen.testBit other = false ∧ other ≠ value := by
      intro other member
      have bit := restFresh other member
      simp only [Nat.testBit_or, Bool.or_eq_false_iff] at bit
      refine ⟨bit.1, ?_⟩
      rintro rfl
      simp [Nat.testBit_shiftLeft] at bit
    refine ⟨List.nodup_cons.mpr ⟨fun member => (fresh value member).2 rfl, restNodup⟩, ?_⟩
    intro other member
    obtain rfl | member := List.mem_cons.mp member
    · exact checked.1
    · exact (fresh other member).1

end Bits

end QChat
