import QChat.BB84Agreement
import QChat.Calls

/-!
# What reconciliation computes

`_reconcile_information` on both sides, as a function of the two lists. The
follower cannot tell how far its codeword is from the leader's. It finds the one
word that has the leader's syndrome and is close to its own codeword, and that is
the leader's codeword exactly if this one is close.
-/

namespace QChat

open Bits

/-- A vector with ones at some positions has no more ones than there are positions. -/
theorem weight_indicator (length : Nat) (positions : List Nat) :
    weight (indicator length positions) ≤ positions.length := by
  have ones : weight (indicator length positions) =
      ((List.range length).filter (· ∈ positions)).length := by
    rw [weight, indicator, List.countP_map, List.countP_eq_length_filter]
    congr 1
    apply List.filter_congr
    intro position _
    by_cases member : position ∈ positions <;> simp [member]
  rw [ones]
  refine (List.subperm_of_subset (List.nodup_range.filter _) ?_).length_le
  intro position member
  simpa using (List.mem_filter.mp member).2

/-- Every entry of the table is an error of at most three bits, under its syndrome. -/
theorem golay_entry (key error : List Bit) (entry : ECC_Golay.dict_H.get? key = some error) :
    apply H_Golay error = key ∧ error.length = 23 ∧ weight error ≤ 3 := by
  rw [Dict.get?_eq_some, golay_entries] at entry
  obtain ⟨listed, member, same⟩ := List.mem_map.mp entry
  obtain ⟨positions, visited, rfl⟩ := List.mem_map.mp member
  cases same
  refine ⟨rfl, errorVector_length positions, ?_⟩
  have few := ((mem_errorPositions positions).mp visited).1
  have most := weight_indicator 23 (positions.map (fun position => 23 - position))
  rw [List.length_map] at most
  exact most.trans few

/-- What correction makes of a word: the word with the given syndrome at distance at most
three. -/
theorem golay_decode_iff (x original : List Bit) (width : x.length = 23)
    (word : List Bit) (wordWidth : word.length = 23) :
    ECC_Golay.decode x (integers (apply H_Golay original)) = .ok word ↔
      apply H_Golay word = apply H_Golay original ∧ distance word x ≤ 3 := by
  constructor
  · intro decoded
    obtain ⟨error, entry, found⟩ :=
      golay_decode_lookup x (apply H_Golay original) width (apply_length H_Golay original)
    obtain ⟨syndrome, errorWidth, light⟩ := golay_entry _ error entry
    obtain rfl : add x error = word := Except.ok.inj (found.symm.trans decoded)
    have same : x.length = error.length := by rw [width, errorWidth]
    constructor
    · rw [apply_add H_Golay x error same, syndrome, add_swap (apply H_Golay original),
        add_cancel _ _ (by rw [apply_length, apply_length])]
    · rw [← weight_add, add_swap, add_cancel x error same]
      exact light
  · rintro ⟨syndrome, near⟩
    rw [← syndrome]
    exact golay_decode_light word x wordWidth width near

/-- The codeword at a place of a list. -/
def block (x : List Bit) (i : Nat) : List Bit := (x.drop (i * 23)).take 23

theorem block_length (x : List Bit) (i : Nat) (whole : i < x.length / 23) :
    (block x i).length = 23 := by
  rw [block, List.length_take, List.length_drop]
  omega

/-- The blocks of blocks that have been put together. -/
theorem block_flatten (words : List (List Bit)) (width : ∀ word ∈ words, word.length = 23)
    (i : Nat) (inside : i < words.length) : block words.flatten i = words[i] := by
  induction words generalizing i with
  | nil => cases inside
  | cons word rest inductionHypothesis =>
    have whole : word.length = 23 := width word List.mem_cons_self
    have others : ∀ word ∈ rest, word.length = 23 := fun other member =>
      width other (List.mem_cons_of_mem word member)
    cases i with
    | zero =>
      rw [block, List.flatten_cons, Nat.zero_mul, List.drop_zero,
        List.take_append_of_le_length (by omega), List.take_of_length_le (by omega),
        List.getElem_cons_zero]
    | succ i =>
      have skipped : (i + 1) * 23 = word.length + i * 23 := by omega
      rw [block, List.flatten_cons, skipped, List.drop_length_add_append, List.getElem_cons_succ]
      exact inductionHypothesis others i (Nat.lt_of_succ_lt_succ inside)

/-- What the two results of a reconciliation are. The follower's word for a codeword is
the only one with the leader's syndrome that is near its own. -/
structure Reconciliation (x : Side → List Bit) (results : Side → List Bit × List Bit) : Prop where
  leftovers : ∀ side, (results side).1 <:+ x side ∧
    (results side).1.length = (x .lead).length % 23
  lengths : ∀ side, (results side).2.length = 23 * ((x .lead).length / 23)
  lead : (results .lead).2 = (x .lead).take (23 * ((x .lead).length / 23))
  follow : ∀ i < (x .lead).length / 23, ∀ word, word.length = 23 →
    (word = block (results .follow).2 i ↔
      ECC_Golay.encode word = ECC_Golay.encode (block (x .lead) i) ∧
        distance word (block (x .follow) i) ≤ 3)
  corrects : ∀ i < (x .lead).length / 23,
    (block (results .follow).2 i = block (x .lead) i ↔
      distance (block (x .lead) i) (block (x .follow) i) ≤ 3)

variable {x : Side → List Bit}

/-- The codewords that are reconciled. -/
theorem codewords_block (i : Nat) (inside : i < (codewords x).length) :
    (codewords x)[i] = fun side => block (x side) i := by
  simp only [codewords, List.getElem_map, List.getElem_range, block]

/-- The reconciled bits consist of the corrected codewords. -/
theorem reconciledBits_block (same : ∀ side, (x side).length = (x .lead).length) (side : Side)
    (i : Nat) (inside : i < (x .lead).length / 23) :
    block (reconciledBits x side) i = corrected (fun party => block (x party) i) side := by
  have count : (codewords x).length = (x .lead).length / 23 := by
    simp only [codewords, List.length_map, List.length_range]
  have width : ∀ word ∈ (codewords x).map (fun codeword => corrected codeword side),
      word.length = 23 := by
    intro word member
    obtain ⟨codeword, listed, rfl⟩ := List.mem_map.mp member
    exact (corrected_ok codeword side (codewords_length x same codeword listed)).2
  have here := block_flatten _ width i (by rwa [List.length_map, count])
  rw [List.getElem_map] at here
  rw [reconciledBits, List.flatMap_def, here, codewords_block]

/-- The results of a reconciliation of lists of one length. -/
theorem reconciliation_results (same : ∀ side, (x side).length = (x .lead).length) :
    Reconciliation x (fun side => (leftover (x side), reconciledBits x side)) := by
  have whole (side : Side) (i : Nat) (inside : i < (x .lead).length / 23) :
      (block (x side) i).length = 23 := block_length (x side) i (by rwa [same side])
  have length (side : Side) : (reconciledBits x side).length = 23 * ((x .lead).length / 23) := by
    rw [reconciledBits_length x side same, Nat.mul_comm]
  -- What the follower's correction returns is the word it is the only one to return.
  have follow (i : Nat) (inside : i < (x .lead).length / 23) (word : List Bit)
      (width : word.length = 23) :
      word = block (reconciledBits x .follow) i ↔
        apply H_Golay word = apply H_Golay (block (x .lead) i) ∧
          distance word (block (x .follow) i) ≤ 3 := by
    have decoded := (corrected_ok (fun party => block (x party) i) .follow
      (fun side => whole side i inside)).1
    rw [← golay_decode_iff _ _ (whole .follow i inside) word width, decoded, Except.ok.injEq,
      reconciledBits_block same .follow i inside]
    exact eq_comm
  refine ⟨?_, length, ?_, ?_, ?_⟩
  · intro side
    refine ⟨List.drop_suffix _ _, ?_⟩
    rw [leftover, List.length_drop, same side]
    omega
  · rw [reconciledBits_lead x same, Nat.mul_comm]
  · intro i inside word width
    rw [golay_encode word width, golay_encode _ (whole .lead i inside), Except.ok.injEq]
    exact follow i inside word width
  · intro i inside
    rw [eq_comm, follow i inside _ (whole .lead i inside)]
    exact and_iff_right rfl

/-- Reconciliation never fails. In every run both sides return, with these results; the table
that is used is the one the constructor fills, and has an entry for every syndrome.

Proof: the code is perfect. Its 2048 errors of at most three places have different syndromes,
and there are no other syndromes, so no lookup misses; and the entry that is found is the
difference of the two codewords if that is light. -/
theorem reconciliation_exact (parties : Parties) (x : Side → List Bit)
    (same : ∀ side, (x side).length = (x .lead).length) :
    ECC_Golay.init = .ok ECC_Golay ∧ (∀ s, s.length = 11 → s ∈ ECC_Golay.dict_H.keys) ∧
    Duet.BothReturn
      (fun side => BB84_Purified._reconcile_information (parties.endpoint side) (x side))
      (Reconciliation x) := by
  refine ⟨golay_init, golay_total, ?_⟩
  have runs := Together._reconcile_information parties x same
  refine (runs.weaken fun results found => ?_).bothReturn
  obtain rfl := funext found
  exact reconciliation_results same

theorem reconciliation_exact_ones :
    ECC_Golay.init = .ok ECC_Golay ∧ (∀ s, s.length = 11 → s ∈ ECC_Golay.dict_H.keys) ∧
    Duet.BothReturn
      (fun side => BB84_Purified._reconcile_information
        ((sampleSession codewordError 0).endpoint side)
        (Side.select (List.replicate 50 1) (List.replicate 50 0) side))
      (Reconciliation (Side.select (List.replicate 50 1) (List.replicate 50 0))) :=
  reconciliation_exact (sampleSession codewordError 0) _ fun side => by cases side <;> rfl

end QChat
