import Mathlib.Data.Finset.Card
import QChat.Ecc

/-!
# The Golay table

The constructor of `ECC_Golay` stores every error of weight at most three under
its syndrome. The 2048 syndromes are distinct, so no store replaces another one,
and there is no further syndrome: the table is total and lists each light error
under its own syndrome. Distinctness is checked on numbers, since the syndrome
of an error is the exclusive or of the columns at its positions.

Two consequences are used elsewhere: correction never fails, and a word at
distance at most three from the original is corrected to it.
-/

namespace QChat

open Bits

/-- The error positions in the order in which the constructor visits them. -/
def errorPositions : List (List Nat) :=
  [] :: (List.range' 1 23).flatMap (fun i => [i] ::
    (List.range' (i + 1) (23 - i)).flatMap (fun j => [i, j] ::
      (List.range' (j + 1) (23 - j)).flatMap (fun k => [[i, j, k]])))

/-- The error with ones the given numbers of places from the end. -/
def errorVector (positions : List Nat) : List Bit :=
  indicator 23 (positions.map (fun position => 23 - position))

/-- A Golay object with the listed errors stored, each under its syndrome. -/
def storing (errors : List (List Bit)) : ECC where
  codeword_length := 23
  H := H_Golay
  dict_H := Dict.ofList (errors.map (fun error => (apply H_Golay error, error)))

/-- Golay error correcting code: the object the constructor builds. -/
def ECC_Golay : ECC := storing (errorPositions.map errorVector)

@[simp] theorem golay_codeword_length : ECC_Golay.codeword_length = 23 := rfl

@[simp] theorem errorVector_length (positions : List Nat) :
    (errorVector positions).length = 23 := indicator_length _ _

/-- A word of full length has a syndrome. -/
theorem getSyndrome_golay (v : List Bit) (width : v.length = 23) :
    getSyndrome H_Golay v = .ok (apply H_Golay v) := by
  have rows : ∀ row ∈ H_Golay, row.length = v.length := by
    rw [width]
    decide
  have shape : (apply H_Golay v).length = 11 := apply_length H_Golay v
  rw [getSyndrome, if_pos rows, reshape, if_pos shape]

/-- One store of the constructor. -/
theorem store_storing (errors : List (List Bit)) (error : List Bit) (width : error.length = 23) :
    (storing errors).store error = .ok (storing (errors ++ [error])) := by
  have shape : reshape 23 error = .ok error := by rw [reshape, if_pos width]
  have syndrome := getSyndrome_golay error width
  simp only [ECC.store, ECC.encode, storing, shape, syndrome, bind, Except.bind, pure, Except.pure,
    Dict.ofList, List.map_append, List.foldl_append, List.map_cons, List.map_nil, List.foldl_cons,
    List.foldl_nil]

/-- A loop whose passes store errors stores them all, in order. -/
theorem foldlM_storing (step : ECC → Nat → Except Exn ECC) (added : Nat → List (List Bit))
    (indices : List Nat) (errors : List (List Bit))
    (pass : ∀ index ∈ indices, ∀ errors,
      step (storing errors) index = .ok (storing (errors ++ added index))) :
    indices.foldlM step (storing errors) = .ok (storing (errors ++ indices.flatMap added)) := by
  induction indices generalizing errors with
  | nil => simp [pure, Except.pure]
  | cons index rest inductionHypothesis =>
    have first := pass index List.mem_cons_self errors
    have others := inductionHypothesis (errors ++ added index)
      (fun later member => pass later (List.mem_cons_of_mem index member))
    simp only [List.foldlM_cons, first, bind, Except.bind, others, List.flatMap_cons,
      List.append_assoc]

/-- A single error, `position` places from the end. -/
theorem eVect_eq (position : Nat) : eVect 23 position = errorVector [position] := by
  have general (length place : Nat) :
      (List.replicate length (0 : Bit)).set place 1 = indicator length [place] := by
    apply List.ext_getElem
    · simp
    · intro index bounded _
      simp only [indicator, List.getElem_set, List.getElem_map, List.getElem_range,
        List.getElem_replicate, List.mem_singleton, eq_comm]
  exact general 23 (23 - position)

theorem add_eVect (positions : List Nat) (position : Nat)
    (absent : 23 - position ∉ positions.map (fun position => 23 - position)) :
    add (errorVector positions) (eVect 23 position) = errorVector (positions ++ [position]) := by
  rw [eVect_eq, add_swap]
  change add (indicator 23 [23 - position]) (indicator 23 _) = _
  rw [← indicator_cons 23 (23 - position) _ absent]
  apply indicator_congr
  intro place
  simp [or_comm]

/-- The constructor succeeds, and builds the table of all listed errors. -/
theorem golay_init : ECC_Golay.init = .ok ECC_Golay := by
  have zero : List.replicate 23 (0 : Bit) = errorVector [] := by decide
  have zeroSyndrome : apply H_Golay (errorVector []) = List.replicate 11 0 := by decide
  have start : (⟨23, H_Golay, Dict.empty.set (List.replicate 11 0) (List.replicate 23 0)⟩ : ECC) =
      storing [errorVector []] := by
    simp only [storing, Dict.ofList, List.map_cons, List.map_nil, List.foldl_cons, List.foldl_nil,
      zeroSyndrome, zero]
  have whole : ECC_Golay = storing ([errorVector []] ++ (List.range' 1 23).flatMap (fun i =>
      [errorVector [i]] ++ (List.range' (i + 1) (23 - i)).flatMap (fun j =>
        [errorVector [i, j]] ++ (List.range' (j + 1) (23 - j)).flatMap (fun k =>
          [errorVector [i, j, k]])))) := by
    simp only [ECC_Golay, errorPositions, List.map_cons, List.map_flatMap, List.map_nil,
      List.singleton_append]
  rw [whole, ECC_Golay.init, start]
  apply foldlM_storing
  intro i iBound errors
  rw [List.mem_range'_1] at iBound
  have first : (storing errors).store (eVect 23 i) = .ok (storing (errors ++ [errorVector [i]])) := by
    rw [eVect_eq]
    exact store_storing errors _ (errorVector_length _)
  simp only [first, bind, Except.bind]
  rw [← List.append_assoc]
  apply foldlM_storing
  intro j jBound errors
  rw [List.mem_range'_1] at jBound
  have pair : add (eVect 23 i) (eVect 23 j) = errorVector [i, j] := by
    rw [eVect_eq]
    exact add_eVect [i] j (by simp; omega)
  simp only [pair, store_storing errors _ (errorVector_length _)]
  rw [← List.append_assoc]
  apply foldlM_storing
  intro k kBound errors
  rw [List.mem_range'_1] at kBound
  have triple : add (errorVector [i, j]) (eVect 23 k) = errorVector [i, j, k] :=
    add_eVect [i, j] k (by simp; omega)
  simp only [triple, store_storing errors _ (errorVector_length _)]

/-- The columns of the Golay matrix as numbers, in the order of their places. -/
def golayColumns : List Nat :=
  (List.range 23).map (fun place => number (apply H_Golay (indicator 23 [place])))

/-- The exclusive or of the columns at the given places. -/
def columnSum (places : List Nat) : Nat :=
  places.foldr (fun place total => golayColumns.getD place 0 ^^^ total) 0

/-- The syndrome of a word is the sum of the columns at its ones. -/
theorem number_syndrome (places : List Nat) (distinct : places.Nodup)
    (bounded : ∀ place ∈ places, place < 23) :
    number (apply H_Golay (indicator 23 places)) = columnSum places := by
  induction places with
  | nil => decide
  | cons place rest inductionHypothesis =>
    obtain ⟨absent, restDistinct⟩ := List.nodup_cons.mp distinct
    have here := bounded place List.mem_cons_self
    have others := inductionHypothesis restDistinct
      (fun other member => bounded other (List.mem_cons_of_mem place member))
    have column : golayColumns.getD place 0 = number (apply H_Golay (indicator 23 [place])) := by
      simp [golayColumns, here]
    rw [indicator_cons 23 place rest absent, apply_add _ _ _ (by simp), number_add _ _ (by simp),
      others, ← column]
    rfl

/-- The listed positions are the increasing lists of at most three positions. -/
theorem mem_errorPositions (positions : List Nat) :
    positions ∈ errorPositions ↔ positions.length ≤ 3 ∧ positions.Pairwise (· < ·) ∧
      ∀ position ∈ positions, 1 ≤ position ∧ position ≤ 23 := by
  constructor
  · intro listed
    simp only [errorPositions, List.mem_cons, List.mem_flatMap, List.mem_range'_1,
      List.not_mem_nil, or_false] at listed
    obtain rfl | ⟨i, iBound, rfl | ⟨j, jBound, rfl | ⟨k, kBound, rfl⟩⟩⟩ := listed <;> simp <;> omega
  · rintro ⟨short, increasing, bounded⟩
    simp only [errorPositions, List.mem_cons, List.mem_flatMap, List.mem_range'_1,
      List.not_mem_nil, or_false]
    match positions with
    | [] => exact .inl rfl
    | [i] =>
      simp only [List.mem_singleton, forall_eq] at bounded
      exact .inr ⟨i, by omega, .inl rfl⟩
    | [i, j] =>
      simp at bounded increasing
      exact .inr ⟨i, by omega, .inr ⟨j, by omega, .inl rfl⟩⟩
    | [i, j, k] =>
      simp at bounded increasing
      exact .inr ⟨i, by omega, .inr ⟨j, by omega, .inr ⟨k, by omega, rfl⟩⟩⟩
    | i :: j :: k :: l :: rest =>
      simp only [List.length_cons] at short
      omega

/-- The places of the ones of a listed error. -/
def errorPlaces (positions : List Nat) : List Nat := positions.map (fun position => 23 - position)

/-- Distinct errors have distinct syndromes. -/
theorem columnSum_distinct :
    (errorPositions.map (fun positions => columnSum (errorPlaces positions))).Nodup := by
  have checked : distinctFrom 0
      (errorPositions.map (fun positions => columnSum (errorPlaces positions))) = true := by
    decide +kernel
  exact (distinctFrom_sound 0 _ checked).1

theorem number_errorVector (positions : List Nat) (listed : positions ∈ errorPositions) :
    number (apply H_Golay (errorVector positions)) = columnSum (errorPlaces positions) := by
  obtain ⟨_, increasing, bounded⟩ := (mem_errorPositions positions).mp listed
  apply number_syndrome
  · apply List.Nodup.map_on _ (increasing.imp Nat.ne_of_lt)
    intro one oneListed two twoListed same
    have := bounded one oneListed
    have := bounded two twoListed
    omega
  · intro place member
    obtain ⟨position, positionListed, rfl⟩ := List.mem_map.mp member
    have := bounded position positionListed
    omega

/-- The entries of the table, as the constructor stores them. -/
def golayEntries : List (List Bit × List Bit) :=
  (errorPositions.map errorVector).map (fun error => (apply H_Golay error, error))

theorem golayEntries_numbers : (golayEntries.map Prod.fst).map number =
    errorPositions.map (fun positions => columnSum (errorPlaces positions)) := by
  simp only [golayEntries, List.map_map]
  apply List.map_congr_left
  intro positions listed
  exact number_errorVector positions listed

theorem golayEntries_distinct : (golayEntries.map Prod.fst).Nodup := by
  apply List.Nodup.of_map number
  rw [golayEntries_numbers]
  exact columnSum_distinct

theorem golay_entries : ECC_Golay.dict_H.entries = golayEntries :=
  Dict.ofList_entries _ golayEntries_distinct

/-- Chunking cuts off whole codewords from the front; what is left over, if
anything, is one more chunk. -/
theorem golay_chunk (x : List Bit) :
    ECC_Golay.chunk x =
      (List.range (x.length / 23)).map (fun i => (x.drop (i * 23)).take 23) ++
        if x.length % 23 = 0 then [] else [x.drop (x.length / 23 * 23)] := by
  simp only [ECC.chunk, golay_codeword_length]
  split
  · next whole =>
    have count : (x.length + 23 - 1) / 23 = x.length / 23 := by omega
    rw [count, List.append_nil]
  · next remains =>
    have count : (x.length + 23 - 1) / 23 = x.length / 23 + 1 := by omega
    have rest : (x.drop (x.length / 23 * 23)).length ≤ 23 := by
      rw [List.length_drop]
      omega
    rw [count, List.range_succ, List.map_append, List.map_singleton, List.take_of_length_le rest]

/-- Every syndrome is the key of an entry: there are as many distinct keys as syndromes. -/
theorem golay_total (s : List Bit) (width : s.length = 11) : s ∈ ECC_Golay.dict_H.keys := by
  have keys : ECC_Golay.dict_H.keys = golayEntries.map Prod.fst :=
    congrArg (List.map Prod.fst) golay_entries
  have widths : ∀ key ∈ golayEntries.map Prod.fst, key.length = 11 := by
    intro key member
    simp only [golayEntries, List.map_map, List.mem_map, Function.comp_apply] at member
    obtain ⟨positions, _, rfl⟩ := member
    exact apply_length H_Golay _
  have count : ((golayEntries.map Prod.fst).map number).length = 2048 := by
    rw [golayEntries_numbers, List.length_map]
    decide +kernel
  have numbered : ((golayEntries.map Prod.fst).map number).toFinset = Finset.range 2048 := by
    apply Finset.eq_of_subset_of_card_le
    · intro value member
      obtain ⟨key, listed, rfl⟩ := List.mem_map.mp (List.mem_toFinset.mp member)
      have bound := number_bound key
      rw [widths key listed] at bound
      exact Finset.mem_range.mpr bound
    · rw [List.toFinset_card_of_nodup (by rw [golayEntries_numbers]; exact columnSum_distinct),
        count, Finset.card_range]
  have bound := number_bound s
  rw [width] at bound
  have member : number s ∈ ((golayEntries.map Prod.fst).map number).toFinset := by
    rw [numbered]
    exact Finset.mem_range.mpr bound
  obtain ⟨key, listed, same⟩ := List.mem_map.mp (List.mem_toFinset.mp member)
  have equal := number_injective key s (by rw [widths key listed, width]) same
  rw [keys, ← equal]
  exact listed

/-- Every error of weight at most three is listed. -/
theorem light_listed (error : List Bit) (width : error.length = 23) (light : weight error ≤ 3) :
    ∃ positions ∈ errorPositions, errorVector positions = error := by
  refine ⟨(support error).reverse.map (fun place => 23 - place), ?_, ?_⟩
  · rw [mem_errorPositions, List.length_map, List.length_reverse, support_length]
    have bounded : ∀ place ∈ support error, place < 23 := by
      intro place member
      rw [← width]
      exact support_bound error place member
    refine ⟨light, ?_, ?_⟩
    · rw [List.pairwise_map, List.pairwise_reverse]
      apply List.Pairwise.imp_of_mem _ (support_increasing error)
      intro one two oneListed twoListed less
      have := bounded two twoListed
      omega
    · intro position member
      obtain ⟨place, listed, rfl⟩ := List.mem_map.mp member
      have := bounded place (List.mem_reverse.mp listed)
      omega
  · have restored := indicator_support error
    rw [width] at restored
    conv_rhs => rw [← restored]
    apply indicator_congr
    intro place
    simp only [List.map_map, List.mem_map, List.mem_reverse, Function.comp_apply]
    constructor
    · rintro ⟨position, listed, rfl⟩
      have bounded := support_bound error position listed
      have same : 23 - (23 - position) = position := by omega
      rwa [same]
    · intro listed
      have bounded := support_bound error place listed
      exact ⟨place, listed, by omega⟩

/-- The entry of a light error's syndrome is that error. -/
theorem golay_light (error : List Bit) (width : error.length = 23) (light : weight error ≤ 3) :
    ECC_Golay.dict_H.get? (apply H_Golay error) = some error := by
  rw [Dict.get?_eq_some, golay_entries]
  obtain ⟨positions, listed, rfl⟩ := light_listed error width light
  exact List.mem_map.mpr ⟨_, List.mem_map.mpr ⟨positions, listed, rfl⟩, rfl⟩

/-- Every entry has the length of a codeword. -/
theorem golay_entry_length (key error : List Bit) (entry : ECC_Golay.dict_H.get? key = some error) :
    error.length = 23 := by
  rw [Dict.get?_eq_some, golay_entries] at entry
  obtain ⟨listed, member, same⟩ := List.mem_map.mp entry
  obtain ⟨positions, _, rfl⟩ := List.mem_map.mp member
  cases same
  exact errorVector_length positions

/-- A syndrome as it travels in a message. -/
def integers (bits : List Bit) : List Int := bits.map (fun bit => (bit.val : Int))

theorem addModTwo_integers (s s_hat : List Bit) (width : s.length = s_hat.length) :
    addModTwo (integers s) s_hat = .ok (add s s_hat) := by
  have entry : ∀ bit : Bit, Fin.ofNat 2 (((bit.val : Int) % 2).toNat) = bit := by decide
  have bits : (integers s).map (fun (entry : Int) => Fin.ofNat 2 (entry % 2).toNat) = s := by
    simp only [integers, List.map_map]
    conv_rhs => rw [← List.map_id s]
    exact List.map_congr_left fun bit _ => entry bit
  simp only [addModTwo, bits, width, ↓reduceIte]

/-- The syndrome of a word of full length. -/
theorem golay_encode (x : List Bit) (width : x.length = 23) :
    ECC_Golay.encode x = .ok (apply H_Golay x) := by
  have shape : reshape 23 x = .ok x := by rw [reshape, if_pos width]
  simp only [ECC.encode, ECC_Golay, storing, shape, bind, Except.bind]
  exact getSyndrome_golay x width

/-- Correction adds the error listed under the sum of the two syndromes. -/
theorem ECC.decode_found (self : ECC) (x : List Bit) (s : List Int) (s_hat cs error : List Bit)
    (width : x.length = self.codeword_length) (syndrome : getSyndrome self.H x = .ok s_hat)
    (sum : addModTwo s s_hat = .ok cs) (entry : self.dict_H.get? cs = some error) :
    self.decode x s = .ok (add x error) := by
  have shape : reshape self.codeword_length x = .ok x := by rw [reshape, if_pos width]
  simp only [ECC.decode, shape, syndrome, sum, entry, bind, Except.bind]

/-- With the Golay table there always is such an error. -/
theorem golay_decode_lookup (x s : List Bit) (width : x.length = 23) (syndrome : s.length = 11) :
    ∃ error, ECC_Golay.dict_H.get? (add s (apply H_Golay x)) = some error ∧
      ECC_Golay.decode x (integers s) = .ok (add x error) := by
  have own : (apply H_Golay x).length = 11 := apply_length H_Golay x
  have sum := addModTwo_integers s (apply H_Golay x) (by rw [syndrome, own])
  have member := golay_total (add s (apply H_Golay x)) (by simp [syndrome, own])
  cases entry : ECC_Golay.dict_H.get? (add s (apply H_Golay x)) with
  | none => exact absurd member ((Dict.get?_eq_none _ _).mp entry)
  | some error =>
    exact ⟨error, rfl, ECC.decode_found ECC_Golay x (integers s) _ _ error width
      (getSyndrome_golay x width) sum entry⟩

/-- Correction never fails on words and syndromes of the right lengths. -/
theorem golay_decode_total (x s : List Bit) (width : x.length = 23) (syndrome : s.length = 11) :
    ∃ corrected, ECC_Golay.decode x (integers s) = .ok corrected ∧ corrected.length = 23 := by
  obtain ⟨error, entry, decoded⟩ := golay_decode_lookup x s width syndrome
  exact ⟨_, decoded, by simp [width, golay_entry_length _ _ entry]⟩

/-- A word at distance at most three from the original is corrected to it. -/
theorem golay_decode_light (original x : List Bit) (originalWidth : original.length = 23)
    (width : x.length = 23) (near : distance original x ≤ 3) :
    ECC_Golay.decode x (integers (apply H_Golay original)) = .ok original := by
  obtain ⟨error, entry, decoded⟩ := golay_decode_lookup x (apply H_Golay original) width
    (apply_length H_Golay original)
  have same : original.length = x.length := by rw [originalWidth, width]
  rw [← apply_add H_Golay original x same,
    golay_light (add original x) (by simp [originalWidth, width])
      (by rw [weight_add]; exact near)] at entry
  cases entry
  rw [decoded, add_swap original x, add_cancel x original same.symm]

end QChat
