import QChat.Reconciliation
import QChat.Systematic

/-!
# What the channel learns of a key

Reconciliation publishes the leader's syndromes. The Golay matrix is systematic, so
whatever is published, the first twelve bits of every codeword and the bits left over
can be anything. Privacy amplification publishes seed and tag. Two different pairs of
bytes have the same tag for at most half of the seeds.
-/

namespace QChat

open Bits Process

namespace Together

variable (parties : Parties) {α : Type}

/-- Methods that return after one exchange have said their own part of it. -/
theorem said_in_exchange (data : Side → List (String × Value)) (message_type : MessageClass)
    (next : Side → Message → Program α) (value : Side → α) (said : Side → List Message)
    (ends : ∀ side, next side (parties.message side.other message_type (data side.other)) =
      .done (value side)) :
    Together sourceWiring
      (fun side => ((parties.endpoint side).exchange_messages (data side) message_type >>=
        next side).keeping (said side))
      (fun results => ∀ side, results side =
        (value side, said side ++ [parties.message side message_type (data side)])) := by
  simp only [Peers.exchange_keeping]
  apply exchange_messages parties.toPeers
  simp only [ends, keeping_done]
  exact Together.done _ fun _ => rfl

end Together

/-- What a party says about one codeword of the leader. -/
def syndrome_data (codeword : List Bit) : Side → List (String × Value) :=
  Side.select [("s", .ofBits (apply H_Golay codeword))] [("ack", .bool true)]

/-- What a party says when the leader reconciles a list. -/
def reconciliation_transcript (parties : Parties) (x : List Bit) (side : Side) : List Message :=
  (List.range (x.length / 23)).map fun i =>
    parties.message side .BB84Message (syndrome_data (block x i) side)

namespace Together

variable (parties : Parties)

/-- Each party says its part about the codeword, and both hold the leader's syndrome. -/
theorem syndrome_said (codeword : Side → List Bit) (width : ∀ side, (codeword side).length = 23)
    (said : Side → List Message) :
    Together sourceWiring
      (fun side => (BB84_Purified.syndrome (parties.endpoint side) (codeword side)).keeping
        (said side))
      (fun results => ∀ side, results side = (.ofBits (apply H_Golay (codeword .lead)),
        said side ++ [parties.message side .BB84Message (syndrome_data (codeword .lead) side)])) := by
  let next : Side → Message → Program Value :=
    Side.select
      (fun m => do
        Endpoint.require m "ack" "Failed to reconcile secrets"
        return .ofBits (apply H_Golay (codeword .lead)))
      (fun m => attempt (m.data.item "s"))
  have methods : (fun side => (BB84_Purified.syndrome (parties.endpoint side)
        (codeword side)).keeping (said side)) =
      fun side => ((parties.endpoint side).exchange_messages
        (syndrome_data (codeword .lead) side) .BB84Message >>= next side).keeping (said side) := by
    funext side
    cases side with
    | lead =>
      simp only [BB84_Purified.syndrome, Peers.endpoint_role, golay_encode _ (width .lead),
        attempt_ok, done_bind]
      rfl
    | follow => rfl
  rw [methods]
  refine said_in_exchange parties _ .BB84Message next
    (fun _ => Value.ofBits (apply H_Golay (codeword .lead))) said fun side => ?_
  cases side with
  | lead =>
    simp only [next, syndrome_data, Side.other_lead, Side.select_lead, Side.select_follow,
      Peers.require_message, done_bind, pure_eq]
  | follow =>
    simp only [next, syndrome_data, Side.other_follow, Side.select_lead, Side.select_follow,
      Peers.message_data, Value.item_single, attempt_ok]

/-- Whole codewords are spoken of one after the other, a short one not at all. -/
theorem reconcile_loop_said (words : List (Side → List Bit))
    (width : ∀ word ∈ words, ∀ side, (word side).length = 23)
    (tail : Side → List (List Bit)) (rest : Side → List Bit)
    (short : (∀ side, tail side = [] ∧ rest side = []) ∨
      ∀ side, tail side = [rest side] ∧ (rest side).length < 23)
    (reconciled : Side → List Bit) (said : Side → List Message) :
    Together sourceWiring
      (fun side => (BB84_Purified.reconcile_loop (parties.endpoint side)
        (words.map (fun word => word side) ++ tail side) (reconciled side)).keeping (said side))
      (fun results => ∀ side, (results side).2 = said side ++ words.map fun word =>
        parties.message side .BB84Message (syndrome_data (word .lead) side)) := by
  induction words generalizing reconciled said with
  | nil =>
    obtain none | one := short
    · simp only [List.map_nil, List.nil_append, none, BB84_Purified.reconcile_loop]
      exact Together.done (fun side => _) fun _ => by simp
    · simp only [List.map_nil, List.nil_append, one, BB84_Purified.reconcile_loop,
        golay_codeword_length, ↓reduceIte]
      exact Together.done (fun side => _) fun _ => by simp
  | cons word words inductionHypothesis =>
    have whole : ∀ side, (word side).length = 23 := width word List.mem_cons_self
    have others : ∀ word ∈ words, ∀ side, (word side).length = 23 :=
      fun other member => width other (List.mem_cons_of_mem word member)
    simp only [List.map_cons, List.cons_append, BB84_Purified.reconcile_loop,
      golay_codeword_length, whole, Nat.lt_irrefl, ↓reduceIte, keeping_bind]
    refine Together.bind (syndrome_said parties word whole said) fun values shared => ?_
    have decodes (side : Side) :
        ECC_Golay.decode (word side) ((apply H_Golay (word .lead)).map (fun bit => (bit.val : Int))) =
          .ok (corrected word side) := (corrected_ok word side whole).1
    simp only [shared, Value.row_ofBits, ok_bind, decodes, attempt_ok, keeping_done, done_bind]
    refine Together.weaken (inductionHypothesis others
      (fun side => reconciled side ++ corrected word side) _) fun results same side => ?_
    rw [same side, List.append_assoc, List.singleton_append]

/-- In a reconciliation each party says its part about the leader's list. -/
theorem _reconcile_information_said (x : Side → List Bit)
    (same : ∀ side, (x side).length = (x .lead).length) :
    Together sourceWiring
      (fun side => (BB84_Purified._reconcile_information (parties.endpoint side) (x side)).keeping [])
      (fun results => ∀ side, (results side).2 =
        reconciliation_transcript parties (x .lead) side) := by
  let tail : Side → List (List Bit) := fun side =>
    if (x .lead).length % 23 = 0 then [] else [leftover (x side)]
  have chunks (side : Side) :
      ECC_Golay.chunk (x side) = (codewords x).map (fun word => word side) ++ tail side := by
    rw [golay_chunk, same side]
    simp only [codewords, leftover, List.map_map, same side, tail]
    rfl
  have rest (side : Side) : (leftover (x side)).length = (x .lead).length % 23 := by
    have length := same side
    rw [leftover, List.length_drop]
    omega
  have short : (∀ side, tail side = [] ∧ leftover (x side) = []) ∨
      ∀ side, tail side = [leftover (x side)] ∧ (leftover (x side)).length < 23 := by
    by_cases whole : (x .lead).length % 23 = 0
    · left
      intro side
      exact ⟨if_pos whole, List.eq_nil_of_length_eq_zero ((rest side).trans whole)⟩
    · right
      intro side
      exact ⟨if_neg whole, rest side ▸ Nat.mod_lt _ (by decide)⟩
  simp only [BB84_Purified._reconcile_information, chunks]
  refine Together.weaken (reconcile_loop_said parties (codewords x) (codewords_length x same) tail
    (fun side => leftover (x side)) short (fun _ => []) fun _ => []) fun results said side => ?_
  rw [said side, List.nil_append]
  simp only [codewords, List.map_map]
  rfl

end Together

/-- In every run of a reconciliation of these lists both parties return, and have sent
these messages. -/
def Publishes (parties : Parties) (x : Side → List Bit) (messages : Side → List Message) : Prop :=
  Duet.BothReturn
    (fun side => (BB84_Purified._reconcile_information (parties.endpoint side) (x side)).keeping [])
    (fun results => ∀ side, (results side).2 = messages side)

/-- What is published is what the leader's list determines. -/
theorem publishes_iff (parties : Parties) (x : Side → List Bit)
    (same : ∀ side, (x side).length = (x .lead).length) (messages : Side → List Message) :
    Publishes parties x messages ↔ messages = reconciliation_transcript parties (x .lead) := by
  have said := (Together._reconcile_information_said parties x same).bothReturn
  constructor
  · intro published
    obtain ⟨results, sent, alike⟩ := published.meet said
    exact funext fun side => (sent side).symm.trans (alike side)
  · rintro rfl
    exact said

/-- Lists with the same number of codewords have one transcript if the syndromes of their
codewords are the same. -/
theorem transcript_iff (parties : Parties) {one two : List Bit} (width : one.length = two.length) :
    reconciliation_transcript parties one = reconciliation_transcript parties two ↔
      ∀ i < two.length / 23, apply H_Golay (block one i) = apply H_Golay (block two i) := by
  have readable : Function.Injective Value.ofBits := by
    intro left right same
    refine List.map_injective_iff.mpr ?_ (Value.arr.inj same)
    intro bit other alike
    exact Fin.ext (by simpa using alike)
  constructor
  · intro same i inside
    have spoken := List.map_inj_left.mp
      ((congrFun same .lead).trans (by rw [reconciliation_transcript, ← width])) i
      (List.mem_range.mpr (by rwa [width]))
    simp only [Peers.message, syndrome_data, Side.select_lead, Message.mk.injEq, Value.obj.injEq,
      List.cons.injEq, Prod.mk.injEq, true_and, and_true] at spoken
    exact readable spoken
  · intro same
    funext side
    rw [reconciliation_transcript, reconciliation_transcript, width]
    refine List.map_congr_left fun i inside => ?_
    rw [syndrome_data, syndrome_data, same i (List.mem_range.mp inside)]

/-- A list is its codewords and what is left over. -/
theorem blocks_whole (x : List Bit) :
    ((List.range (x.length / 23)).map (block x)).flatten ++ leftover x = x := by
  have front (count : Nat) :
      ((List.range count).map (block x)).flatten = x.take (count * 23) := by
    induction count with
    | zero => simp
    | succ count inductionHypothesis =>
      rw [List.range_succ, List.map_append, List.flatten_append, inductionHypothesis,
        Nat.succ_mul, List.take_add]
      simp [block]
  rw [front, leftover, List.take_append_drop]

/-- A list put together from codewords has these codewords, and leaves over the rest. -/
theorem blocks_built (words : List (List Bit)) (width : ∀ word ∈ words, word.length = 23)
    (rest : List Bit) (short : rest.length < 23) :
    (words.flatten ++ rest).length = words.length * 23 + rest.length ∧
      (∀ i (inside : i < words.length), block (words.flatten ++ rest) i = words[i]) ∧
      leftover (words.flatten ++ rest) = rest := by
  have front : words.flatten.length = words.length * 23 := by
    rw [List.length_flatten, List.map_congr_left width, List.map_const', List.sum_replicate,
      smul_eq_mul]
  have count : (words.flatten ++ rest).length / 23 = words.length := by
    rw [List.length_append, front]
    omega
  refine ⟨by rw [List.length_append, front], ?_, ?_⟩
  · intro i inside
    rw [← block_flatten words width i inside, block, block, List.drop_append_of_le_length (by omega),
      List.take_append_of_le_length (by rw [List.length_drop]; omega)]
  · rw [leftover, count, ← front, List.drop_left]

/-- If for each place there is exactly one codeword, there is exactly one list of them with a
given rest. -/
theorem list_of_codewords (count : Nat) (fits : Nat → List Bit → Prop) (rest : List Bit)
    (short : rest.length < 23) (one : ∀ i < count, ∃! word, word.length = 23 ∧ fits i word) :
    ∃! x : List Bit, x.length = count * 23 + rest.length ∧ leftover x = rest ∧
      ∀ i < count, fits i (block x i) := by
  choose! word width suits using fun i inside => (one i inside).exists
  let words := (List.range count).map word
  have wordsWidth : ∀ entry ∈ words, entry.length = 23 := by
    intro entry member
    obtain ⟨i, inside, rfl⟩ := List.mem_map.mp member
    exact width i (List.mem_range.mp inside)
  have wordsCount : words.length = count := by simp only [words, List.length_map, List.length_range]
  obtain ⟨length, built, left⟩ := blocks_built words wordsWidth rest short
  refine ⟨words.flatten ++ rest, ⟨?_, left, ?_⟩, ?_⟩
  · rw [length, wordsCount]
  · intro i inside
    rw [built i (by rwa [wordsCount])]
    simpa only [words, List.getElem_map, List.getElem_range] using suits i inside
  · rintro other ⟨otherLength, otherLeft, otherFits⟩
    have otherCount : other.length / 23 = count := by omega
    have same : (List.range count).map (block other) = words := by
      refine List.map_congr_left fun i inside => ?_
      have bounded := List.mem_range.mp inside
      exact (one i bounded).unique
        ⟨block_length other i (by rwa [otherCount]), otherFits i bounded⟩
        ⟨width i bounded, suits i bounded⟩
    rw [← blocks_whole other, otherCount, same, otherLeft]

theorem golay_systematic : Systematic H_Golay 12 := ⟨by decide, by decide⟩

/-- For every choice of the first twelve bits of a codeword one codeword has the syndrome. -/
theorem golay_completes (front word : List Bit) (width : front.length = 12) :
    ∃! completed, completed.length = 23 ∧ completed.take 12 = front ∧
      apply H_Golay completed = apply H_Golay word := by
  obtain ⟨tail, ⟨length, syndrome⟩, unique⟩ :=
    Systematic.completes (width ▸ golay_systematic : Systematic H_Golay front.length)
      (apply H_Golay word) (apply_length _ _)
  refine ⟨front ++ tail, ⟨?_, ?_, syndrome⟩, ?_⟩
  · rw [List.length_append, width, length]
    rfl
  · rw [← width, List.take_left]
  · rintro completed ⟨whole, first, same⟩
    have parts := List.take_append_drop 12 completed
    rw [first] at parts
    have last := unique (completed.drop 12) ⟨by rw [List.length_drop, whole]; rfl, parts.symm ▸ same⟩
    rw [← parts, last]

/-- Whatever is published in a reconciliation, the first twelve bits of all codewords of the
leader and the bits it has left over can be anything: every guess for them is met by exactly one
list of which the same is published. What the follower holds makes no difference.

Proof: the parity matrix ends in an identity, so the last eleven bits of a codeword can be
chosen, in one way, to give the published syndrome with any first twelve. -/
theorem reconciliation_hides (parties : Parties) (x : Side → List Bit)
    (same : ∀ side, (x side).length = (x .lead).length) :
    ∃ messages, Publishes parties x messages ∧
      ∀ guess heard : List Bit, guess.length = (x .lead).length → heard.length = guess.length →
        ∃! other : List Bit, other.length = guess.length ∧ leftover other = leftover guess ∧
          (∀ i < guess.length / 23, (block other i).take 12 = (block guess i).take 12) ∧
          Publishes parties (Side.select other heard) messages := by
  refine ⟨_, (publishes_iff parties x same _).mpr rfl, ?_⟩
  intro guess heard width heardWidth
  have published (other : List Bit) (length : other.length = guess.length) :
      Publishes parties (Side.select other heard) (reconciliation_transcript parties (x .lead)) ↔
        ∀ i < guess.length / 23, apply H_Golay (block other i) = apply H_Golay (block (x .lead) i) := by
    have alike : ∀ side, (Side.select other heard side).length =
        (Side.select other heard .lead).length := by
      intro side
      cases side with
      | lead => rfl
      | follow => exact heardWidth.trans length.symm
    rw [publishes_iff parties _ alike, eq_comm, Side.select_lead,
      transcript_iff parties (length.trans width), width]
  have short : (leftover guess).length < 23 := by
    rw [leftover, List.length_drop]
    omega
  have whole : guess.length / 23 * 23 + (leftover guess).length = guess.length := by
    rw [leftover, List.length_drop]
    omega
  obtain ⟨other, ⟨length, left, fits⟩, unique⟩ := list_of_codewords (guess.length / 23)
    (fun i word => word.take 12 = (block guess i).take 12 ∧
      apply H_Golay word = apply H_Golay (block (x .lead) i))
    (leftover guess) short fun i inside => golay_completes ((block guess i).take 12)
      (block (x .lead) i) (by rw [List.length_take, block_length guess i inside]; rfl)
  rw [whole] at length
  refine ⟨other, ⟨length, left, fun i inside => (fits i inside).1, ?_⟩, ?_⟩
  · exact (published other length).mpr fun i inside => (fits i inside).2
  · rintro another ⟨anotherLength, anotherLeft, fronts, sent⟩
    have syndromes := (published another anotherLength).mp sent
    exact unique another ⟨anotherLength.trans whole.symm, anotherLeft,
      fun i inside => ⟨fronts i inside, syndromes i inside⟩⟩

theorem reconciliation_hides_ones :
    ∃ messages, Publishes (sampleSession codewordError 0)
        (Side.select (List.replicate 50 1) (List.replicate 50 0)) messages ∧
      ∀ guess heard : List Bit, guess.length = 50 → heard.length = guess.length →
        ∃! other : List Bit, other.length = guess.length ∧ leftover other = leftover guess ∧
          (∀ i < guess.length / 23, (block other i).take 12 = (block guess i).take 12) ∧
          Publishes (sampleSession codewordError 0) (Side.select other heard) messages :=
  reconciliation_hides (sampleSession codewordError 0)
    (Side.select (List.replicate 50 1) (List.replicate 50 0)) fun side => by cases side <;> rfl

/-- A set that a permutation sends out of itself has at most half of the elements. -/
theorem card_escapes {α : Type} [Fintype α] [DecidableEq α] (set : Finset α) (shift : α → α)
    (injective : Function.Injective shift) (escapes : ∀ x ∈ set, shift x ∉ set) :
    2 * set.card ≤ Fintype.card α := by
  have moved : (set.image shift).card = set.card := Finset.card_image_of_injective set injective
  have apart : Disjoint set (set.image shift) := by
    rw [Finset.disjoint_right]
    intro x member
    obtain ⟨y, inside, rfl⟩ := Finset.mem_image.mp member
    exact escapes y inside
  calc 2 * set.card = (set ∪ set.image shift).card := by
        rw [Finset.card_union_of_disjoint apart, moved, Nat.two_mul]
    _ ≤ Fintype.card α := Finset.card_le_univ _

/-- The tag determines the linear form modulo 256. -/
theorem tag_same {Y a b c d : UInt8} (same : tag Y a b = tag Y c d) : Y * a + b = Y * c + d := by
  have sums : ∀ e f : UInt8, Y * e + f = UInt8.ofNat (tag Y e f) := by
    intro e f
    apply UInt8.toNat_inj.mp
    rw [UInt8.toNat_add, UInt8.toNat_mul, UInt8.toNat_ofNat']
    rfl
  rw [sums, sums, same]

/-- Two different pairs of bytes do not have the same tag for a seed and the next one. -/
theorem tag_next {lead follow : UInt8 × UInt8} (different : lead ≠ follow) {Y : UInt8}
    (same : tag Y lead.1 lead.2 = tag Y follow.1 follow.2) :
    tag (Y + 1) lead.1 lead.2 ≠ tag (Y + 1) follow.1 follow.2 := by
  intro again
  have here := tag_same same
  have there := tag_same again
  have first : lead.1 = follow.1 := by grind
  refine different (Prod.ext first ?_)
  rw [tag, tag, first] at same
  exact UInt8.toNat_inj.mp (Nat.add_left_cancel same)

/-- The seeds for which two pairs of bytes have the same tag. -/
def colliding (lead follow : UInt8 × UInt8) : Finset UInt8 :=
  Finset.univ.filter fun Y => tag Y lead.1 lead.2 = tag Y follow.1 follow.2

theorem colliding_half {lead follow : UInt8 × UInt8} (different : lead ≠ follow) :
    2 * (colliding lead follow).card ≤ Fintype.card UInt8 := by
  refine card_escapes (colliding lead follow) (· + 1) ?_ ?_
  · intro one two same
    exact (UInt8.add_left_inj 1).mp same
  · intro Y member
    simp only [colliding, Finset.mem_filter, Finset.mem_univ, true_and] at member ⊢
    exact tag_next different member

/-- Different pairs of bytes are taken for equal with at most half of the seeds: with these both
parties extract a byte, with every other seed neither does.

Proof: if different pairs have the same tag under one seed, they have different tags under the
next. So adding one leads from the seeds with which they are taken for equal to as many
others. -/
theorem tag_catches (X : Side → UInt8 × UInt8) (different : X .lead ≠ X .follow) :
    ∃ missing : Finset UInt8, 2 * missing.card ≤ Fintype.card UInt8 ∧
      ∀ (parties : Parties) (attempts : Nat),
        Duet.BothReturn
          (fun side => BB84_Purified._amplify_privacy (parties.endpoint side) attempts
            [(X side).1, (X side).2])
          (fun results => ∀ side,
            (results side).length = if (parties.chances .lead).Y attempts ∈ missing then 1 else 0) := by
  refine ⟨colliding (X .lead) (X .follow), ?_, fun parties attempts => ?_⟩
  · exact colliding_half different
  · refine Together.bothReturn ((Together._amplify_privacy parties attempts
      (fun side => (X side).1) (fun side => (X side).2)).weaken fun results same side => ?_)
    rw [same side]
    simp only [colliding, Finset.mem_filter, Finset.mem_univ, true_and]
    split
    · rfl
    · rfl

theorem tag_catches_bit :
    ∃ missing : Finset UInt8, 2 * missing.card ≤ Fintype.card UInt8 ∧
      ∀ (parties : Parties) (attempts : Nat),
        Duet.BothReturn
          (fun side => BB84_Purified._amplify_privacy (parties.endpoint side) attempts
            [(Side.select ((0 : UInt8), (0 : UInt8)) (1, 0) side).1,
              (Side.select ((0 : UInt8), (0 : UInt8)) (1, 0) side).2])
          (fun results => ∀ side,
            (results side).length = if (parties.chances .lead).Y attempts ∈ missing then 1 else 0) :=
  tag_catches (Side.select (0, 0) (1, 0)) (by decide)

end QChat
