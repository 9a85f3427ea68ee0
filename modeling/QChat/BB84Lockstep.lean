import QChat.Joint
import QChat.Transcript

/-!
# BB84 in lockstep

The processes of leader and follower, method by method: each pair of methods
runs in lockstep, raises nothing and returns what the joint computation says.
The methods are followed in the order of the source, and each statement is used
in the proof of its caller in place of the method's text.
-/

namespace QChat

open Bits Process

/-- The leader asks for pairs, and each party takes its own half. -/
def sourceWiring : Wiring Side := ⟨fun _ => .lead, id⟩

namespace Together

variable (parties : Parties) {α : Type}

/-- Receiving the missing qubits completes the lists of outcomes and bases. -/
theorem receive_loop (round missing position : Nat) (count : position + missing = ROUND_SIZE) :
    Together sourceWiring
      (fun side => BB84_Purified.receive_loop (parties.endpoint side) round missing
        ((List.range position).map ((parties.chances side).measure round))
        ((List.range position).map ((parties.chances side).basisflip round)))
      (fun results => ∀ side, results side =
        (outcomes (parties.chances side) round, bases (parties.chances side) round)) := by
  induction missing generalizing position with
  | zero =>
    obtain rfl : position = ROUND_SIZE := by omega
    exact Together.done (fun side => (outcomes (parties.chances side) round,
      bases (parties.chances side) round)) (fun _ => rfl)
  | succ missing inductionHypothesis =>
    have grown (f : Nat → Bit) :
        (List.range position).map f ++ [f position] = (List.range (position + 1)).map f := by
      simp [List.range_succ]
    refine Together.share id (fun _ => ()) (fun side _ =>
      (parties.endpoint side).exchange_messages [("ack", .bool true)] .BB84Message >>= fun r => do
        Endpoint.require r "ack" "Error distributing EPR states"
        BB84_Purified.receive_loop (parties.endpoint side) round missing
          ((List.range (position + 1)).map ((parties.chances side).measure round))
          ((List.range (position + 1)).map ((parties.chances side).basisflip round)))
      (by decide) (fun _ => rfl) (fun _ => rfl) (by
        simp only [BB84_Purified.receive_loop, Peers.endpoint_role, Peers.endpoint_chances,
          Endpoint.requestEPR, Endpoint.receiveEPR, ↓reduceIte, signal_bind, done_bind,
          await_bind, List.length_map, List.length_range, grown]
        rfl) (by
        simp only [BB84_Purified.receive_loop, Peers.endpoint_role, Peers.endpoint_chances,
          Endpoint.receiveEPR, await_bind, done_bind, List.length_map, List.length_range, grown]
        rfl) ?_
    intro ended rests
    obtain rfl : ended = _ := funext rests
    apply exchange_messages parties.toPeers
    simp only [Peers.require_message, done_bind]
    exact inductionHypothesis (position + 1) (by omega)

/-- Receiving the states gives every party its own outcomes and bases. -/
theorem _receive_bb84_states (round : Nat) :
    Together sourceWiring
      (fun side => BB84_Purified._receive_bb84_states (parties.endpoint side) round)
      (fun results => ∀ side, results side =
        (outcomes (parties.chances side) round, bases (parties.chances side) round)) :=
  receive_loop parties round ROUND_SIZE 0 (by omega)

section Sifting

variable (round n m : Nat) (measure basis : Side → Nat → Bit) (said : Side → List Message)

/-- Comparing bases keeps the outcomes of the matching rounds. -/
theorem _filter_theta :
    Together sourceWiring
      (fun side => (BB84_Purified._filter_theta (parties.endpoint side)
        ((List.range n).map (measure side)) ((List.range m).map (basis side))).keeping (said side))
      (fun results => ∀ side, results side =
        ((matchingRounds (min n m) basis).map (measure side),
          said side ++ [parties.message side .BB84Message
            [("theta", .ofBits ((List.range m).map (basis side)))]])) := by
  simp only [BB84_Purified._filter_theta, Peers.exchange_keeping]
  apply exchange_messages parties.toPeers
  simp only [Peers.message_data, Value.item_single, Value.ofBits]
  refine Together.done (fun side => _) ?_
  intro side
  have own := retained_rounds n m (measure side) (basis side) (basis side.other)
  refine Prod.ext (own.trans ?_) rfl
  cases side with
  | lead => rfl
  | follow =>
    refine congrArg _ (List.filter_congr fun position _ => ?_)
    exact decide_eq_decide.mpr eq_comm

variable (rounds : List Nat)

/-- What a party says when the tests are agreed on. -/
def testing_data : Side → List (String × Value) :=
  Side.select
    [("test_indices", .ofNats (drawTests ((parties.chances .lead).index round) rounds).2.2)]
    [("ack", .bool true)]

/-- Both parties test the rounds of the leader's draw and keep the others. -/
theorem testing :
    Together sourceWiring
      (fun side => (BB84_Purified.testing (parties.endpoint side) round
        (rounds.map (measure side))).keeping (said side))
      (fun results => ∀ side, results side =
        (((drawTests ((parties.chances .lead).index round) rounds).1.map (measure side),
            (drawTests ((parties.chances .lead).index round) rounds).2.1.map (measure side)),
          said side ++ [parties.message side .BB84Message (testing_data parties round rounds side)])) := by
  have leading := chooseTests_map ((parties.chances .lead).index round) (measure .lead)
    (ROUND_SIZE / 4) rounds [] []
  obtain ⟨drawn, indices, popped⟩ := popAll_chooseTests ((parties.chances .lead).index round)
    (measure .follow) (ROUND_SIZE / 4) rounds [] []
  rw [List.nil_append] at indices
  simp only [List.map_nil] at leading popped
  let next : Side → Message → Program (List Bit × List Bit) :=
    Side.select
      (fun r => do
        Endpoint.require r "ack" "Error sending test indices"
        return ((drawTests ((parties.chances .lead).index round) rounds).1.map (measure .lead),
          (drawTests ((parties.chances .lead).index round) rounds).2.1.map (measure .lead)))
      (fun m => do
        let test_indices ← attempt (do (← m.data.item "test_indices").iterate)
        attempt (popAll test_indices (rounds.map (measure .follow)) []))
  have methods : (fun side => (BB84_Purified.testing (parties.endpoint side) round
      (rounds.map (measure side))).keeping (said side)) =
      fun side => (parties.endpoint side).exchange_messages
        (testing_data parties round rounds side) .BB84Message >>= fun response =>
          (next side response).keeping (said side ++
            [parties.message side .BB84Message (testing_data parties round rounds side)]) := by
    funext side
    rw [← Peers.exchange_keeping]
    cases side with
    | lead =>
      simp only [BB84_Purified.testing, Peers.endpoint_role, Peers.endpoint_chances, leading]
      rfl
    | follow => rfl
  have ended : (fun side => (next side (parties.message side.other .BB84Message
        (testing_data parties round rounds side.other))).keeping (said side ++
          [parties.message side .BB84Message (testing_data parties round rounds side)])) =
      fun side => .done
        (((drawTests ((parties.chances .lead).index round) rounds).1.map (measure side),
            (drawTests ((parties.chances .lead).index round) rounds).2.1.map (measure side)),
          said side ++
            [parties.message side .BB84Message (testing_data parties round rounds side)]) := by
    funext side
    cases side with
    | lead =>
      simp only [next, testing_data, Side.other_lead, Side.select_lead, Side.select_follow,
        Peers.require_message, done_bind, pure_eq, keeping_done]
    | follow =>
      simp only [next, testing_data, drawTests, indices, Side.other_follow, Side.select_lead,
        Side.select_follow, Peers.message_data, Value.item_single, ok_bind,
        Value.iterate_ofNats, attempt_ok, done_bind, popped, keeping_done]
  rw [methods]
  apply exchange_messages parties.toPeers
  rw [ended]
  exact Together.done _ fun _ => rfl

/-- What a party says in the whole test: how the tests are agreed on, its outcomes in the
tested rounds, and the end. -/
def estimation_transcript (side : Side) : List Message :=
  [parties.message side .BB84Message (testing_data parties round rounds side),
    parties.message side .BB84Message [("test_bits",
      .ofBits ((drawTests ((parties.chances .lead).index round) rounds).2.1.map (measure side)))],
    parties.message side .BB84Message [("fin", .bool true)]]

/-- Both parties compute the same error rate. -/
theorem _estimate_error_rate :
    Together sourceWiring
      (fun side => (BB84_Purified._estimate_error_rate (parties.endpoint side) round
        (rounds.map (measure side))).keeping (said side))
      (fun results => ∀ side, results side =
        ((rateOf measure (drawTests ((parties.chances .lead).index round) rounds).2.1,
            (drawTests ((parties.chances .lead).index round) rounds).1.map (measure side)),
          said side ++ estimation_transcript parties round measure rounds side)) := by
  have first (side : Side) (next : List Bit × List Bit → Program (ℚ × List Bit)) :=
    keeping_bind (said side) (BB84_Purified.testing (parties.endpoint side) round
      (rounds.map (measure side))) next
  simp only [BB84_Purified._estimate_error_rate, first]
  refine Together.bind (testing parties round measure said rounds) fun results tests => ?_
  simp only [tests, Peers.exchange_keeping]
  apply exchange_messages parties.toPeers
  simp only [Peers.message_data, Value.item_single, ok_bind, Value.iterate_ofBits, attempt_ok,
    done_bind, Peers.exchange_keeping]
  apply exchange_messages parties.toPeers
  simp only [Peers.require_message, done_bind, pure_eq, keeping_done]
  refine Together.done (fun side => _) ?_
  intro side
  have errors := countErrors_positions (drawTests ((parties.chances .lead).index round) rounds).2.1
    (measure side) (measure side.other)
  simp only [errors, List.map_eq_nil_iff, List.length_map, rateOf, estimation_transcript,
    List.append_assoc, List.cons_append, List.nil_append]
  cases side with
  | lead => rfl
  | follow =>
    have swapped : (drawTests ((parties.chances .lead).index round) rounds).2.1.countP
          (fun position => measure .follow position ≠ measure .lead position) =
        (drawTests ((parties.chances .lead).index round) rounds).2.1.countP
          (fun position => measure .lead position ≠ measure .follow position) := by
      apply List.countP_congr
      intro position _
      simp only [decide_eq_true_eq]
      exact ne_comm
    rw [Side.other_follow, swapped]

end Sifting

/-- A round adds the same positions to both secrets. -/
theorem distill_tested_data (round : Nat) :
    Together sourceWiring
      (fun side => BB84_Purified.distill_tested_data (parties.endpoint side) round)
      (fun results => ∀ side, results side = distilled parties.chances round side) := by
  let measure (side : Side) : Nat → Bit := (parties.chances side).measure round
  let basis (side : Side) : Nat → Bit := (parties.chances side).basisflip round
  have whole : matchingRounds (min ROUND_SIZE ROUND_SIZE) basis = matching parties.chances round := by
    rw [min_self]
    rfl
  refine Together.bind (_receive_bb84_states parties round) fun measured states => ?_
  simp only [states]
  have sifted := (_filter_theta parties ROUND_SIZE ROUND_SIZE measure basis fun _ => []).forget
  rw [whole] at sifted
  refine Together.bind sifted fun remaining same => ?_
  obtain rfl := funext same
  have estimated := (_estimate_error_rate parties round measure (fun _ => [])
    (matching parties.chances round)).forget
  refine Together.bind estimated fun tests rates => ?_
  obtain rfl := funext rates
  change Together sourceWiring
    (fun side => if errorRate parties.chances round ≥ MAX_GOLAY_ERROR then pure []
      else pure ((kept parties.chances round).map ((parties.chances side).measure round))) _
  simp only [distilled]
  split
  · exact Together.done _ fun _ => rfl
  · exact Together.done _ fun _ => rfl

/-- Both parties hold the leader's syndrome. -/
theorem syndrome (codeword : Side → List Bit) (width : ∀ side, (codeword side).length = 23) :
    Together sourceWiring
      (fun side => BB84_Purified.syndrome (parties.endpoint side) (codeword side))
      (fun results => ∀ side, results side = .ofBits (apply H_Golay (codeword .lead))) := by
  let data : Side → List (String × Value) :=
    Side.select [("s", .ofBits (apply H_Golay (codeword .lead)))] [("ack", .bool true)]
  let next : Side → Message → Program Value :=
    Side.select
      (fun m => do
        Endpoint.require m "ack" "Failed to reconcile secrets"
        return .ofBits (apply H_Golay (codeword .lead)))
      (fun m => attempt (m.data.item "s"))
  have methods :
      (fun side => BB84_Purified.syndrome (parties.endpoint side) (codeword side)) =
      fun side => (parties.endpoint side).exchange_messages (data side) .BB84Message >>=
        next side := by
    funext side
    cases side with
    | lead =>
      simp only [BB84_Purified.syndrome, Peers.endpoint_role, golay_encode _ (width .lead),
        attempt_ok, done_bind]
      rfl
    | follow => rfl
  have ended : (fun side => next side (parties.message side.other .BB84Message (data side.other))) =
      fun _ => .done (.ofBits (apply H_Golay (codeword .lead))) := by
    funext side
    cases side with
    | lead => simp only [next, data, Side.other_lead, Side.select_lead, Side.select_follow, Peers.require_message, done_bind, pure_eq]
    | follow =>
      simp only [next, data, Side.other_follow, Side.select_lead, Side.select_follow, Peers.message_data, Value.item_single,
        attempt_ok]
  rw [methods]
  apply exchange_messages parties.toPeers
  rw [ended]
  exact Together.done _ fun _ => rfl

/-- Reconciling whole codewords, with at most one short one behind them. -/
theorem reconcile_loop (words : List (Side → List Bit))
    (width : ∀ word ∈ words, ∀ side, (word side).length = 23)
    (tail : Side → List (List Bit)) (rest : Side → List Bit)
    (short : (∀ side, tail side = [] ∧ rest side = []) ∨
      ∀ side, tail side = [rest side] ∧ (rest side).length < 23)
    (reconciled : Side → List Bit) :
    Together sourceWiring
      (fun side => BB84_Purified.reconcile_loop (parties.endpoint side)
        (words.map (fun word => word side) ++ tail side) (reconciled side))
      (fun results => ∀ side, results side =
        (rest side, reconciled side ++ words.flatMap (fun word => corrected word side))) := by
  induction words generalizing reconciled with
  | nil =>
    obtain none | one := short
    · simp only [List.map_nil, List.nil_append, none, BB84_Purified.reconcile_loop]
      exact Together.done _ fun _ => by simp
    · simp only [List.map_nil, List.nil_append, one, BB84_Purified.reconcile_loop,
        golay_codeword_length, ↓reduceIte]
      exact Together.done _ fun _ => by simp
  | cons word words inductionHypothesis =>
    have whole : ∀ side, (word side).length = 23 := width word List.mem_cons_self
    have others : ∀ word ∈ words, ∀ side, (word side).length = 23 :=
      fun other member => width other (List.mem_cons_of_mem word member)
    simp only [List.map_cons, List.cons_append, BB84_Purified.reconcile_loop,
      golay_codeword_length, whole, Nat.lt_irrefl, ↓reduceIte]
    refine Together.bind (syndrome parties word whole) fun values shared => ?_
    simp only [shared, Value.row_ofBits, ok_bind]
    have decodes (side : Side) :
        ECC_Golay.decode (word side) ((apply H_Golay (word .lead)).map (fun bit => (bit.val : Int))) =
          .ok (corrected word side) := (corrected_ok word side whole).1
    simp only [decodes, attempt_ok, done_bind]
    refine Together.weaken (inductionHypothesis others
      (fun side => reconciled side ++ corrected word side)) fun results same side => ?_
    rw [same side, List.flatMap_cons, List.append_assoc]

/-- Reconciliation of secrets of one length. -/
theorem _reconcile_information (x : Side → List Bit)
    (same : ∀ side, (x side).length = (x .lead).length) :
    Together sourceWiring
      (fun side => BB84_Purified._reconcile_information (parties.endpoint side) (x side))
      (fun results => ∀ side, results side = (leftover (x side), reconciledBits x side)) := by
  have chunks (side : Side) : ECC_Golay.chunk (x side) =
      (codewords x).map (fun word => word side) ++
        if (x .lead).length % 23 = 0 then [] else [leftover (x side)] := by
    rw [golay_chunk, same side]
    simp only [codewords, leftover, List.map_map, same side]
    rfl
  have short : (∀ side, (if (x .lead).length % 23 = 0 then [] else [leftover (x side)]) = [] ∧
        leftover (x side) = []) ∨
      ∀ side, (if (x .lead).length % 23 = 0 then [] else [leftover (x side)]) = [leftover (x side)] ∧
        (leftover (x side)).length < 23 := by
    by_cases whole : (x .lead).length % 23 = 0
    · refine .inl fun side => ⟨if_pos whole, ?_⟩
      have length := same side
      rw [leftover, List.drop_eq_nil_iff]
      omega
    · refine .inr fun side => ⟨if_neg whole, ?_⟩
      have length := same side
      rw [leftover, List.length_drop]
      omega
  simp only [BB84_Purified._reconcile_information, chunks]
  exact reconcile_loop parties (codewords x) (codewords_length x same)
    (fun side => if (x .lead).length % 23 = 0 then [] else [leftover (x side)])
    (fun side => leftover (x side)) short (fun _ => [])

/-- The leader's amplification: seed and tag are sent, and the byte is kept if
the answer is true. -/
theorem amplify_lead (attempts : Nat) (a b : UInt8) :
    BB84_Purified._amplify_privacy (parties.endpoint .lead) attempts [a, b] =
      .send (parties.message .lead .BB84Message
          [("Y", .num ((parties.chances .lead).Y attempts).toNat),
            ("T", .num (tag ((parties.chances .lead).Y attempts) a b))])
        (_wait_for_control_message .BB84Message >>= fun m => do
          let ack ← attempt (m.data.item "ack")
          if ack.truthy then return [highByte ((parties.chances .lead).Y attempts) a]
          else return []) := by
  have data : byteAt [a, b] 0 = .ok a := rfl
  have second : byteAt [a, b] 1 = .ok b := rfl
  have extracted (R low : UInt8) : byteAt [R, low] 0 = .ok R := rfl
  have rest (R low : UInt8) : byteAt [R, low] 1 = .ok low := rfl
  have low (product : Nat) : (UInt8.ofNat (product % 256)).toNat = product % 256 := by simp
  simp only [BB84_Purified._amplify_privacy, Peers.endpoint_role, Peers.endpoint_chances, data,
    second, ok_bind, pure_ok, product_bytes, attempt_ok, done_bind, extracted, rest, low]
  rw [Peers.exchange_lead, send_bind, tag]

/-- The follower's amplification once the leader's message is there: the answer
says whether the tag is the follower's own. -/
theorem verify_tag (a b Y : UInt8) (T : Nat) :
    BB84_Purified.verify_tag (parties.endpoint .follow) [a, b]
        (parties.message .lead .BB84Message [("Y", .num Y.toNat), ("T", .num T)]) =
      .send (parties.message .follow .BB84Message [("ack", .bool (decide (T = tag Y a b)))])
        (.done (if T = tag Y a b then [highByte Y a] else [])) := by
  have data : byteAt [a, b] 0 = .ok a := rfl
  have second : byteAt [a, b] 1 = .ok b := rfl
  have extracted (R low : UInt8) : byteAt [R, low] 0 = .ok R := rfl
  have rest (R low : UInt8) : byteAt [R, low] 1 = .ok low := rfl
  have low (product : Nat) : (UInt8.ofNat (product % 256)).toNat = product % 256 := by simp
  have sent : (Value.obj [("Y", .num Y.toNat), ("T", .num T)]).item "T" = .ok (.num T) := by
    simp [Value.item, Dict.lookup]
  have verdict : ((Value.num T).equals
      ((b.toNat + Y.toNat * a.toNat % 256 : Nat) : Int) = true) = (T = tag Y a b) := by
    simp only [Value.equals, decide_eq_true_eq, tag, eq_iff_iff]
    omega
  simp only [BB84_Purified.verify_tag, Peers.message_data, Value.item_first, sent, attempt_ok,
    done_bind, data, second, ok_bind, pure_ok, Value.times_num, product_bytes, extracted, rest, low,
    Peers.send_control_message, send_bind, verdict]
  split
  · next same => simp only [same, decide_true, pure_eq]
  · next different => simp only [different, decide_false, pure_eq]

/-- Both parties extract their high byte if the follower accepts the tag, and
nothing otherwise. -/
theorem _amplify_privacy (attempts : Nat) (a b : Side → UInt8) :
    Together sourceWiring
      (fun side => BB84_Purified._amplify_privacy (parties.endpoint side) attempts [a side, b side])
      (fun results => ∀ side, results side =
        if tag ((parties.chances .lead).Y attempts) (a .lead) (b .lead) =
            tag ((parties.chances .lead).Y attempts) (a .follow) (b .follow) then
          [highByte ((parties.chances .lead).Y attempts) (a side)]
        else []) := by
  have leads := amplify_lead parties attempts (a .lead) (b .lead)
  generalize (parties.chances .lead).Y attempts = Y at leads ⊢
  generalize sent : tag Y (a .lead) (b .lead) = T at leads ⊢
  let accepted : Bool := decide (T = tag Y (a .follow) (b .follow))
  have follows : BB84_Purified._amplify_privacy (parties.endpoint .follow) attempts
      [a .follow, b .follow] = .receive (Peers.accept .BB84Message
        (BB84_Purified.verify_tag (parties.endpoint .follow) [a .follow, b .follow])) := by
    simp only [BB84_Purified._amplify_privacy, Peers.endpoint_role, Peers.wait_bind]
  rw [Peers.wait_bind] at leads
  refine Together.exchange
    (parties.message .lead .BB84Message [("Y", .num Y.toNat), ("T", .num T)])
    (parties.message .follow .BB84Message [("ack", .bool accepted)]) leads follows
    ((Peers.accept_message ..).trans (verify_tag parties (a .follow) (b .follow) Y T))
    fun ended leadEnds followEnds => ?_
  rw [Peers.accept_message] at leadEnds
  have both : ended = fun side =>
      .done (if T = tag Y (a .follow) (b .follow) then [highByte Y (a side)] else []) := by
    funext side
    cases side with
    | lead =>
      rw [leadEnds, Peers.message_data, Value.item_single, attempt_ok, done_bind, Value.truthy]
      by_cases same : T = tag Y (a .follow) (b .follow)
      · simp only [accepted, same, decide_true, ↓reduceIte, pure_eq]
      · simp only [accepted, same, decide_false, Bool.false_eq_true, ↓reduceIte, pure_eq]
    | follow => exact followEnds
  rw [both]
  exact Together.done _ fun _ => rfl

/-- The protocol ends with one exchange. -/
theorem _end_protocol :
    Together sourceWiring
      (fun side => ((parties.endpoint side)._end_protocol : Program Unit)) (fun _ => True) := by
  apply exchange_messages parties.toPeers (fun _ => [("FIN", .bool true)])
  simp only [Peers.require_message]
  exact Together.done (fun _ => ()) trivial

/-- One pass on both sides does what the joint computation says. -/
theorem execute_pass (progress : Side → Progress) (aligned : Aligned progress) :
    Together sourceWiring
      (fun side => BB84_Purified.execute_pass (parties.endpoint side) (progress side))
      (fun results => ∀ side, results side = (advance parties progress).view side) := by
  have bound (side : Side) : (parties.endpoint side).key_size.exceeds (progress side).key.length =
      .ok (decide (((progress .lead).key.length : Int) < parties.key_size)) := by
    rw [aligned.key side]
    rfl
  by_cases more : ((progress .lead).key.length : Int) < parties.key_size
  · by_cases few : (progress .lead).reconciled.length < 2 * BYTE_LEN
    · by_cases short : (progress .lead).secret_bits.length < ECC_Golay.codeword_length
      · simp only [BB84_Purified.execute_pass, bound, attempt_ok, done_bind, decide_eq_true_eq,
          advanceBy, aligned.reconciled, aligned.secret_bits, aligned.rounds, more, few, short,
          ↓reduceIte]
        refine Together.bind (distill_tested_data parties (progress .lead).rounds) fun bits same => ?_
        simp only [same]
        refine Together.done _ fun side => ?_
        simp only [Stage.view_running, distill, aligned.rounds]
      · simp only [BB84_Purified.execute_pass, bound, attempt_ok, done_bind, decide_eq_true_eq,
          advanceBy, aligned.reconciled, aligned.secret_bits, more, few, short, ↓reduceIte]
        refine Together.bind (_reconcile_information parties
          (fun side => (progress side).secret_bits) aligned.secret_bits) fun pairs same => ?_
        simp only [same]
        exact Together.done _ fun side => rfl
    · have bytes (side : Side) := reconciled_bytes_ok (progress side).reconciled (by
        rw [aligned.reconciled side]
        omega)
      simp only [BB84_Purified.execute_pass, bound, attempt_ok, done_bind, decide_eq_true_eq,
        advanceBy, aligned.reconciled, aligned.attempts, bytes, more, few, ↓reduceIte]
      refine Together.bind (_amplify_privacy parties (progress .lead).attempts _ _) fun byte same => ?_
      simp only [same]
      refine Together.done _ fun side => ?_
      simp only [Stage.view_running, amplify, amplified, accepts, aligned.attempts,
        decide_eq_true_eq]
  · simp only [BB84_Purified.execute_pass, bound, attempt_ok, done_bind, decide_eq_true_eq,
      advanceBy, more, ↓reduceIte]
    refine Together.bind (_end_protocol parties) fun _ _ => ?_
    exact Together.done _ fun side => rfl

end Together

end QChat
