import QChat.BB84

/-!
# The device independent protocol

The methods of `DIQKD`. Its information reconciliation and privacy amplification
are those of `BB84_Purified`, which it inherits. The test of the devices is run
by both parties on the same data; the two differ in who draws the test rounds and
in whose bases stand where.

Error rates are rational numbers here. The text of a failed test ends with the two
rates in the source.
-/

namespace QChat

open QChat.Process

/-- The winning probability of the best quantum strategy. -/
def PCHSH : ℚ := mkRat 8535533905932737 10000000000000000

/-- The random choices of one party and the outcomes its device reports, numbered
by the round and the position in it. A sample has as many different positions as
asked for, if there are as many. The order in which a loop goes through a set of positions
is the interpreter's: all that is known of it is that it visits each of them once. -/
structure DeviceChances where
  basis : Nat → Nat → Nat
  measure : Nat → Nat → Bit
  sample : (round population count : Nat) → List Nat
  sample_length : ∀ round population count, count ≤ population →
    (sample round population count).length = count
  sample_nodup : ∀ round population count, (sample round population count).Nodup
  sample_lt : ∀ round population count, ∀ j ∈ sample round population count, j < population
  visits : List Nat → List Nat
  visits_perm : ∀ places, (visits places).Perm places

/-- `items[j]`: negative indices count from the end. -/
def subscript {β : Type} (items : List β) (j : Value) : Except Exn β := do
  let index ← j.index
  let place := if index < 0 then index + items.length else index
  if 0 ≤ place then
    match items[place.toNat]? with
    | some item => .ok item
    | none => .error .IndexError
  else .error .IndexError

/-- `x[j]` for a received list or text. Other containers are refused. -/
def Value.subscript (x : Value) (j : Value) : Except Exn Value :=
  match x with
  | .arr items => QChat.subscript items j
  | .str text => QChat.subscript (text.toList.map fun char => .str (String.singleton char)) j
  | _ => .error .TypeError

/-- `[j for j in items if test(j)]`. -/
def select {β : Type} (test : β → Except Exn Bool) : List β → Except Exn (List β)
  | [] => .ok []
  | j :: rest => do
    let keep ← test j
    let others ← select test rest
    return if keep then j :: others else others

/-- `j in places`, for integers. -/
def listed (j : Value) (places : List Value) : Bool :=
  match j.index with
  | .ok index => places.any fun place => place.equals index
  | .error _ => false

/-- `a / b` for two counts. -/
def divide (a b : Nat) : Except Exn ℚ :=
  if b = 0 then .error .ZeroDivisionError else .ok (a / b)

namespace DIQKD

/-- Distributes pairs and measures, as leader: the outcomes for the given bases. -/
def distribute_loop (self : Endpoint) (device : DeviceChances) (round : Nat) :
    (theta : List Nat) → (x : List Bit) → Program (List Bit)
  | [], x => .done x
  | _ :: rest, x => do
    self.requestEPR
    self.receiveEPR
    let x := x ++ [device.measure round x.length]
    let m ← self.exchange_messages [("ack", .bool true)] .DQKDMessage
    Endpoint.require m "ack" "Error distributing DI states"
    distribute_loop self device round rest x

/-- Implements the leading role of the distribution. -/
def _device_independent_distribute_bb84 (self : Endpoint) (device : DeviceChances) (round : Nat) :
    Program (List Bit × List Nat) := do
  let theta := (List.range ROUND_SIZE).map fun i => randint 1 (device.basis round i)
  let x ← distribute_loop self device round theta []
  return (x, theta)

/-- Receives halves and measures, as follower. -/
def receive_loop (self : Endpoint) (device : DeviceChances) (round : Nat) :
    (theta : List Nat) → (x : List Bit) → Program (List Bit)
  | [], x => .done x
  | _ :: rest, x => do
    self.receiveEPR
    let x := x ++ [device.measure round x.length]
    let m ← self.exchange_messages [("ack", .bool true)] .DQKDMessage
    Endpoint.require m "ack" "Error receiving DI states"
    receive_loop self device round rest x

/-- Implements the following role of the distribution. -/
def _device_independent_receive_bb84 (self : Endpoint) (device : DeviceChances) (round : Nat) :
    Program (List Bit × List Nat) := do
  let theta := (List.range ROUND_SIZE).map fun i => randint 2 (device.basis round i)
  let x ← receive_loop self device round theta []
  return (x, theta)

/-- The test rounds the follower measured for the CHSH game. -/
def chsh_rounds (followTheta : Value) (T : List Value) : Except Exn (List Value) :=
  select (fun j => do
    let basis ← followTheta.subscript j
    return basis.equals 0 || basis.equals 1) T

/-- The rounds that both parties measured in the same basis. -/
def match_rounds (leadTheta followTheta : Value) (places : List Value) :
    Except Exn (List Value) :=
  select (fun j => do
    let basis ← leadTheta.subscript j
    if basis.equals 0 then do
      let basis ← followTheta.subscript j
      return basis.equals 2
    else return false) places

/-- The rounds for the two tests and the rounds that are kept. The former are in the order of
the test rounds, the latter in the order in which the set of the other rounds is visited. -/
def rounds (visits : List Nat → List Nat) (leadTheta followTheta : Value) (count : Nat)
    (T : List Value) : Except Exn (List Value × List Value × List Value) := do
  let Tp ← chsh_rounds followTheta T
  let Tpp ← match_rounds leadTheta followTheta T
  let R ← match_rounds leadTheta followTheta
    ((visits ((List.range count).filter fun j : Nat => !listed (.num j) T)).map
      fun j : Nat => .num j)
  return (Tp, Tpp, R)

/-- `[x[j] for j in places]`. -/
def outcomes_at (x : List Bit) : (places : List Value) → Except Exn (List Bit)
  | [] => .ok []
  | j :: places => do
    let bit ← subscript x j
    let bits ← outcomes_at x places
    return bit :: bits

/-- A round of the CHSH game is won. -/
def wins (theta theta_hat : Value) (Tp : List Value) (entry : Value × Bit × Value) :
    Except Exn Bool := do
  let (j, x1, x2) := entry
  let sum := Int.xor x1.val (← x2.index)
  let product := Int.land (← (← theta.subscript j).index) (← (← theta_hat.subscript j).index)
  return decide (sum = product) && listed j Tp

/-- The outcomes of a round match. -/
def matches_peer (Tpp : List Value) (entry : Value × Bit × Value) : Except Exn Bool :=
  let (j, x1, x2) := entry
  .ok (x2.equals x1.val && listed j Tpp)

/-- The devices are not good enough. -/
def test_failure : Exn := .ProtocolException "Failed to pass CHSH test"

/-- Judges the test rounds. -/
def judge (theta theta_hat : Value) (T Tp Tpp : List Value) (x_T : List Bit)
    (x_T_hat : List Value) : Except Exn Unit := do
  let winning ← select (wins theta theta_hat Tp) (T.zip (x_T.zip x_T_hat))
  let p_win ← divide winning.length Tp.length
  let matching ← select (matches_peer Tpp) (T.zip (x_T.zip x_T_hat))
  let p_match ← divide matching.length Tpp.length
  let e : ℚ := 1 / 10
  if p_win < PCHSH - e ∨ p_match < 1 - e then .error test_failure else .ok ()

/-- The test and kept rounds of a party, once it knows the bases of both and, as
follower, the peer's choice. -/
def split_rounds (self : Endpoint) (device : DeviceChances) (round : Nat) (x : List Bit)
    (theta theta_hat : Value) :
    Program (List Value × List Value × List Value × List Value) :=
  match self.role with
  | .lead => do
    let T := device.sample round x.length (x.length / 2)
    self._send_control_message [("T", .ofNats T)] .DQKDMessage
    let T := T.map fun j : Nat => Value.num j
    let (Tp, Tpp, R) ← attempt (rounds device.visits theta theta_hat x.length T)
    return (T, Tp, Tpp, R)
  | .follow => do
    let m ← _wait_for_control_message .DQKDMessage
    let T ← attempt (do (← m.data.item "T").iterate)
    let (Tp, Tpp, R) ← attempt (rounds device.visits theta_hat theta x.length T)
    return (T, Tp, Tpp, R)

/-- The tests of the devices once both parties know both bases: the outcomes of
the kept rounds if the test rounds pass. -/
def chsh_test (self : Endpoint) (device : DeviceChances) (round : Nat) (x : List Bit)
    (theta theta_hat : Value) : Program (List Bit) := do
  let (T, Tp, Tpp, R) ← split_rounds self device round x theta theta_hat
  let x_T ← attempt (outcomes_at x T)
  let m ← self.exchange_messages [("x_T", .ofBits x_T)] .DQKDMessage
  let x_T_hat ← attempt (do (← m.data.item "x_T").iterate)
  attempt (judge theta theta_hat T Tp Tpp x_T x_T_hat)
  attempt (outcomes_at x R)

/-- Compares bases with the peer and tests whether a subset of the rounds is
entangled. -/
def _device_independent_epr_test (self : Endpoint) (device : DeviceChances) (round : Nat)
    (x : List Bit) (theta : List Nat) : Program (List Bit) := do
  let m ← self.exchange_messages [("theta", .ofNats theta)] .DQKDMessage
  let theta_hat ← attempt (m.data.item "theta")
  chsh_test self device round x (.ofNats theta) theta_hat

/-- Obtains measurement outcomes and tests the devices on some of them. -/
def distill_device_independent_data (self : Endpoint) (device : DeviceChances) (round : Nat) :
    Program (List Bit) := do
  let (x, theta) ← match self.role with
    | .lead => _device_independent_distribute_bb84 self device round
    | .follow => _device_independent_receive_bb84 self device round
  _device_independent_epr_test self device round x theta

/-- One pass of the key derivation, as for `BB84_Purified` but for the source of
the secret bits. -/
def execute_pass (self : Endpoint) (device : DeviceChances) (progress : Progress) :
    Program Execution := do
  if ← attempt (self.key_size.exceeds progress.key.length) then
    if progress.reconciled.length < 2 * BYTE_LEN then
      if progress.secret_bits.length < ECC_Golay.codeword_length then do
        let bits ← distill_device_independent_data self device progress.rounds
        return .running { progress with
          secret_bits := progress.secret_bits ++ bits
          rounds := progress.rounds + 1 }
      else do
        let (secret_bits, reconciled_bits) ←
          BB84_Purified._reconcile_information self progress.secret_bits
        return .running { progress with
          secret_bits := secret_bits
          reconciled := progress.reconciled ++ reconciled_bits }
    else do
      let X ← attempt (BB84_Purified.reconciled_bytes progress.reconciled)
      let byte ← BB84_Purified._amplify_privacy self progress.attempts X
      return .running { progress with
        key := progress.key ++ byte
        reconciled := progress.reconciled.drop (2 * BYTE_LEN)
        attempts := progress.attempts + 1 }
  else do
    self._end_protocol
    return .finished progress.key

/-- The whole of `execute`. -/
def execute (self : Endpoint) (device : DeviceChances) : Execution → Option (Program Execution)
  | .running progress => some (execute_pass self device progress)
  | .finished _ => none

end DIQKD

end QChat
