import QChat.Golay
import QChat.Protocols

/-!
# The purified BB84 protocol

The methods of `BB84_Purified`. Each loop of the source is a recursion over what
the loop runs through. The three nested loops of `execute` have no bound; the
body of the innermost loop that has work to do is one pass, and between two
passes the object is at the head of the outermost loop whose condition has to be
read again. Reading the outer conditions again changes nothing, since the pass
has not touched what they depend on.

`rounds` and `attempts` are not variables of the source. They number the calls
that consume random choices.
-/

namespace QChat

open QChat.Process

/-- The largest error rate the Golay code is trusted with: the decimal the
source writes, which is just below three in twenty-three. -/
def MAX_GOLAY_ERROR : ℚ := mkRat 13043478260869565 100000000000000000

/-- `x.pop(index)`: negative indices count from the end. An index that is not in the list is
refused, one that is no machine integer as such. -/
def pop (x : List Bit) (index : Int) : Except Exn (Bit × List Bit) :=
  let place := if index < 0 then index + x.length else index
  let refused := if -2 ^ 63 ≤ index ∧ index < 2 ^ 63 then Exn.IndexError else .OverflowError
  if 0 ≤ place then
    match x[place.toNat]? with
    | some bit => .ok (bit, x.eraseIdx place.toNat)
    | none => .error refused
  else .error refused

/-- Pop every listed index in turn, collecting what was popped. -/
def popAll : List Value → (x test_bits : List Bit) → Except Exn (List Bit × List Bit)
  | [], x, test_bits => .ok (x, test_bits)
  | index :: rest, x, test_bits => do
    let (bit, x) ← pop x (← index.index)
    popAll rest x (test_bits ++ [bit])

/-- Choose indices we still have until there are `count` of them or nothing is
left: what remains, what was chosen, and the chosen indices. -/
def chooseTests {α : Type} (chance : Nat → Nat) :
    (count : Nat) → (x tests : List α) → (test_indices : List Nat) →
      List α × List α × List Nat
  | 0, x, tests, test_indices => (x, tests, test_indices)
  | count + 1, x, tests, test_indices =>
    let index := randint (x.length - 1) (chance test_indices.length)
    match x[index]? with
    | some test => chooseTests chance count (x.eraseIdx index) (tests ++ [test])
        (test_indices ++ [index])
    | none => (x, tests, test_indices)

/-- The bits measured in a basis equal to the peer's. -/
def retained (x theta : List Bit) (theta_hat : List Value) : List Bit :=
  ((x.zip theta).zip theta_hat).filterMap fun entry =>
    if entry.2.equals entry.1.2.val then some entry.1.1 else none

/-- The number of test bits that differ from the peer's. -/
def countErrors (test_bits : List Bit) (target_test_bits : List Value) : Nat :=
  (test_bits.zip target_test_bits).countP (fun entry => !entry.2.equals entry.1.val)

/-- Binary digits as a number, the first digit most significant. -/
def binary (bits : List Bit) : Nat := bits.foldl (fun value bit => 2 * value + bit.val) 0

/-- The byte at a position of a byte string. -/
def byteAt (X : Bytes) (position : Nat) : Except Exn UInt8 :=
  match X[position]? with
  | some byte => .ok byte
  | none => .error .IndexError

namespace BB84_Purified

/-- Receives the qubits still missing and measures each in a random basis. -/
def receive_loop (self : Endpoint) (round : Nat) :
    (missing : Nat) → (x theta : List Bit) → Program (List Bit × List Bit)
  | 0, x, theta => .done (x, theta)
  | missing + 1, x, theta => do
    if self.role = .lead then self.requestEPR
    self.receiveEPR
    let theta' := theta ++ [self.chances.basisflip round theta.length]
    let x' := x ++ [self.chances.measure round x.length]
    let r ← self.exchange_messages [("ack", .bool true)] .BB84Message
    Endpoint.require r "ack" "Error distributing EPR states"
    receive_loop self round missing x' theta'

/-- Receives the distributed qubits: the outcomes and the bases used. -/
def _receive_bb84_states (self : Endpoint) (round : Nat) : Program (List Bit × List Bit) :=
  receive_loop self round ROUND_SIZE [] []

/-- Filters our measurements that were done in differing bases. -/
def _filter_theta (self : Endpoint) (x theta : List Bit) : Program (List Bit) := do
  let response ← self.exchange_messages [("theta", .ofBits theta)] .BB84Message
  let theta_hat ← attempt (do (← response.data.item "theta").iterate)
  return retained x theta theta_hat

/-- Agree on the tested positions: what remains and the test bits. The leader
draws the indices, the follower takes them from the leader's message. -/
def testing (self : Endpoint) (round : Nat) (x : List Bit) : Program (List Bit × List Bit) :=
  match self.role with
  | .lead => do
    let (x, test_bits, test_indices) :=
      chooseTests (self.chances.index round) (ROUND_SIZE / 4) x [] []
    let r ← self.exchange_messages [("test_indices", .ofNats test_indices)] .BB84Message
    Endpoint.require r "ack" "Error sending test indices"
    return (x, test_bits)
  | .follow => do
    let m ← self.exchange_messages [("ack", .bool true)] .BB84Message
    let test_indices ← attempt (do (← m.data.item "test_indices").iterate)
    attempt (popAll test_indices x [])

/-- Estimates the error rate of the exchanged information. The test bits are
removed from `x`; the remaining list is returned along with the rate. -/
def _estimate_error_rate (self : Endpoint) (round : Nat) (x : List Bit) :
    Program (ℚ × List Bit) := do
  let (x, test_bits) ← testing self round x
  let m ← self.exchange_messages [("test_bits", .ofBits test_bits)] .BB84Message
  let target_test_bits ← attempt (do (← m.data.item "test_bits").iterate)
  let num_error := countErrors test_bits target_test_bits
  let r ← self.exchange_messages [("fin", .bool true)] .BB84Message
  Endpoint.require r "fin" "Error coordinating error estimation"
  let error : ℚ := if test_bits = [] then 1 else num_error / test_bits.length
  return (error, x)

/-- Distributes the states between the two users and tests the error rate. -/
def distill_tested_data (self : Endpoint) (round : Nat) : Program (List Bit) := do
  let (x, theta) ← _receive_bb84_states self round
  let x_remain ← _filter_theta self x theta
  let (error_rate, x_remain) ← _estimate_error_rate self round x_remain
  if error_rate ≥ MAX_GOLAY_ERROR then return [] else return x_remain

/-- The syndrome of the leader's codeword, as both parties hold it. -/
def syndrome (self : Endpoint) (codeword : List Bit) : Program Value :=
  match self.role with
  | .lead => do
    let s ← attempt (ECC_Golay.encode codeword)
    let m ← self.exchange_messages [("s", .ofBits s)] .BB84Message
    Endpoint.require m "ack" "Failed to reconcile secrets"
    return .ofBits s
  | .follow => do
    let m ← self.exchange_messages [("ack", .bool true)] .BB84Message
    attempt (m.data.item "s")

/-- Reconciles one codeword after the other. A short codeword is recycled. -/
def reconcile_loop (self : Endpoint) :
    (codewords : List (List Bit)) → (reconciled : List Bit) → Program (List Bit × List Bit)
  | [], reconciled => .done ([], reconciled)
  | codeword :: rest, reconciled =>
    if codeword.length < ECC_Golay.codeword_length then .done (codeword, reconciled)
    else do
      let s ← syndrome self codeword
      let corrected ← attempt (do ECC_Golay.decode codeword (← s.row))
      reconcile_loop self rest (reconciled ++ corrected)

/-- Information reconciliation based on linear codes: the bits left over and the
reconciled information. -/
def _reconcile_information (self : Endpoint) (x : List Bit) : Program (List Bit × List Bit) :=
  reconcile_loop self (ECC_Golay.chunk x) []

/-- The follower's part of privacy amplification: verifies the received tag and
extracts the byte if it passes. -/
def verify_tag (self : Endpoint) (X : Bytes) (m : Message) : Program Bytes := do
  let Y ← attempt (m.data.item "Y")
  let T ← attempt (m.data.item "T")
  let temp ← attempt (do Bytes.ofInt 2 (← Y.times (← byteAt X 0)))
  let tag ← attempt (do return (← byteAt X 1).toNat + (← byteAt temp 1).toNat)
  if T.equals tag then do
    let R ← attempt (byteAt temp 0)
    self._send_control_message [("ack", .bool true)] .BB84Message
    return [R]
  else do
    self._send_control_message [("ack", .bool false)] .BB84Message
    return []

/-- One-round privacy amplification: the extracted byte, or nothing if the tag
does not pass. -/
def _amplify_privacy (self : Endpoint) (attempts : Nat) (X : Bytes) : Program Bytes :=
  match self.role with
  | .lead => do
    let Y := self.chances.Y attempts
    let temp ← attempt (do Bytes.ofInt 2 (Y.toNat * (← byteAt X 0).toNat))
    let R ← attempt (byteAt temp 0)
    let T ← attempt (do return (← byteAt temp 1).toNat + (← byteAt X 1).toNat)
    let m ← self.exchange_messages [("Y", .num Y.toNat), ("T", .num T)] .BB84Message
    let ack ← attempt (m.data.item "ack")
    if ack.truthy then return [R] else return []
  | .follow => do
    let m ← _wait_for_control_message .BB84Message
    verify_tag self X m

end BB84_Purified

/-- The local variables of `execute` at a loop head, and the numbers of calls made so far. The
numbers are not in the source: they tell the random choices of one call from those of the
next. -/
structure Progress where
  key : Bytes
  secret_bits : List Bit
  reconciled : List Bit
  rounds : Nat
  attempts : Nat

/-- The local variables before the first pass. -/
def Progress.init : Progress := ⟨[], [], [], 0, 0⟩

/-- A party between two passes: still in the loops, or returned with its key. The three nested
loops of `execute` are one loop of passes, each of which is one turn of the loop that is reached
next. -/
inductive Execution where
  | running (progress : Progress)
  | finished (key : Bytes)

namespace BB84_Purified

/-- The two bytes the first sixteen reconciled bits stand for. -/
def reconciled_bytes (reconciled : List Bit) : Except Exn Bytes :=
  if reconciled.take (2 * BYTE_LEN) = [] then .error .ValueError
  else Bytes.ofInt 2 (binary (reconciled.take (2 * BYTE_LEN)))

/-- One pass of the key derivation: distill, reconcile or amplify, whichever the
innermost condition asks for; with a full key, end the protocol. -/
def execute_pass (self : Endpoint) (progress : Progress) : Program Execution := do
  if ← attempt (self.key_size.exceeds progress.key.length) then
    if progress.reconciled.length < 2 * BYTE_LEN then
      if progress.secret_bits.length < ECC_Golay.codeword_length then do
        let bits ← distill_tested_data self progress.rounds
        return .running { progress with
          secret_bits := progress.secret_bits ++ bits
          rounds := progress.rounds + 1 }
      else do
        let (secret_bits, reconciled_bits) ← _reconcile_information self progress.secret_bits
        return .running { progress with
          secret_bits := secret_bits
          reconciled := progress.reconciled ++ reconciled_bits }
    else do
      let X ← attempt (reconciled_bytes progress.reconciled)
      let byte ← _amplify_privacy self progress.attempts X
      return .running { progress with
        key := progress.key ++ byte
        reconciled := progress.reconciled.drop (2 * BYTE_LEN)
        attempts := progress.attempts + 1 }
  else do
    self._end_protocol
    return .finished progress.key

/-- The whole of `execute`: a running party starts another pass, one that has
returned stays as it is. -/
def execute (self : Endpoint) : Execution → Option (Program Execution)
  | .running progress => some (execute_pass self progress)
  | .finished _ => none

end BB84_Purified

end QChat
