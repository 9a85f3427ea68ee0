import QChat.Peers

/-!
# Superdense coding

The methods of `SuperDenseCoding`, which streams bytes over entangled pairs, two
bits a pair. A qubit is described by the pair it belongs to and the gates applied
to it; measuring the two halves of one pair behaves as ideal qubits do, and
nothing is said about halves of different pairs. The receiver finds its halves
of the pairs and the qubits sent to it on two ports.

The loop over the pairs of a message is re-entered by the duet, one pass a pair.
The loop state of the sender numbers the pairs it has created.
-/

namespace QChat

open Process

/-- Where a node finds the qubits it receives: halves of pairs and sent qubits arrive at
different ports. -/
inductive QubitPort where
  | recvEPR
  | recvQubit
deriving DecidableEq, Repr

/-- One half of a pair, with the numbers of X and Z gates applied to it, both modulo two. This
is all that the outcomes depend on. -/
structure Qubit where
  pair : Nat
  x : Bit
  z : Bit
deriving DecidableEq, Repr

namespace Qubit

/-- A half of a new pair. -/
def fresh (pair : Nat) : Qubit := ⟨pair, 0, 0⟩

def X (q : Qubit) : Qubit := { q with x := q.x + 1 }
def Z (q : Qubit) : Qubit := { q with z := q.z + 1 }

end Qubit

/-- The outcomes on both halves after a CNOT from the first onto the second and
an H on the first. They are determined for the two halves of one pair. -/
structure IdealQubits where
  measure : (qa qb : Qubit) → Bit × Bit
  decodes : ∀ pair x z, measure ⟨pair, x, z⟩ (Qubit.fresh pair) = (z, x)

/-- Outcomes that depend on the gates only. -/
def plainQubits : IdealQubits := ⟨fun qa _ => (qa.z, qa.x), fun _ _ _ => rfl⟩

/-- A method of a protocol object that streams qubits. -/
abbrev Transfer (α : Type) : Type := Process Message QubitPort Qubit Exn α

/-- A party between two pairs, and the ends of both methods. The sender has the rest of its
bytes and the place in the current one, the receiver what it has got so far and the number of
bytes that are missing. -/
inductive Transmission where
  | sending (self : Endpoint) (message : Bytes) (p : Nat) (pairs : Nat)
  | sent
  | receiving (self : Endpoint) (missing : Nat) (b : Nat) (p : Nat) (message : Bytes)
  | received (message : Bytes)

namespace QChatMessageProtocol

/-- Sends the protocol message that initiates the protocol. -/
def _lead_protocol (self : Endpoint) : Transfer Unit := do
  self._send_control_message [("name", .str self.protocol.name)] .PTCLMessage
  let response ← _wait_for_control_message self.protocol.message_type
  let answer ← attempt (response.data.item "ACK")
  match answer with
  | .str "ACK" => .done ()
  | _ => .raised (.ProtocolException "Failed to establish leader/role")

end QChatMessageProtocol

namespace SuperDenseCoding

/-- Shares a new pair with the peer, who will find its half on its port. -/
def createEPR (pair : Nat) : Transfer Qubit :=
  .signal .recvEPR (Qubit.fresh pair) (.done (Qubit.fresh pair))

def sendQubit (q : Qubit) : Transfer Unit := .signal .recvQubit q (.done ())
def recvEPR : Transfer Qubit := .await .recvEPR .done
def recvQubit : Transfer Qubit := .await .recvQubit .done

/-- Announces the length of the message. -/
def send_message (self : Endpoint) (message : Bytes) : Transfer Transmission := do
  let m ← self.exchange_messages [("message_length", .num message.length)]
    self.protocol.message_type
  Endpoint.require m "ack" "Failed to transmit message length"
  return .sending self message 0 0

/-- Sends one pair of bits of a byte. -/
def send_pair (self : Endpoint) (b : UInt8) (p pair : Nat) : Transfer Unit := do
  let b2 := b.toNat >>> (2 * p) &&& 1
  let b1 := b.toNat >>> (2 * p + 1) &&& 1
  let qa ← createEPR pair
  let m ← self.exchange_messages [("ack", .bool true)] self.protocol.message_type
  Endpoint.require m "ack" ("Failed to send " ++ self.user ++ "'s qubit")
  let qa := if b2 = 0 then qa else qa.X
  let qa := if b1 = 0 then qa else qa.Z
  sendQubit qa
  let m ← self.exchange_messages [("ack", .bool true)] self.protocol.message_type
  Endpoint.require m "ack" ("Failed to send EPR to " ++ self.user)
  let m ← _wait_for_control_message self.protocol.message_type
  Endpoint.require m "ack" ("Failed to send EPR to " ++ self.user)

/-- Takes the length of the message. -/
def receive_message (self : Endpoint) : Transfer Transmission := do
  let m ← self.exchange_messages [("ack", .bool true)] self.protocol.message_type
  let message_length ← attempt (do (← m.data.item "message_length").index)
  return .receiving self message_length.toNat 0 0 []

/-- Receives one pair of bits into the current byte. -/
def receive_pair (qubits : IdealQubits) (self : Endpoint) (b p : Nat) : Transfer Nat := do
  let m ← self.exchange_messages [("ack", .bool true)] self.protocol.message_type
  Endpoint.require m "ack" "Failed to receive half of EPR"
  let qb ← recvEPR
  let m ← self.exchange_messages [("ack", .bool true)] self.protocol.message_type
  Endpoint.require m "ack" ("Failed to obtain " ++ self.user ++ "'s half of the EPR")
  let qa ← recvQubit
  let (b1, b2) := qubits.measure qa qb
  let b := b ||| b2.val <<< (2 * p)
  let b := b ||| b1.val <<< (2 * p + 1)
  self._send_control_message [("ack", .bool true)] self.protocol.message_type
  return b

/-- One pass of either method: the next pair of the current byte, or the end of
the protocol when no byte is left. -/
def pass (qubits : IdealQubits) : Transmission → Option (Transfer Transmission)
  | .sending self [] _ _ => some do
    self._end_protocol
    return .sent
  | .sending self (b :: rest) p pairs => some do
    send_pair self b p pairs
    if p + 1 < 4 then return .sending self (b :: rest) (p + 1) (pairs + 1)
    else return .sending self rest 0 (pairs + 1)
  | .receiving self 0 _ _ message => some do
    self._end_protocol
    return .received message
  | .receiving self (missing + 1) b p message => some do
    let b ← receive_pair qubits self b p
    if p + 1 < 4 then return .receiving self (missing + 1) b (p + 1) message
    else do
      let byte ← attempt (Bytes.ofInt 1 b)
      return .receiving self missing 0 0 (message ++ byte)
  | .sent | .received _ => none

end SuperDenseCoding

end QChat
