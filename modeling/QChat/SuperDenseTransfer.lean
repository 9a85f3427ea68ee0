import QChat.SuperDense

/-!
# Superdense transfer

A sender and a receiver from the handshake to the end. The receiver may have two
acknowledgements on the way at a time, which are equal, so the session has an
eager schedule; it shows that no message lacks a key that is read, that each half
is there when it is taken and belongs to the current pair, that the parties do
not block each other, and that the receiver returns the message.
-/

namespace QChat

open Function (update)
open Process

/-- The sender creates the halves, the receiver takes them. -/
def qubitWiring : Wiring QubitPort := ⟨fun _ => .lead, fun _ => .follow⟩

/-- No order of deliveries is excluded, halves are there before they are taken,
and no error is expected. -/
def transferTerms : Terms Message QubitPort Qubit Exn where
  wiring := qubitWiring
  blocks := fun _ _ => False
  prompt := True
  fails := fun _ => False

/-- A pair of bits of a byte. -/
def pairBits (b : UInt8) (p : Nat) : Bit × Bit :=
  (if b.toNat >>> (2 * p) &&& 1 = 0 then 0 else 1,
    if b.toNat >>> (2 * p + 1) &&& 1 = 0 then 0 else 1)

/-- The pairs of a byte that have been received. -/
def received (b : UInt8) (p : Nat) : Nat := b.toNat % 4 ^ p

/-- Shifting a pair of bits to its place adds it to the pairs below. -/
theorem received_next (b : UInt8) (p : Nat) (inside : p < 4) :
    received b p ||| (pairBits b p).1.val <<< (2 * p) ||| (pairBits b p).2.val <<< (2 * p + 1) =
      received b (p + 1) := by
  have table : ∀ value : Fin 256, ∀ place : Fin 4,
      value.val % 4 ^ place.val |||
        (if value.val >>> (2 * place.val) &&& 1 = 0 then 0 else 1 : Bit).val <<< (2 * place.val) |||
        (if value.val >>> (2 * place.val + 1) &&& 1 = 0 then 0 else 1 : Bit).val <<<
          (2 * place.val + 1) = value.val % 4 ^ (place.val + 1) := by
    decide +kernel
  exact table ⟨b.toNat, b.toNat_lt⟩ ⟨p, inside⟩

/-- All four pairs make up the byte. -/
theorem received_whole (b : UInt8) : Bytes.ofInt 1 (received b 4) = .ok [b] := by
  have bounded : b.toNat < 256 := b.toNat_lt
  have same : received b 4 = b.toNat := Nat.mod_eq_of_lt bounded
  simp [same, Bytes.ofInt, Bytes.bigEndian, bounded, Nat.mod_eq_of_lt bounded]

/-- One pair is relayed: the sender creates it, sends its half with the gates
applied, and gets three equal acknowledgements, the last two of which the
receiver may have sent before the sender takes either. -/
theorem Triple.relay {α : Type} {code : Side → Transfer α} {returns : α → Prop}
    {post : (Side → α) → Prop} (pair : Nat) (qubit : Qubit) (ask answer : Message)
    {firstReply secondReply thirdReply respond respondAgain : Message → Transfer α}
    {takeHalf takeQubit : Qubit → Transfer α} {afterQubit : Transfer α}
    (same : qubit.pair = pair)
    (leads : code .lead =
      .signal .recvEPR (Qubit.fresh pair) (.send ask (.receive firstReply)))
    (encodes : firstReply answer = .signal .recvQubit qubit (.send ask (.receive secondReply)))
    (waits : secondReply answer = .receive thirdReply)
    (listens : code .follow = .receive respond)
    (responds : respond ask = .send answer (.await .recvEPR takeHalf))
    (halved : takeHalf (Qubit.fresh pair) = .receive respondAgain)
    (respondsAgain : respondAgain ask = .send answer (.await .recvQubit takeQubit))
    (decodes : takeQubit qubit = .send answer afterQubit) (calm : afterQubit.calm returns)
    (rest : ∀ ended : Side → Transfer α, ended .lead = thirdReply answer →
      ended .follow = afterQubit →
        Triple transferTerms (fun _ _ item => item.pair = pair) returns ended post) :
    Triple transferTerms (fun _ _ item => item.pair = pair) returns code post := by
  -- The receiver has nothing to act on until the sender speaks.
  refine .signal .lead .recvEPR (Qubit.fresh pair) _ rfl leads
    (fun _ => ⟨rfl, respond, listens⟩) ?_
  refine .send .lead ask (.receive firstReply) (by simp) ?_
  refine .receive .follow ask [] respond (by simpa using listens) (by simp) (by simp)
    (by simp [Settled]) (by simp [Process.calm]) ?_
  refine .send .follow answer (.await .recvEPR takeHalf) (by simpa using responds) ?_
  refine .await .follow .recvEPR (Qubit.fresh pair) [] takeHalf rfl (by simp) (by simp) rfl ?_
  refine .receive .lead answer [] firstReply (by simp) (by simp) (by simp) (by simp [Settled])
    (by simp [halved, Process.calm]) ?_
  refine .signal .lead .recvQubit qubit (.send ask (.receive secondReply)) rfl
    (by simpa using encodes) (fun _ => ⟨by simp, respondAgain, by simpa using halved⟩) ?_
  refine .send .lead ask (.receive secondReply) (by simp) ?_
  refine .receive .follow ask [] respondAgain (by simpa using halved) (by simp) (by simp)
    (by simp [Settled]) (by simp [Process.calm]) ?_
  refine .send .follow answer (.await .recvQubit takeQubit) (by simpa using respondsAgain) ?_
  refine .await .follow .recvQubit qubit [] takeQubit rfl (by simp) (by simp) same ?_
  -- The second acknowledgement may still be on its way when the third is sent.
  refine .send .follow answer afterQubit (by simpa using decodes) ?_
  refine .receive .lead answer [answer] secondReply (by simp) (by simp) (by simp)
    (by simp [Settled]) (by simpa using calm) ?_
  refine .receive .lead answer [] thirdReply (by simpa using waits) (by simp) (by simp)
    (by simp [Settled]) (by simpa using calm) ?_
  have continues := rest (Side.select (thirdReply answer) afterQubit) rfl rfl
  unfold Triple at continues
  convert continues using 1
  · funext side
    cases side <;> simp
  · funext port
    cases port <;> simp
  · funext side
    cases side <;> simp

/-- A sender, a receiver and the message to be sent. The message is any string of bytes, the
empty one included. -/
structure Stream where
  peers : Peers
  qubits : IdealQubits
  content : Bytes

namespace Stream

variable (stream : Stream)

/-- The protocol object of a party. -/
def endpoint (side : Side) : Endpoint := stream.peers.endpoint .SuperDenseCoding .null side

/-- The acknowledgement of a party. -/
def ack (side : Side) : Message := stream.peers.message side .SPDSMessage [("ack", .bool true)]

/-- The sender establishes its role and announces the message; the receiver waits
to be asked. -/
def session : Side → Transfer Transmission
  | .lead => do
    QChatMessageProtocol._lead_protocol (stream.endpoint .lead)
    SuperDenseCoding.send_message (stream.endpoint .lead) stream.content
  | .follow => do
    let self ← QChatClient._follow_protocol (stream.peers.name .follow)
      (stream.peers.chances .follow)
    SuperDenseCoding.receive_message self

/-- The states of a session, under any order of its steps and deliveries. -/
def Reachable (state : Duet Message QubitPort Qubit Exn Transmission) : Prop :=
  Duet.Reaches (fun _ => SuperDenseCoding.pass stream.qubits) (Duet.start stream.session) state

/-- What the receiver has of the current byte. -/
def partialByte : (rest : Bytes) → (p : Nat) → Nat
  | [], _ => 0
  | b :: _, p => received b p

/-- The sender between two pairs. -/
def sender (rest : Bytes) (p pairs : Nat) : Transmission :=
  .sending (stream.endpoint .lead) rest p pairs

/-- The receiver at the same place. -/
def receiver (whole rest : Bytes) (p : Nat) : Transmission :=
  .receiving (stream.endpoint .follow) rest.length (partialByte rest p) p whole

/-- Both parties have transferred the bytes of `whole` and `p` pairs of the first
byte of `rest`, in as many passes as there were pairs. -/
structure At (pairs : Nat) (whole rest : Bytes) (p : Nat) (results : Side → Transmission) :
    Prop where
  content : stream.content = whole ++ rest
  inside : p < 4
  between : rest = [] → p = 0
  lead : results .lead = stream.sender rest p pairs
  follow : results .follow = stream.receiver whole rest p

variable {stream} in
theorem At.both {pairs : Nat} {whole rest : Bytes} {p : Nat} {results : Side → Transmission}
    (place : stream.At pairs whole rest p results) :
    results = Side.select (stream.sender rest p pairs) (stream.receiver whole rest p) := by
  funext side
  cases side with
  | lead => exact place.lead
  | follow => exact place.follow

/-- Both parties are at the same place, or have returned, the receiver with the
message. -/
def Final (heads : Side → List Transmission) (results : Side → Transmission) : Prop :=
  (∃ pairs whole rest p, (∀ side, (heads side).length = pairs) ∧
    stream.At pairs whole rest p results) ∨
  (results .lead = .sent ∧ results .follow = .received stream.content)

/-- The receiver sends nothing before it is told that the next pair is ready. -/
def Resting : Transmission → Prop
  | .receiving self _ _ _ _ => self = stream.endpoint .follow
  | .received _ => True
  | .sending _ _ _ _ | .sent => False

/-- The loop over the pairs. What is taken in a pass is of the pair of that pass. -/
def loop : Loop Message QubitPort Qubit Exn Transmission where
  enter := fun _ => SuperDenseCoding.pass stream.qubits
  ready := fun _ heads _ item => item.pair + 1 = heads.length
  idle := Side.select (fun _ => False) stream.Resting
  final := stream.Final
  calm := by
    intro side head body idle again
    cases side with
    | lead => exact False.elim idle
    | follow =>
      cases head with
      | sending self message p pairs => exact False.elim idle
      | sent => cases again
      | received message => cases again
      | receiving self missing b p message =>
        obtain rfl : self = stream.endpoint .follow := idle
        cases missing with
        | zero =>
          cases again
          rw [endpoint, Endpoint._end_protocol, bind_assoc]
          exact stream.peers.exchange_calm _ _ _ _
        | succ missing =>
          cases again
          rw [endpoint, SuperDenseCoding.receive_pair, bind_assoc]
          exact stream.peers.exchange_calm _ _ _ _

/-- The sender's request is understood as it is meant. -/
theorem protocolRequest_message :
    protocolRequest (.obj [("name", .str ProtocolClass.SuperDenseCoding.name)]) =
      .ok (.SuperDenseCoding, .null) := by
  simp only [protocolRequest, Dict.lookup, Dict.remove, ↓reduceIte,
    ProtocolClass.createProtocol_name, ProtocolClass.isKeyProtocol]

/-- The length makes the receiver expect as many bytes. -/
theorem length_triple :
    Triple transferTerms (fun _ _ _ => False) stream.Resting
      (Side.select (SuperDenseCoding.send_message (stream.endpoint .lead) stream.content)
        (SuperDenseCoding.receive_message (stream.endpoint .follow)))
      (fun results => stream.At 0 [] stream.content 0 results) := by
  let data : Side → List (String × Value) :=
    Side.select [("message_length", .num stream.content.length)] [("ack", .bool true)]
  let next : Side → Message → Transfer Transmission :=
    Side.select
      (fun m => do
        Endpoint.require m "ack" "Failed to transmit message length"
        return .sending (stream.endpoint .lead) stream.content 0 0)
      (fun m => do
        let message_length ← attempt (do (← m.data.item "message_length").index)
        return .receiving (stream.endpoint .follow) message_length.toNat 0 0 [])
  have methods : Side.select
      (SuperDenseCoding.send_message (stream.endpoint .lead) stream.content)
      (SuperDenseCoding.receive_message (stream.endpoint .follow)) =
      fun side => (stream.endpoint side).exchange_messages (data side) .SPDSMessage >>=
        next side := by
    funext side
    cases side <;> rfl
  have leads : next .lead (stream.peers.message .follow .SPDSMessage (data .follow)) =
      .done (stream.sender stream.content 0 0) := by
    simp only [next, data, Side.select_lead, Side.select_follow, Peers.require_message, done_bind,
      pure_eq, sender]
  have follows : next .follow (stream.peers.message .lead .SPDSMessage (data .lead)) =
      .done (stream.receiver [] stream.content 0) := by
    have nothing : partialByte stream.content 0 = 0 := by
      cases stream.content with
      | nil => rfl
      | cons b rest => simp [partialByte, received, Nat.mod_one]
    simp only [next, data, Side.select_lead, Side.select_follow, Peers.message_data,
      Value.item_single, ok_bind, Value.index, attempt_ok, done_bind, pure_eq, receiver, nothing,
      Int.toNat_natCast]
  rw [methods]
  refine Triple.exchange_messages stream.peers data .SPDSMessage next _ ?_ ?_
  · rw [follows]
    rfl
  · have both : (fun side => next side
        (stream.peers.message side.other .SPDSMessage (data side.other))) = fun side =>
        .done (Side.select (stream.sender stream.content 0 0)
          (stream.receiver [] stream.content 0) side) := by
      funext side
      cases side with
      | lead => exact leads
      | follow => exact follows
    rw [both]
    refine Triple.done _ ?_
    exact ⟨rfl, by decide, fun _ => rfl, rfl, rfl⟩

/-- The handshake gives both parties their protocol objects. -/
theorem session_triple :
    Triple transferTerms (fun _ _ _ => False) stream.Resting stream.session
      (fun results => stream.At 0 [] stream.content 0 results) := by
  have whole : stream.session = Side.select
      (QChatMessageProtocol._lead_protocol (stream.endpoint .lead) >>= fun _ =>
        SuperDenseCoding.send_message (stream.endpoint .lead) stream.content)
      (QChatClient._follow_protocol (stream.peers.name .follow) (stream.peers.chances .follow) >>=
        SuperDenseCoding.receive_message) := by
    funext side
    cases side <;> rfl
  rw [whole]
  refine Triple.handshake stream.peers _ protocolRequest_message rfl _ _ ?_ stream.length_triple
  rw [SuperDenseCoding.receive_message]
  exact stream.peers.exchange_calm _ _ _ _

/-- The qubit the sender sends for a pair of bits. -/
theorem encoded (b : UInt8) (p pair : Nat) :
    (let qa := if b.toNat >>> (2 * p) &&& 1 = 0 then Qubit.fresh pair else (Qubit.fresh pair).X
     if b.toNat >>> (2 * p + 1) &&& 1 = 0 then qa else qa.Z) =
      ⟨pair, (pairBits b p).1, (pairBits b p).2⟩ := by
  simp only [pairBits, Qubit.fresh, Qubit.X, Qubit.Z]
  split <;> split <;> rfl

/-- The next place after one pair. -/
def next (whole : Bytes) (b : UInt8) (rest : Bytes) (p pairs : Nat) : Side → Transmission :=
  if p + 1 < 4 then
    Side.select (stream.sender (b :: rest) (p + 1) (pairs + 1))
      (stream.receiver whole (b :: rest) (p + 1))
  else
    Side.select (stream.sender rest 0 (pairs + 1)) (stream.receiver (whole ++ [b]) rest 0)

theorem partialByte_zero (rest : Bytes) : partialByte rest 0 = 0 := by
  cases rest with
  | nil => rfl
  | cons b rest => exact Nat.mod_one _

/-- The next place is again one where both parties are, with a pair less to go. -/
theorem next_at (whole : Bytes) (b : UInt8) (rest : Bytes) (p pairs : Nat)
    (content : stream.content = whole ++ b :: rest) (inside : p < 4) :
    ∃ whole' rest' p', stream.At (pairs + 1) whole' rest' p' (stream.next whole b rest p pairs) ∧
      4 * rest'.length + (p + 1) = 4 * (b :: rest).length + p' := by
  unfold next
  split
  · next more =>
    exact ⟨whole, b :: rest, p + 1, ⟨content, more, by simp, rfl, rfl⟩, rfl⟩
  · refine ⟨whole ++ [b], rest, 0, ⟨by simp [content], by decide, fun _ => rfl, rfl, rfl⟩, ?_⟩
    rw [List.length_cons]
    omega

theorem next_resting (whole : Bytes) (b : UInt8) (rest : Bytes) (p pairs : Nat) :
    stream.Resting (stream.next whole b rest p pairs .follow) := by
  unfold next
  split <;> rfl

/-- One pass transfers one pair. -/
theorem pair_triple (whole : Bytes) (b : UInt8) (rest : Bytes) (p pairs : Nat) (inside : p < 4)
    (bodies : Side → Transfer Transmission)
    (sends : SuperDenseCoding.pass stream.qubits (stream.sender (b :: rest) p pairs) =
      some (bodies .lead))
    (takes : SuperDenseCoding.pass stream.qubits (stream.receiver whole (b :: rest) p) =
      some (bodies .follow)) :
    Triple transferTerms (fun _ _ item => item.pair = pairs) stream.Resting bodies
      (fun results => results = stream.next whole b rest p pairs) := by
  simp only [sender, SuperDenseCoding.pass, Option.some.injEq] at sends
  simp only [receiver, List.length_cons, SuperDenseCoding.pass, Option.some.injEq] at takes
  have sum := received_next b p inside
  have measured := stream.qubits.decodes pairs (pairBits b p).1 (pairBits b p).2
  have gates := encoded b p pairs
  have accepted (side : Side) (failure : String) :
      (Endpoint.require (stream.ack side) "ack" failure : Transfer Unit) = .done () :=
    stream.peers.require_message side _ _ _
  have asks : ((stream.endpoint .lead).exchange_messages [("ack", .bool true)] .SPDSMessage :
      Transfer Message) = .send (stream.ack .lead) (_wait_for_control_message .SPDSMessage) :=
    stream.peers.exchange_lead _ _
  have answers : ((stream.endpoint .follow).exchange_messages [("ack", .bool true)] .SPDSMessage :
      Transfer Message) = (_wait_for_control_message .SPDSMessage >>= fun m =>
        .send (stream.ack .follow) (.done m)) :=
    stream.peers.exchange_follow _ _
  have releases : ((stream.endpoint .follow)._send_control_message [("ack", .bool true)]
      .SPDSMessage : Transfer Unit) = .send (stream.ack .follow) (.done ()) :=
    stream.peers.send_control_message .follow _ _
  -- What each party makes of a finished pair.
  have announced : (if p + 1 < 4 then pure (.sending (stream.endpoint .lead) (b :: rest) (p + 1)
      (pairs + 1)) else pure (.sending (stream.endpoint .lead) rest 0 (pairs + 1)) :
        Transfer Transmission) = .done (stream.next whole b rest p pairs .lead) := by
    unfold next
    split <;> rfl
  have collected : (if p + 1 < 4 then .done (.receiving (stream.endpoint .follow)
      (rest.length + 1) (received b (p + 1)) (p + 1) whole)
      else attempt (Bytes.ofInt 1 (received b (p + 1))) >>= fun byte =>
        .done (.receiving (stream.endpoint .follow) rest.length 0 0 (whole ++ byte)) :
        Transfer Transmission) = .done (stream.next whole b rest p pairs .follow) := by
    unfold next
    split
    · rfl
    · next last =>
      obtain rfl : p = 3 := by omega
      rw [received_whole, attempt_ok, done_bind, Side.select_follow, receiver, partialByte_zero]
  have kind (side : Side) : (stream.endpoint side).protocol.message_type = .SPDSMessage := rfl
  have cls (side : Side) : (stream.ack side).cls = .SPDSMessage := rfl
  refine Triple.relay pairs ⟨pairs, (pairBits b p).1, (pairBits b p).2⟩ (stream.ack .lead)
    (stream.ack .follow) rfl (by
      rw [← sends]
      simp only [SuperDenseCoding.send_pair, SuperDenseCoding.createEPR, kind, asks,
        _wait_for_control_message, signal_bind, done_bind, send_bind, receive_bind]
      rfl) (by
      simp only [cls, true_or, ↓reduceIte, done_bind, accepted, SuperDenseCoding.sendQubit, gates,
        signal_bind, send_bind, receive_bind]
      rfl) (by
      simp only [cls, true_or, ↓reduceIte, done_bind, accepted, receive_bind]
      rfl) (by
      rw [← takes]
      simp only [SuperDenseCoding.receive_pair, kind, answers, _wait_for_control_message,
        receive_bind]
      rfl) (by
      simp only [cls, true_or, ↓reduceIte, done_bind, accepted, SuperDenseCoding.recvEPR,
        await_bind, send_bind]
      rfl) (by
      simp only [receive_bind]
      rfl) (by
      simp only [cls, true_or, ↓reduceIte, done_bind, accepted, SuperDenseCoding.recvQubit,
        await_bind, send_bind]
      rfl) ((by
      simp only [releases, measured, partialByte, sum, send_bind, done_bind, pure_eq]
      exact congrArg (Process.send (stream.ack .follow)) collected) : _ = Process.send (stream.ack .follow)
        (.done (stream.next whole b rest p pairs .follow))) (stream.next_resting whole b rest p pairs)
    fun ended leads follows => ?_
  have both : ended = fun side => .done (stream.next whole b rest p pairs side) := by
    funext side
    cases side with
    | lead =>
      rw [leads]
      simp only [cls, true_or, ↓reduceIte, done_bind, accepted]
      exact announced
    | follow => exact follows
  rw [both]
  exact Triple.done _ rfl

/-- With no byte left both parties end the protocol. -/
theorem end_triple (bodies : Side → Transfer Transmission) (pairs : Nat)
    (ends : SuperDenseCoding.pass stream.qubits (stream.sender [] 0 pairs) = some (bodies .lead))
    (stops : SuperDenseCoding.pass stream.qubits (stream.receiver stream.content [] 0) =
      some (bodies .follow)) :
    Triple transferTerms (fun _ _ _ => False) stream.Resting bodies
      (fun results => results = Side.select .sent (.received stream.content)) := by
  simp only [sender, SuperDenseCoding.pass, Option.some.injEq] at ends
  simp only [receiver, List.length_nil, SuperDenseCoding.pass, Option.some.injEq] at stops
  have methods : bodies = fun side => (stream.endpoint side).exchange_messages
      [("FIN", .bool true)] .SPDSMessage >>= fun m => do
        Endpoint.require m "FIN" ("Failed to terminate " ++
          ProtocolClass.SuperDenseCoding.name ++ " protocol")
        return Side.select .sent (.received stream.content) side := by
    funext side
    cases side with
    | lead =>
      rw [← ends, Endpoint._end_protocol, bind_assoc]
      rfl
    | follow =>
      rw [← stops, Endpoint._end_protocol, bind_assoc]
      rfl
  rw [methods]
  refine Triple.exchange_messages stream.peers (fun _ => [("FIN", .bool true)]) .SPDSMessage _ _
    ?_ ?_
  · rw [Peers.require_message]
    trivial
  · simp only [Peers.require_message, done_bind, pure_eq]
    exact Triple.done _ rfl

/-- From every place where both parties are they either make another pass each or
have returned. -/
theorem closed : Scheduled.Closed transferTerms stream.loop := by
  rintro heads results (⟨pairs, whole, rest, p, length, place⟩ | ⟨sent, received⟩)
  · have both := place.both
    have longer (side : Side) : (heads side ++ [results side]).length = pairs + 1 := by
      simp [length side]
    subst both
    cases rest with
    | nil =>
      obtain rfl : p = 0 := place.between rfl
      obtain rfl : stream.content = whole := by simpa using place.content
      refine .inr ⟨Side.select _ _, ?_, (stream.end_triple (Side.select _ _) pairs rfl rfl).pass
        (fun _ _ _ never => False.elim never) (fun _ known => known) ?_⟩
      · intro side
        cases side <;> rfl
      · rintro results rfl
        exact .inr ⟨rfl, rfl⟩
    | cons b rest =>
      refine .inr ⟨Side.select _ _, ?_, (stream.pair_triple whole b rest p pairs place.inside
        (Side.select _ _) rfl rfl).pass ?_ (fun _ known => known) ?_⟩
      · intro side
        cases side <;> rfl
      · intro side port item same
        exact (congrArg (· + 1) same).trans (longer side).symm
      · rintro results rfl
        obtain ⟨whole', rest', p', there, -⟩ :=
          stream.next_at whole b rest p pairs place.content place.inside
        exact .inl ⟨pairs + 1, whole', rest', p', longer, there⟩
  · refine .inl fun side => ?_
    cases side with
    | lead => rw [sent]; rfl
    | follow => rw [received]; rfl

/-- Every reachable state is on schedule. -/
theorem onSchedule {state : Duet Message QubitPort Qubit Exn Transmission}
    (reached : stream.Reachable state) :
    Scheduled.OnSchedule transferTerms stream.loop state := by
  have first : Scheduled transferTerms stream.loop (fun _ => []) (fun _ => []) (fun _ => [])
      stream.session := by
    refine stream.session_triple.pass (fun _ _ _ never => False.elim never)
      (fun _ known => known) fun results place => ?_
    exact .inl ⟨0, [], stream.content, 0, fun _ => rfl, place⟩
  exact (Scheduled.start_onSchedule stream.session first).run stream.closed
    (reached.inOrder fun _ _ => id)

/-- The loop that both methods share, for either party. -/
abbrev enter (_ : Side) : Transmission → Option (Transfer Transmission) :=
  SuperDenseCoding.pass stream.qubits

/-- From where both parties are the rest of the message can be transferred. -/
theorem reaches_end (n : Nat) {pairs : Nat} {whole rest : Bytes} {p : Nat}
    {results : Side → Transmission} (place : stream.At pairs whole rest p results)
    (left : 4 * rest.length = n + p) (heads : Side → List Transmission) :
    ∃ after, Duet.Reaches stream.enter
      (.settled (fun _ => []) (fun _ => []) heads fun side => .done (results side))
      (.settled (fun _ => []) (fun _ => []) after fun side =>
        .done (Side.select .sent (.received stream.content) side)) := by
  induction n generalizing pairs whole rest p results heads with
  | zero =>
    have inside := place.inside
    obtain rfl : rest = [] := List.eq_nil_of_length_eq_zero (by omega)
    obtain rfl : p = 0 := place.between rfl
    obtain rfl : stream.content = whole := by simpa using place.content
    have ends := (stream.end_triple (Side.select _ _) pairs rfl rfl).reaches stream.enter results
    obtain ⟨_, passed, rfl⟩ := ends (fun side => by rw [place.both]; cases side <;> rfl) (fun _ => id) heads
    exact ⟨_, passed.reaches⟩
  | succ n inductionHypothesis =>
    cases rest with
    | nil =>
      obtain rfl : p = 0 := place.between rfl
      simp at left
    | cons b rest =>
      have goes := (stream.pair_triple whole b rest p pairs place.inside (Side.select _ _) rfl rfl).reaches
        stream.enter results
      obtain ⟨_, passed, rfl⟩ := goes (fun side => by rw [place.both]; cases side <;> rfl) (fun _ => id) heads
      obtain ⟨whole', rest', p', there, fewer⟩ :=
        stream.next_at whole b rest p pairs place.content place.inside
      obtain ⟨after, reached⟩ := inductionHypothesis there (by simp only [List.length_cons] at left fewer; omega) _
      exact ⟨after, passed.reaches.trans reached⟩

/-- In every state of a session, whatever order its messages are delivered in: no party has
raised an error, so each message taken was of the expected class and had the key that was read;
a half is only taken when it has been sent, and it is of the pair of the current pass; some step
is possible until both methods have returned; and the receiver has then returned the message.

Proof: the invariant says in which pass each party is, what is on its way between them and which
bits have been received. Every step leads from one such place to the next. -/
theorem superdense_transfer (state : Duet Message QubitPort Qubit Exn Transmission)
    (reached : stream.Reachable state) :
    (∀ side error, state.code side ≠ .raised error) ∧
    (∀ side port rest, state.code side = .await port rest → side = .follow ∧
      ∃ item others, state.arrived port ++ state.shipping port = item :: others ∧
        item.pair + 1 = (state.heads .follow).length) ∧
    ((state.code .lead = .done .sent ∧ ∃ message, state.code .follow = .done (.received message)) ∨
      ∃ next, Duet.Step (fun _ => SuperDenseCoding.pass stream.qubits) state next) ∧
    (∀ message, state.code .lead = .done .sent →
      state.code .follow = .done (.received message) → message = stream.content) := by
  have onSchedule := stream.onSchedule reached
  have moves := onSchedule.progress stream.closed
  obtain ⟨pending, stock, spread, runs⟩ := onSchedule
  have calm (side : Side) (error : Exn) : state.code side ≠ .raised error := by
    intro failed
    obtain ⟨errors, never, -⟩ := runs.raised_fails side error failed
    exact never
  have ended (results : Side → Transmission)
      (returned : ∀ side, state.code side = .done (results side))
      (stops : ∀ side, stream.loop.enter side (results side) = none) :
      results .lead = .sent ∧ results .follow = .received stream.content := by
    obtain ⟨pairs, whole, rest, p, -, place⟩ | final := runs.both_returned results returned stops
    · have again := stops .lead
      rw [place.lead] at again
      cases rest <;> cases again
    · exact final
  refine ⟨calm, ?_, ?_, ?_⟩
  · intro side port rest acts
    obtain rfl : side = .follow := (runs.reads_port side port rest acts).symm
    obtain ⟨item, others, present, current⟩ := runs.supplied trivial .follow port rest acts
    exact ⟨rfl, item, others, (spread.items port).trans present, current⟩
  · obtain stopped | next := moves
    · left
      have both (side : Side) : ∃ result, state.Returned stream.loop.enter side result := by
        obtain returned | ⟨error, failed⟩ := stopped side
        · exact returned
        · exact absurd failed (calm side error)
      choose results returned using both
      obtain ⟨lead, follow⟩ := ended results (fun side => (returned side).1)
        fun side => (returned side).2
      exact ⟨lead ▸ (returned .lead).1, stream.content, follow ▸ (returned .follow).1⟩
    · exact .inr next
  · intro message lead follow
    obtain ⟨-, same⟩ := ended (Side.select .sent (.received message))
      (fun side => by cases side <;> assumption) (fun side => by cases side <;> rfl)
    simpa using same

/-- A message of two bytes from one client to another. -/
def greeting : Stream where
  peers := ⟨Side.select "alice" "bob", alice_bob_short,
    fun _ => ⟨fun _ _ => 0, fun _ _ => 0, fun _ _ => 0, fun _ => 0⟩⟩
  qubits := plainQubits
  content := [72, 105]

/-- A whole session: both calls return, and the receiver has the two bytes. -/
theorem superdense_transfer_greeting :
    ∃ state, greeting.Reachable state ∧ state.code .lead = .done .sent ∧
      ∃ message, state.code .follow = .done (.received message) ∧ message = [72, 105] := by
  obtain ⟨results, begun, place⟩ | ⟨_, errors, _, _, never⟩ :=
    Scheduled.reaches greeting.enter greeting.session_triple (fun _ => Process.done) fun _ => []
  · obtain ⟨after, ended⟩ := greeting.reaches_end 8 place (by decide) fun _ => []
    simp only [Process.bind_done] at begun
    have reached : greeting.Reachable _ := begun.reaches.trans ended
    exact ⟨_, reached, rfl, _, rfl,
      (greeting.superdense_transfer _ reached).2.2.2 _ rfl rfl⟩
  · exact False.elim never

end Stream

end QChat
