import QChat.Delivery
import QChat.History

/-!
# Stored keys

Each end of a key session stores the key in its own thread, when its own `execute`
has returned. Nothing orders the stores of two sessions, and nothing keeps a chat
message or a reading of the history from happening between the stores of the two
ends. What a client holds is the key of the session that it stored last.

Every session is taken to deliver one key to both of its ends.
-/

namespace QChat

open Function (update)

/-- How far a client is with its end of a session: `execute` runs, or has returned, or the key
is stored. Between the last two other threads of the client may act. -/
inductive KeyStage where
  | executing
  | keyed
  | stored
deriving DecidableEq

/-- A key session: who leads it, the key both ends return and how far they are. That both ends
return the same key is what the protocols are for, and is taken for granted here. -/
structure KeySession where
  leader : Client
  key : Bytes
  stage : Client → KeyStage

/-- One client is further with its end. -/
def KeySession.reach (session : KeySession) (client : Client) (stage : KeyStage) : KeySession :=
  { session with stage := update session.stage client stage }

/-- A chat message, the key it was encrypted under, and the session whose key its sender
had stored last when it created the message. -/
structure Sealed (cipher : Cipher) where
  message : Message
  key : Value
  session : Option Nat
  encrypted : ∃ nonce content ciphertext tag,
    cipher.encrypt key nonce content = .ok (ciphertext, tag) ∧
    message.data = .obj (QChatClient.cipherData nonce ciphertext tag)

/-- Two clients and what is on the way between them. `stores` are the sessions whose key
a client has stored, in this order, and `mailbox` what stands in its mailbox. -/
structure Correspondence (cipher : Cipher) where
  node : Client → Node
  sessions : List KeySession
  stores : Client → List Nat
  underWay : Client → List (Sealed cipher)
  mailbox : Client → List (Sealed cipher)

/-- Stores the key of a session with a user, in the entry that the user has. -/
def storeKey (user : String) (key : Bytes) (node : Node) : Node :=
  { node with
    userDB := node.userDB.changeUserInfo (.str user) (Dict.single "message_key" (.bytes key)) }

/-- Two clients that know each other. Each holds the same key for the other one at
first, or none, and no chat message. -/
structure Correspondents where
  core : Client → QChatCore
  cipher : Cipher
  start : Client → Node
  known : ∀ client, (start client).userDB.hasUser (.str (core client.other).name) = true
  agree : ∀ client, (start client).userDB.stored (.str (core client.other).name) "message_key" =
    (start .A).userDB.stored (.str (core .B).name) "message_key"
  empty : ∀ client, (start client).mailbox = []

namespace Correspondents

variable (given : Correspondents)

/-- What a client calls the other one. -/
def peer (client : Client) : String := (given.core client.other).name

/-- The key a node of a client holds for the other one, if it holds one. -/
def messageKey (client : Client) (node : Node) : Option Value :=
  node.userDB.stored (.str (given.peer client)) "message_key"

/-- One step of a client, or the delivery of a chat message. A call of
`createQChatMessage` that leads a session first goes on when the session is over, as one
that finds a key does. -/
inductive Step : Correspondence given.cipher → Correspondence given.cipher → Prop where
  | _establish_key (state : Correspondence given.cipher) (leader : Client) (key : Bytes)
      (known : (state.node leader).userDB.hasUser (.str (given.peer leader)) = true) :
      Step state { state with
        sessions := state.sessions ++ [⟨leader, key, fun _ => .executing⟩] }
  | execute (state : Correspondence given.cipher) (client : Client) (position : Nat)
      (session : KeySession) (running : state.sessions[position]? = some session)
      (executing : session.stage client = .executing) :
      Step state { state with
        sessions := state.sessions.set position (session.reach client .keyed) }
  | changeUserInfo (state : Correspondence given.cipher) (client : Client) (position : Nat)
      (session : KeySession) (running : state.sessions[position]? = some session)
      (keyed : session.stage client = .keyed) :
      Step state { state with
        node := update state.node client
          (storeKey (given.peer client) session.key (state.node client))
        sessions := state.sessions.set position (session.reach client .stored)
        stores := update state.stores client (state.stores client ++ [position]) }
  | createQChatMessage (state : Correspondence given.cipher) (client : Client)
      (sealed : Sealed given.cipher) (nonce : Bytes) (plaintext : String)
      (stored : given.messageKey client (state.node client) = some sealed.key)
      (created : QChatClient.createQChatMessage (given.core client) given.cipher (return ()) nonce
        (given.peer client) plaintext (state.node client) = (.ok sealed.message, state.node client))
      (latest : sealed.session = (state.stores client).getLast?) :
      Step state { state with
        underWay := update state.underWay client.other
          (state.underWay client.other ++ [sealed]) }
  | storeMessage (state : Correspondence given.cipher) (client : Client)
      (before after : List (Sealed given.cipher)) (sealed : Sealed given.cipher)
      (pending : state.underWay client = before ++ sealed :: after) :
      Step state { state with
        node := update state.node client
          (QChatCore.storeMessage sealed.message (state.node client)).2
        underWay := update state.underWay client (before ++ after)
        mailbox := update state.mailbox client (state.mailbox client ++ [sealed]) }
  | getMessageHistory (state : Correspondence given.cipher) (client : Client) :
      Step state { state with
        node := update state.node client
          (QChatClient.getMessageHistory given.cipher (state.node client)).2
        mailbox := update state.mailbox client [] }

/-- The clients before the first session: they know each other, with the same key or none. -/
def initial : Correspondence given.cipher :=
  ⟨given.start, [], fun _ => [], fun _ => [], fun _ => []⟩

abbrev Reaches (state : Correspondence given.cipher) : Prop :=
  Relation.ReflTransGen given.Step given.initial state

/-- No session is running. -/
def Quiet (state : Correspondence given.cipher) : Prop :=
  ∀ session ∈ state.sessions, ∀ client, session.stage client = .stored

/-- A run in which a session only starts when none is running, as where users wait for one to
end before they start the next. -/
abbrev ReachesInTurn (state : Correspondence given.cipher) : Prop :=
  Relation.ReflTransGen (fun before after => given.Step before after ∧
    (after.sessions.length = before.sessions.length ∨ given.Quiet before)) given.initial state

/-- Both clients hold the same key for each other, or neither holds one. This is what chat
messages need to be read. -/
def Agree (state : Correspondence given.cipher) : Prop :=
  given.messageKey .A (state.node .A) = given.messageKey .B (state.node .B)

/-- The key a session delivers; without a session, the one the clients start with. -/
def keyOf (sessions : List KeySession) : Option Nat → Option Value
  | none => given.messageKey .A (given.start .A)
  | some position => sessions[position]?.map fun session => .bytes session.key

/-- A message was encrypted under the key of its session, the one its sender had stored last. -/
def Explains (sessions : List KeySession) (sealed : Sealed given.cipher) : Prop :=
  given.keyOf sessions sealed.session = some sealed.key

/-- What holds in every run: each client knows the other one, holds the key it has stored last,
and has stored the keys of the sessions it has ended, each once; and every message was encrypted
under the key of the session it names. -/
structure Sound (state : Correspondence given.cipher) : Prop where
  known : ∀ client, (state.node client).userDB.hasUser (.str (given.peer client)) = true
  holds : ∀ client, given.messageKey client (state.node client) =
    given.keyOf state.sessions (state.stores client).getLast?
  once : ∀ client, (state.stores client).Nodup
  stored : ∀ client position, position ∈ state.stores client ↔
    ∃ session, state.sessions[position]? = some session ∧ session.stage client = .stored
  sent : ∀ client, ∀ sealed ∈ state.underWay client, given.Explains state.sessions sealed
  received : ∀ client, ∀ sealed ∈ state.mailbox client, given.Explains state.sessions sealed
  kept : ∀ client, (state.node client).mailbox = (state.mailbox client).map (·.message)

variable {given}

section sessions

variable {sessions : List KeySession} {position : Nat} {session : KeySession}

/-- A new session does not change what the earlier ones deliver. -/
theorem keyOf_append {latest : Option Nat} (within : ∀ place ∈ latest, place < sessions.length)
    (added : KeySession) :
    given.keyOf (sessions ++ [added]) latest = given.keyOf sessions latest := by
  cases latest with
  | none => rfl
  | some place => simp only [keyOf, List.getElem?_append_left (within place rfl)]

/-- Neither does what an end of a session does. -/
theorem keyOf_set (running : sessions[position]? = some session) (client : Client) (stage : KeyStage)
    (latest : Option Nat) :
    given.keyOf (sessions.set position (session.reach client stage)) latest =
      given.keyOf sessions latest := by
  cases latest with
  | none => rfl
  | some place =>
    by_cases same : place = position
    · subst same
      have within : place < sessions.length := (List.getElem?_eq_some_iff.mp running).1
      simp only [keyOf, List.getElem?_set_self within, running]
      rfl
    · simp only [keyOf, List.getElem?_set_ne (Ne.symm same)]

/-- A session that delivers a key is there. -/
theorem within_of_keyOf {latest : Option Nat} {key : Value}
    (delivers : given.keyOf sessions latest = some key) :
    ∀ place ∈ latest, place < sessions.length := by
  rintro place rfl
  obtain ⟨session, found, -⟩ := Option.map_eq_some_iff.mp delivers
  exact (List.getElem?_eq_some_iff.mp found).1

/-- An end that goes on has stored its key if that is how far it got, and the stages of
the other ends are what they were. -/
theorem stored_set (running : sessions[position]? = some session) (client other : Client)
    (stage : KeyStage) (place : Nat) :
    (∃ after, (sessions.set position (session.reach client stage))[place]? = some after ∧
      after.stage other = .stored) ↔
    if place = position ∧ other = client then stage = .stored
    else ∃ before, sessions[place]? = some before ∧ before.stage other = .stored := by
  have within : position < sessions.length := (List.getElem?_eq_some_iff.mp running).1
  by_cases here : place = position
  · subst here
    by_cases mine : other = client
    · subst mine
      simp [List.getElem?_set_self within, KeySession.reach]
    · simp [List.getElem?_set_self within, KeySession.reach, running, mine]
  · simp [List.getElem?_set_ne (Ne.symm here), here]

end sessions

/-- The session whose key a client stored last is there. -/
theorem Sound.within {state : Correspondence given.cipher} (sound : given.Sound state)
    (client : Client) : ∀ place ∈ (state.stores client).getLast?, place < state.sessions.length := by
  intro place last
  obtain ⟨session, found, -⟩ := (sound.stored client place).mp (List.mem_of_getLast? last)
  exact (List.getElem?_eq_some_iff.mp found).1

/-- The key a client holds once it has stored one. -/
theorem messageKey_storeKey {client : Client} {node : Node}
    (known : node.userDB.hasUser (.str (given.peer client)) = true) (key : Bytes) :
    given.messageKey client (storeKey (given.peer client) key node) = some (.bytes key) := by
  rw [messageKey, storeKey, UserDB.stored_changeUserInfo, if_pos ⟨rfl, known⟩]
  simp

theorem hasUser_storeKey (user : UserKey) (peer : String) (key : Bytes) (node : Node) :
    (storeKey peer key node).userDB.hasUser user = node.userDB.hasUser user := by
  rw [storeKey, UserDB.hasUser, UserDB.get_user_changeUserInfo]
  split
  · next same =>
    rw [same, Option.isSome_map]
    rfl
  · rfl

theorem initial_sound : given.Sound given.initial where
  known := given.known
  holds := given.agree
  once := fun _ => List.nodup_nil
  stored := fun client position => by simp [initial]
  sent := fun _ _ absent => by cases absent
  received := fun _ _ absent => by cases absent
  kept := fun client => given.empty client

/-- A step that leaves the user databases alone leaves the stored keys alone. -/
theorem Sound.same_users {state : Correspondence given.cipher} (sound : given.Sound state)
    (node : Client → Node) (same : ∀ client, (node client).userDB = (state.node client).userDB)
    (client : Client) :
    (node client).userDB.hasUser (.str (given.peer client)) = true ∧
      given.messageKey client (node client) =
        given.keyOf state.sessions (state.stores client).getLast? := by
  have holds := sound.holds client
  rw [messageKey, ← same] at holds
  rw [same]
  exact ⟨sound.known client, by rwa [messageKey]⟩

/-- Every step keeps this up. -/
theorem Sound.step {before after : Correspondence given.cipher} (sound : given.Sound before)
    (stepped : given.Step before after) : given.Sound after := by
  cases stepped with
  | _establish_key leader key known =>
    refine ⟨sound.known, ?_, sound.once, ?_, ?_, ?_, sound.kept⟩
    · intro client
      exact (sound.holds client).trans (keyOf_append (sound.within client) _).symm
    · intro client position
      rw [sound.stored client position]
      constructor
      · rintro ⟨session, found, reached⟩
        have within := (List.getElem?_eq_some_iff.mp found).1
        exact ⟨session, by rwa [List.getElem?_append_left within], reached⟩
      · rintro ⟨session, found, reached⟩
        by_cases within : position < before.sessions.length
        · exact ⟨session, by rwa [List.getElem?_append_left within] at found, reached⟩
        · -- the new session has not been stored by anyone
          rw [List.getElem?_append_right (Nat.le_of_not_lt within)] at found
          have fresh := List.mem_singleton.mp (List.mem_of_getElem? found)
          rw [fresh] at reached
          cases reached
    · intro client sealed member
      have delivers := sound.sent client sealed member
      exact (keyOf_append (within_of_keyOf delivers) _).trans delivers
    · intro client sealed member
      have delivers := sound.received client sealed member
      exact (keyOf_append (within_of_keyOf delivers) _).trans delivers
  | execute client position session running executing =>
    have same := @keyOf_set given before.sessions position session running client .keyed
    refine ⟨sound.known, ?_, sound.once, ?_, ?_, ?_, sound.kept⟩
    · intro other
      exact (sound.holds other).trans (same _).symm
    · intro other place
      rw [sound.stored other place, stored_set running]
      split
      · next here =>
        obtain ⟨rfl, rfl⟩ := here
        simp [running, executing]
      · rfl
    · intro other sealed member
      exact (same _).trans (sound.sent other sealed member)
    · intro other sealed member
      exact (same _).trans (sound.received other sealed member)
  | changeUserInfo client position session running keyed =>
    have same := @keyOf_set given before.sessions position session running client .stored
    have fresh : position ∉ before.stores client := by
      intro member
      obtain ⟨other, found, reached⟩ := (sound.stored client position).mp member
      rw [running] at found
      cases found
      cases keyed.symm.trans reached
    refine ⟨?_, ?_, ?_, ?_, ?_, ?_, ?_⟩
    · refine (Function.forall_update_iff _ fun client (node : Node) =>
        node.userDB.hasUser (.str (given.peer client)) = true).mpr ⟨?_, fun other _ => ?_⟩
      · exact (hasUser_storeKey ..).trans (sound.known client)
      · exact sound.known other
    · intro other
      rw [same]
      by_cases mine : other = client
      · subst mine
        have last : (before.stores other ++ [position]).getLast? = some position := by simp
        simp only [Function.update_self, last, messageKey_storeKey (sound.known other), keyOf,
          running, Option.map_some]
      · simp only [Function.update_of_ne mine]
        exact sound.holds other
    · refine (Function.forall_update_iff _ fun _ (stores : List Nat) => stores.Nodup).mpr
        ⟨?_, fun other _ => sound.once other⟩
      exact List.nodup_append'.mpr ⟨sound.once client, List.nodup_singleton _, by simpa using fresh⟩
    · intro other place
      rw [stored_set running]
      by_cases mine : other = client
      · subst mine
        simp only [Function.update_self, List.mem_append, List.mem_singleton, and_true]
        split
        · next here => simp [here]
        · next elsewhere => simp [elsewhere, sound.stored other place]
      · simp only [Function.update_of_ne mine, mine, and_false, ↓reduceIte]
        exact sound.stored other place
    · intro other sealed member
      exact (same _).trans (sound.sent other sealed member)
    · intro other sealed member
      exact (same _).trans (sound.received other sealed member)
    · exact (Function.forall_update_iff _ fun client (node : Node) =>
        node.mailbox = (before.mailbox client).map (·.message)).mpr
          ⟨sound.kept client, fun other _ => sound.kept other⟩
  | createQChatMessage client sealed nonce plaintext stored created latest =>
    have explained : given.Explains before.sessions sealed := by
      rw [Explains, latest, ← sound.holds client, stored]
    refine ⟨sound.known, sound.holds, sound.once, sound.stored, ?_, sound.received, sound.kept⟩
    refine (Function.forall_update_iff _ fun _ (messages : List (Sealed given.cipher)) =>
      ∀ sealed ∈ messages, given.Explains before.sessions sealed).mpr
        ⟨?_, fun other _ => sound.sent other⟩
    intro message member
    rcases List.mem_append.mp member with earlier | new
    · exact sound.sent _ message earlier
    · exact List.mem_singleton.mp new ▸ explained
  | storeMessage client earlier later sealed pending =>
    have users := sound.same_users (update before.node client
      (QChatCore.storeMessage sealed.message (before.node client)).2)
      ((Function.forall_update_iff _ fun other (node : Node) =>
        node.userDB = (before.node other).userDB).mpr ⟨rfl, fun _ _ => rfl⟩)
    refine ⟨fun other => (users other).1, fun other => (users other).2, sound.once, sound.stored,
      ?_, ?_, ?_⟩
    · refine (Function.forall_update_iff _ fun _ (messages : List (Sealed given.cipher)) =>
        ∀ sealed ∈ messages, given.Explains before.sessions sealed).mpr
          ⟨?_, fun other _ => sound.sent other⟩
      intro message member
      refine sound.sent client message ?_
      rw [pending]
      rcases List.mem_append.mp member with left | right
      · exact List.mem_append_left _ left
      · exact List.mem_append_right _ (List.mem_cons_of_mem _ right)
    · refine (Function.forall_update_iff _ fun _ (messages : List (Sealed given.cipher)) =>
        ∀ sealed ∈ messages, given.Explains before.sessions sealed).mpr
          ⟨?_, fun other _ => sound.received other⟩
      intro message member
      rcases List.mem_append.mp member with there | new
      · exact sound.received client message there
      · rw [List.mem_singleton.mp new]
        exact sound.sent client sealed (by simp [pending])
    · intro other
      by_cases mine : other = client
      · subst mine
        simp only [Function.update_self, List.map_append, List.map_singleton, ← sound.kept other]
        rfl
      · simp only [Function.update_of_ne mine]
        exact sound.kept other
  | getMessageHistory client =>
    have users := sound.same_users (update before.node client
      (QChatClient.getMessageHistory given.cipher (before.node client)).2)
      ((Function.forall_update_iff _ fun other (node : Node) =>
        node.userDB = (before.node other).userDB).mpr
          ⟨by rw [QChatClient.getMessageHistory_apply], fun _ _ => rfl⟩)
    refine ⟨fun other => (users other).1, fun other => (users other).2, sound.once, sound.stored,
      sound.sent, ?_, ?_⟩
    · refine (Function.forall_update_iff _ fun _ (messages : List (Sealed given.cipher)) =>
        ∀ sealed ∈ messages, given.Explains before.sessions sealed).mpr
          ⟨?_, fun other _ => sound.received other⟩
      intro message absent
      cases absent
    · intro other
      by_cases mine : other = client
      · subst mine
        simp only [Function.update_self, QChatClient.getMessageHistory_apply, List.map_nil]
      · simp only [Function.update_of_ne mine]
        exact sound.kept other

/-- What holds in every run in which sessions do not overlap: each client stores the keys
in the order in which the sessions were led, and all sessions but the last are over. -/
structure InTurn (state : Correspondence given.cipher) : Prop where
  sound : given.Sound state
  ordered : ∀ client, state.stores client = List.range (state.stores client).length
  finished : ∀ position session, state.sessions[position]? = some session →
    position + 1 < state.sessions.length → ∀ client, session.stage client = .stored

/-- When no session is running, each client has stored the key of every session once. -/
theorem Sound.quiet {state : Correspondence given.cipher} (sound : given.Sound state)
    (quiet : given.Quiet state) (client : Client) :
    (state.stores client).Perm (List.range state.sessions.length) := by
  refine (List.perm_ext_iff_of_nodup (sound.once client) List.nodup_range).mpr fun position => ?_
  rw [sound.stored client position, List.mem_range]
  constructor
  · rintro ⟨session, found, -⟩
    exact (List.getElem?_eq_some_iff.mp found).1
  · intro within
    exact ⟨state.sessions[position], List.getElem?_eq_getElem within,
      quiet _ (List.getElem_mem within) client⟩

/-- The next session an end stores is the last one, and all the others are stored. -/
theorem InTurn.next {state : Correspondence given.cipher} (turns : given.InTurn state)
    {client : Client} {position : Nat} {session : KeySession}
    (running : state.sessions[position]? = some session) (keyed : session.stage client = .keyed) :
    position = (state.stores client).length := by
  have within := (List.getElem?_eq_some_iff.mp running).1
  have last : ¬ position + 1 < state.sessions.length := by
    intro earlier
    cases keyed.symm.trans (turns.finished position session running earlier client)
  have member (place : Nat) : place ∈ state.stores client ↔ place < (state.stores client).length := by
    conv_lhs => rw [turns.ordered client]
    exact List.mem_range
  have absent : ¬ position < (state.stores client).length := by
    rw [← member, turns.sound.stored client position]
    rintro ⟨other, found, stored⟩
    rw [running] at found
    cases found
    cases keyed.symm.trans stored
  by_contra apart
  -- the session before is over, so its key is stored
  have before : position - 1 < state.sessions.length := by omega
  have ended := turns.finished (position - 1) _ (List.getElem?_eq_getElem before) (by omega) client
  have stored := (turns.sound.stored client (position - 1)).mpr
    ⟨_, List.getElem?_eq_getElem before, ended⟩
  have earlier := (member (position - 1)).mp stored
  omega

theorem InTurn.step {before after : Correspondence given.cipher} (turns : given.InTurn before)
    (stepped : given.Step before after)
    (alone : after.sessions.length = before.sessions.length ∨ given.Quiet before) :
    given.InTurn after := by
  refine ⟨turns.sound.step stepped, ?_, ?_⟩
  · cases stepped with
    | changeUserInfo client position session running keyed =>
      refine (Function.forall_update_iff _ fun _ (stores : List Nat) =>
        stores = List.range stores.length).mpr ⟨?_, fun other _ => turns.ordered other⟩
      rw [List.length_append, List.length_singleton, List.range_succ, ← turns.ordered client,
        turns.next running keyed]
    | _establish_key | execute | createQChatMessage | storeMessage | getMessageHistory =>
      exact turns.ordered
  · -- a stage that is reached stays reached
    have kept {position : Nat} {session : KeySession}
        (running : before.sessions[position]? = some session) (client : Client) (stage : KeyStage)
        (unfinished : session.stage client ≠ .stored) :
        ∀ place after, (before.sessions.set position (session.reach client stage))[place]? =
          some after → place + 1 < before.sessions.length →
            ∀ other, after.stage other = .stored := by
      intro place reached found earlier other
      by_cases here : place = position
      · subst here
        exact absurd (turns.finished place session running earlier client) unfinished
      · rw [List.getElem?_set_ne (Ne.symm here)] at found
        exact turns.finished place reached found earlier other
    cases stepped with
    | _establish_key leader key known =>
      have quiet : given.Quiet before := by
        rcases alone with same | quiet
        · simp at same
        · exact quiet
      intro position session found earlier client
      rw [List.length_append, List.length_singleton, Nat.add_lt_add_iff_right] at earlier
      rw [List.getElem?_append_left earlier] at found
      exact quiet session (List.mem_of_getElem? found) client
    | execute client position session running executing =>
      intro place reached found earlier
      rw [List.length_set] at earlier
      exact kept running client .keyed (by simp [executing]) place reached found earlier
    | changeUserInfo client position session running keyed =>
      intro place reached found earlier
      rw [List.length_set] at earlier
      exact kept running client .stored (by simp [keyed]) place reached found earlier
    | createQChatMessage | storeMessage | getMessageHistory => exact turns.finished

theorem initial_inTurn : given.InTurn given.initial where
  sound := initial_sound
  ordered := fun _ => rfl
  finished := fun _ _ _ earlier => absurd earlier (Nat.not_lt_zero _)

theorem Reaches.sound {state : Correspondence given.cipher} (reached : given.Reaches state) :
    given.Sound state := by
  induction reached with
  | refl => exact initial_sound
  | tail _ stepped inductionHypothesis => exact inductionHypothesis.step stepped

theorem ReachesInTurn.inTurn {state : Correspondence given.cipher}
    (reached : given.ReachesInTurn state) : given.InTurn state := by
  induction reached with
  | refl => exact initial_inTurn
  | tail _ stepped inductionHypothesis => exact inductionHypothesis.step stepped.1 stepped.2

/-- In such a run the clients agree whenever no session is running: both have stored the key of
the last one. -/
theorem InTurn.agree {state : Correspondence given.cipher} (turns : given.InTurn state)
    (quiet : given.Quiet state) : given.Agree state := by
  have whole (client : Client) : state.stores client = List.range state.sessions.length := by
    have ordered := turns.ordered client
    rwa [(turns.sound.quiet quiet client).length_eq, List.length_range] at ordered
  rw [Agree, turns.sound.holds, turns.sound.holds, whole, whole]

/-- When no session is running, each client has stored the key of every session once and holds
the key of the one it stored last. If sessions do not overlap, this is the same key for both.

Proof: a session is stored once on either side, at its end. Where sessions follow each other,
both sides have stored all earlier ones when the next one starts, so the last is the same for
both. -/
theorem keys_at_quiescence {state : Correspondence given.cipher} (reached : given.Reaches state)
    (quiet : given.Quiet state) :
    (∀ client, (state.stores client).Perm (List.range state.sessions.length) ∧
      given.messageKey client (state.node client) =
        given.keyOf state.sessions (state.stores client).getLast?) ∧
    (given.ReachesInTurn state → given.Agree state) := by
  have sound := Reaches.sound reached
  constructor
  · intro client
    exact ⟨sound.quiet quiet client, sound.holds client⟩
  · intro turns
    exact (ReachesInTurn.inTurn turns).agree quiet

/-- A message in the mailbox was encrypted under the key of the session that its sender had
stored last. This is the key the receiver holds for the sender if the receiver has stored the
same session last. -/
theorem history_key {state : Correspondence given.cipher} (reached : given.Reaches state)
    {client : Client} {sealed : Sealed given.cipher} (there : sealed ∈ state.mailbox client) :
    sealed.message ∈ (state.node client).mailbox ∧
    given.keyOf state.sessions sealed.session = some sealed.key ∧
    (sealed.session = (state.stores client).getLast? →
      given.messageKey client (state.node client) = some sealed.key) := by
  have sound := Reaches.sound reached
  have explained := sound.received client sealed there
  refine ⟨?_, explained, fun same => ?_⟩
  · rw [sound.kept client]
    exact List.mem_map_of_mem there
  · rw [sound.holds client, ← same]
    exact explained

end Correspondents

/-- What the registry's answer brings about a user. -/
def answered (port : Int) (pub : Bytes) : UserInfo :=
  Dict.ofList [("connection", .obj [("host", .str "localhost"), ("port", .num port)]),
    ("pub", pubText pub)]

/-- Two clients that know each other from the registry and have no key yet. -/
def strangers : Correspondents where
  core
    | .A => chatSigner
    | .B => chatReceiver.core
  cipher := sampleCipher
  start
    | .A => { chatSigner.boot with
        userDB := chatSigner.boot.userDB.addUser (.str "bob") (answered 8001 [2]) }
    | .B => { chatReceiver.core.boot with
        userDB := chatReceiver.core.boot.userDB.addUser (.str "alice") (answered 8000 [1]) }
  known := fun client => by cases client <;> rfl
  agree := fun client => by cases client <;> rfl
  empty := fun client => by cases client <;> rfl

namespace Correspondents

/-- An end that executes can return and store its key. -/
theorem finish {given : Correspondents} {state : Correspondence given.cipher}
    (reached : given.Reaches state) (client : Client) {position : Nat} {session : KeySession}
    (running : state.sessions[position]? = some session)
    (executing : session.stage client = .executing) :
    ∃ after, given.Reaches after ∧
      after.sessions = state.sessions.set position (session.reach client .stored) ∧
      after.stores = update state.stores client (state.stores client ++ [position]) ∧
      after.mailbox = state.mailbox := by
  have within := (List.getElem?_eq_some_iff.mp running).1
  have returned := reached.tail (.execute state client position session running executing)
  refine ⟨_, returned.tail (.changeUserInfo _ client position (session.reach client .keyed)
    (List.getElem?_set_self within) (Function.update_self ..)), ?_, rfl, rfl⟩
  simp [KeySession.reach]

/-- Another key. -/
def otherKey : Bytes := List.replicate 16 5

/-- Each client leads a session, and the two store the two keys in opposite orders. -/
theorem stores_cross :
    ∃ state, strangers.Reaches state ∧ strangers.Quiet state ∧ ¬ strangers.Agree state := by
  let fresh (leader : Client) (key : Bytes) : KeySession := ⟨leader, key, fun _ => .executing⟩
  obtain ⟨led, reachedLed, sessions, stores⟩ : ∃ led, strangers.Reaches led ∧
      led.sessions = [fresh .A sampleKey, fresh .B otherKey] ∧ led.stores = fun _ => [] :=
    ⟨_, (Relation.ReflTransGen.refl.tail
      (._establish_key strangers.initial .A sampleKey (strangers.known .A))).tail
        (._establish_key _ .B otherKey (strangers.known .B)), rfl, rfl⟩
  have firstA : led.sessions[0]? = some (fresh .A sampleKey) := by rw [sessions]; rfl
  obtain ⟨one, reachedOne, sessionsOne, storesOne, -⟩ := finish reachedLed .A firstA rfl
  rw [sessions] at sessionsOne
  have secondB : one.sessions[1]? = some (fresh .B otherKey) := by rw [sessionsOne]; rfl
  obtain ⟨two, reachedTwo, sessionsTwo, storesTwo, -⟩ := finish reachedOne .B secondB rfl
  rw [sessionsOne] at sessionsTwo
  have secondA : two.sessions[1]? = some ((fresh .B otherKey).reach .B .stored) := by
    rw [sessionsTwo]; rfl
  obtain ⟨three, reachedThree, sessionsThree, storesThree, -⟩ := finish reachedTwo .A secondA rfl
  rw [sessionsTwo] at sessionsThree
  have firstB : three.sessions[0]? = some ((fresh .A sampleKey).reach .A .stored) := by
    rw [sessionsThree]; rfl
  obtain ⟨four, reached, sessionsFour, storesFour, -⟩ := finish reachedThree .B firstB rfl
  rw [sessionsThree] at sessionsFour
  rw [storesThree, storesTwo, storesOne, stores] at storesFour
  have holds := (Reaches.sound reached).holds
  refine ⟨four, reached, ?_, ?_⟩
  · intro session member client
    rw [sessionsFour] at member
    rcases List.mem_pair.mp member with rfl | rfl
    · cases client <;> rfl
    · cases client <;> rfl
  · intro agree
    rw [Agree, holds, holds, sessionsFour, storesFour] at agree
    have keys : otherKey = sampleKey := Value.bytes.inj (Option.some.inj agree)
    exact absurd keys (by decide)

/-- A session at its start. -/
def firstSession : KeySession := ⟨.A, sampleKey, fun _ => .executing⟩

/-- The leader's message is in the follower's mailbox, and the follower has not stored the
key yet. -/
theorem early_message : ∃ state sealed, strangers.Reaches state ∧ state.mailbox .B = [sealed] ∧
    sealed.session = some 0 ∧
    state.sessions = [firstSession.reach .A .stored] ∧
    state.stores = update (fun _ => []) .A [0] := by
  let ready := strangers.start .A
  let keyed := storeKey "bob" sampleKey ready
  have holds : strangers.messageKey .A keyed = some (.bytes sampleKey) :=
    messageKey_storeKey (strangers.known .A) sampleKey
  have created : QChatClient.createQChatMessage chatSigner sampleCipher (return ()) sampleNonce
      "bob" "hi" keyed = (.ok chatMessage, keyed) :=
    (QChatClient.createQChatMessage_keyed (return ()) sampleNonce "bob" "hi" (by decide)
      (UserDB.getField_stored holds)).trans rfl
  let sealed : Sealed strangers.cipher :=
    ⟨chatMessage, .bytes sampleKey, some 0, sampleNonce, [104, 105], _, _, rfl, rfl⟩
  have led := Relation.ReflTransGen.refl.tail
    (Step._establish_key strangers.initial .A sampleKey (strangers.known .A))
  have returned := led.tail (Step.execute _ .A 0 firstSession rfl rfl)
  have stored := returned.tail (Step.changeUserInfo _ .A 0 (firstSession.reach .A .keyed) rfl rfl)
  have sent := stored.tail (Step.createQChatMessage _ .A sealed sampleNonce "hi" holds created rfl)
  have arrived := sent.tail (Step.storeMessage _ .B [] [] sealed rfl)
  exact ⟨_, sealed, arrived, rfl, rfl, by simp [KeySession.reach, initial, firstSession], rfl⟩

/-- A history that is read then is read without the key. -/
theorem history_without_key : ∃ state, strangers.Reaches state ∧
    ∃ sealed ∈ state.mailbox .B, strangers.messageKey .B (state.node .B) ≠ some sealed.key := by
  obtain ⟨state, sealed, reached, mailbox, -, -, stores⟩ := early_message
  refine ⟨state, reached, sealed, by simp [mailbox], ?_⟩
  rw [(Reaches.sound reached).holds .B, stores]
  intro found
  cases found

/-- After the follower's store the same message can be read. -/
theorem history_key_five : ∃ (state : Correspondence strangers.cipher)
    (sealed : Sealed strangers.cipher), sealed ∈ state.mailbox .B ∧
    strangers.messageKey .B (state.node .B) = some sealed.key := by
  obtain ⟨early, sealed, reachedEarly, mailbox, session, sessions, stores⟩ := early_message
  have running : early.sessions[0]? = some (firstSession.reach .A .stored) := by
    rw [sessions]
    rfl
  obtain ⟨state, reached, -, stored, kept⟩ := finish reachedEarly .B running rfl
  have there : sealed ∈ state.mailbox .B := by simp [kept, mailbox]
  have last : sealed.session = (state.stores .B).getLast? := by simp [session, stored, stores]
  exact ⟨state, sealed, there, (history_key reached there).2.2 last⟩

/-- One session, and both hold its key. -/
theorem keys_at_quiescence_five : ∃ state : Correspondence strangers.cipher,
    state.sessions.length = 1 ∧ strangers.Quiet state ∧
    ∀ client, strangers.messageKey client (state.node client) =
      strangers.keyOf state.sessions (state.stores client).getLast? := by
  obtain ⟨early, sealed, reachedEarly, -, -, sessions, -⟩ := early_message
  have running : early.sessions[0]? = some (firstSession.reach .A .stored) := by
    rw [sessions]
    rfl
  obtain ⟨state, reached, stored, -⟩ := finish reachedEarly .B running rfl
  rw [sessions] at stored
  have quiet : strangers.Quiet state := by
    intro session member client
    rw [stored] at member
    rw [List.mem_singleton.mp member]
    cases client <;> rfl
  refine ⟨state, by rw [stored]; rfl, quiet, fun client => ?_⟩
  exact ((keys_at_quiescence reached quiet).1 client).2

end Correspondents

end QChat
