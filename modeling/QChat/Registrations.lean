import QChat.Registry
import QChat.Threads

/-!
# Registrations in threads

A server handles every message in a thread of its own, and the user database has a lock
that nobody takes: between the check of `registerUser` and the entry, and between the
entry and its fields, other threads act. What one thread does in one go is a single access
of a dictionary, under the lock of the interpreter. An entry is never replaced here, so a
getter that has looked it up reads the entry there is. A handler that nothing interrupts does
what the method does.

However registrations and questions for single users follow each other, no registration
touches the entry of a user who was known before, and none is mixed with another one.
-/

namespace QChat

open Function (update)

/-- `self.db[user]`: a user who is not there yet gets an entry without fields. -/
def UserDB.create (self : UserDB) (user : UserKey) : UserDB :=
  if self.hasUser user then self else ⟨self.db.set user Dict.empty⟩

/-- What a registration stores. -/
def registeredInfo (content : Bytes) (connection : Value) : UserInfo :=
  Dict.ofList [("pub", .bytes content), ("connection", connection)]

namespace QChatServer

/-- Where the thread of a handler is: before the check of `registerUser`, before the entry is
created, before it is filled, and at the three accesses of a getter that
`getPublicUserInfo` calls; `read` is the connection when it has been read. -/
inductive Place where
  | registerUser (user connection pub : Value)
  | creating (key : UserKey) (kwargs : UserInfo)
  | updating (key : UserKey) (kwargs : UserInfo)
  | registered
  | getting (key : UserKey) (read : Option Value)
  | testing (key : UserKey) (read : Option Value)
  | reading (key : UserKey) (read : Option Value)
  | answered (public_info : List (String × Value))
  | raised (error : Exn)

/-- Checks whether the user is registered, and goes on to the next access. -/
def registerUser (user connection pub : Value) (userDB : UserDB) : Place :=
  match UserKey.ofValue user with
  | .error error => .raised error
  | .ok key =>
    if userDB.hasUser key then .raised (.Exception ("User " ++ key.text ++ " already registered"))
    else
      match pub.encode with
      | .error error => .raised error
      | .ok content =>
        if user.isText "*" then .raised (.KeyError "info")
        else .creating key (registeredInfo content connection)

/-- `self._get_user(user)` -/
def getting (key : UserKey) (read : Option Value) (userDB : UserDB) : Place :=
  match userDB._get_user key with
  | none => .raised (.DBException "User {} does not exist in the database!")
  | some _ => .testing key read

/-- `if not info` -/
def testing (key : UserKey) (read : Option Value) (userDB : UserDB) : Place :=
  match userDB.info key with
  | .error error => .raised error
  | .ok _ => .reading key read

/-- `info.get(field)`: first the connection, then the public key. -/
def reading (key : UserKey) (read : Option Value) (userDB : UserDB) : Place :=
  match read with
  | none => .getting key (some ((userDB.stored key "connection").getD .null))
  | some connection =>
    match UserDB.decodePub ((userDB.stored key "pub").getD .null) with
    | .error error => .raised error
    | .ok pub => .answered [("connection", connection), ("pub", pub), ("user", key.toValue)]

/-- The accesses of the handlers. -/
def program : Place → Action UserDB Place
  | .registerUser user connection pub => .peek (registerUser user connection pub)
  | .creating key kwargs => .guarded (.update (·.create key) fun _ => .updating key kwargs)
  | .updating key kwargs => .guarded (.update (·.addUser key kwargs) fun _ => .registered)
  | .getting key read => .peek (getting key read)
  | .testing key read => .peek (testing key read)
  | .reading key read => .peek (reading key read)
  | .registered | .answered _ | .raised _ => .stop

/-- The handler starts with this registration. -/
def Registers (place : Place) (key : UserKey) (info : UserInfo) : Prop :=
  ∃ user connection pub content, place = .registerUser user connection pub ∧
    UserKey.ofValue user = .ok key ∧ user.isText "*" = false ∧ pub.encode = .ok content ∧
      info = registeredInfo content connection

/-- A handler starts with a registration or with a question for a single user. A handler that
has ended starts nothing again. -/
inductive Starts : Place → Prop where
  | registerUser (user connection pub : Value) : Starts (.registerUser user connection pub)
  | getting (key : UserKey) (single : key ≠ .str "*") : Starts (.getting key none)

theorem update_empty (content : Bytes) (connection : Value) :
    Dict.empty.update (registeredInfo content connection) = registeredInfo content connection := by
  rfl

theorem update_registered (content other : Bytes) (connection another : Value) :
    (registeredInfo content connection).update (registeredInfo other another) =
      registeredInfo other another := by
  rfl

section Entries

variable {userDB : UserDB}

theorem get_user_create (key other : UserKey) :
    (userDB.create key)._get_user other =
      if other = key ∧ userDB._get_user key = none then some Dict.empty
      else userDB._get_user other := by
  rw [UserDB.create, UserDB.hasUser]
  cases entry : userDB._get_user key with
  | some info => simp
  | none =>
    by_cases same : other = key
    · subst same
      simp [UserDB._get_user]
    · simp only [Option.isSome_none, Bool.false_eq_true, ↓reduceIte, same, false_and]
      exact Dict.get?_set_ne userDB.db key other _ same

/-- A user with fields is one whose entry is not empty. -/
theorem info_ok {key : UserKey} {info : UserInfo} :
    userDB.info key = .ok info ↔
      userDB._get_user key = some info ∧ info.entries.isEmpty = false := by
  rw [UserDB.info]
  cases userDB._get_user key with
  | none => simp
  | some found =>
    cases empty : found.entries.isEmpty with
    | true =>
      simp only [empty, ↓reduceIte, reduceCtorEq, Option.some.injEq, false_iff, not_and]
      rintro rfl
      simp [empty]
    | false =>
      simp only [empty, Bool.false_eq_true, ↓reduceIte, Except.ok.injEq, Option.some.injEq]
      constructor
      · rintro rfl
        exact ⟨rfl, empty⟩
      · exact fun same => same.1

/-- What is stored for a user with fields is in them. -/
theorem stored_of_info {key : UserKey} {info : UserInfo} (fields : userDB.info key = .ok info)
    (name : String) : userDB.stored key name = info.get? name := by
  rw [UserDB.stored, (info_ok.mp fields).1, Option.bind_some]

end Entries

section Alone

variable {Thread : Type} [DecidableEq Thread] {place : Thread → Place} {thread : Thread}

/-- Where a handler is at the end of a call. -/
def Place.ofResult : Except Exn Place → Place
  | .ok place => place
  | .error error => .raised error

/-- An entry that is created first gets the same fields. -/
theorem create_addUser (userDB : UserDB) (key : UserKey) (kwargs : UserInfo) :
    (userDB.create key).addUser key kwargs = userDB.addUser key kwargs := by
  rw [UserDB.create]
  by_cases known : userDB.hasUser key = true
  · rw [if_pos known]
  · rw [if_neg known]
    have missing : userDB._get_user key = none := by
      simpa [UserDB.hasUser] using known
    have created : (UserDB.mk (userDB.db.set key Dict.empty))._get_user key = some Dict.empty :=
      Dict.get?_set_self ..
    simp only [UserDB.addUser, created, missing, Option.getD_some, Option.getD_none, Dict.set_set]

/-- The handler of a registration that nothing interrupts does what `registerUser` does. -/
theorem registerUser_alone (node : Node) (user connection pub : Value)
    (here : place thread = .registerUser user connection pub) :
    Relation.ReflTransGen (Threads.Atomic program) (node.userDB, place)
      ((QChatCore.registerUser user connection pub node).2.userDB,
        update place thread (.ofResult
          ((QChatCore.registerUser user connection pub node).1.map fun _ => .registered))) := by
  have acts : program (place thread) = .peek (registerUser user connection pub) := by
    rw [here]
    rfl
  have checked := Relation.ReflTransGen.single
    (Threads.Atomic.peek node.userDB place thread _ acts)
  simp only [QChatCore.registerUser, Method.compute_bind, Method.get_bind]
  rw [QChatServer.registerUser] at checked
  cases named : UserKey.ofValue user with
  | error error =>
    rw [named] at checked
    exact checked
  | ok key =>
    simp only [named] at checked ⊢
    by_cases known : node.userDB.hasUser key = true
    · rw [if_pos known] at checked ⊢
      exact checked
    · rw [if_neg known] at checked ⊢
      rw [Method.compute_bind]
      cases encoded : pub.encode with
      | error error =>
        rw [encoded] at checked
        exact checked
      | ok content =>
        simp only [encoded] at checked ⊢
        cases single : user.isText "*" with
        | true =>
          rw [QChatCore.addUserInfo, single]
          rw [single] at checked
          exact checked
        | false =>
          rw [single] at checked
          rw [QChatCore.addUserInfo_single node user _ single, named]
          have created := checked.tail (.guarded _ _ thread _ (by rw [Function.update_self]; rfl))
          have filled := created.tail (.guarded _ _ thread _ (by rw [Function.update_self]; rfl))
          simp only [Function.update_idem, Section.run_update, create_addUser] at filled
          exact filled

/-- A getter that nothing interrupts reads from the fields that are there, if there are any. -/
theorem getter_alone (userDB : UserDB) {key : UserKey} {read : Option Value}
    (here : place thread = .getting key read) :
    Relation.ReflTransGen (Threads.Atomic program) (userDB, place)
      (userDB, update place thread
        (.ofResult ((userDB.info key).map fun _ => reading key read userDB))) := by
  have acts : program (place thread) = .peek (getting key read) := by
    rw [here]
    rfl
  have found := Relation.ReflTransGen.single (Threads.Atomic.peek userDB place thread _ acts)
  cases entry : userDB._get_user key with
  | none =>
    rw [getting, entry] at found
    rw [UserDB.info, entry]
    exact found
  | some info =>
    rw [getting, entry] at found
    have tested := found.tail (.peek _ _ thread _ (by rw [Function.update_self]; rfl))
    rw [Function.update_idem, testing] at tested
    cases fields : userDB.info key with
    | error error =>
      rw [fields] at tested
      exact tested
    | ok info =>
      rw [fields] at tested
      have answered := tested.tail (.peek _ _ thread _ (by rw [Function.update_self]; rfl))
      rw [Function.update_idem] at answered
      exact answered

/-- The handler of a question that nothing interrupts finds what `getPublicUserInfo` returns. -/
theorem getPublicUserInfo_alone (userDB : UserDB) {key : UserKey} (single : key ≠ .str "*")
    (here : place thread = .getting key none) :
    Relation.ReflTransGen (Threads.Atomic program) (userDB, place)
      (userDB, update place thread (.ofResult ((userDB.getPublicUserInfo key).map .answered))) := by
  have connected := getter_alone userDB here
  rw [UserDB.getPublicUserInfo, if_neg single, UserDB.publicInfo, UserDB.getConnectionInfo,
    UserDB.getPublicKey, UserDB.getField, UserDB.getField]
  cases fields : userDB.info key with
  | error error =>
    rw [fields] at connected
    exact connected
  | ok info =>
    rw [fields] at connected
    have named := connected.trans (getter_alone userDB (Function.update_self ..))
    rw [Function.update_idem, fields] at named
    simp only [Except.map, Place.ofResult, reading, stored_of_info fields] at named
    dsimp only [bind, Except.bind, pure, Except.pure]
    cases decoded : UserDB.decodePub ((info.get? "pub").getD .null) with
    | error error =>
      rw [decoded] at named
      exact named
    | ok pub =>
      rw [decoded] at named
      exact named

end Alone

section Interleaved

variable {Thread : Type} (first : UserDB) (starts : Thread → Place)

/-- The entry was there at the start, or some handler registers it. -/
def Known (key : UserKey) (info : UserInfo) : Prop :=
  first._get_user key = some info ∨ ∃ thread, Registers (starts thread) key info

/-- What is answered about a user is the connection of a known entry and the public key of a
known entry. -/
def Answers (key : UserKey) (public_info : List (String × Value)) : Prop :=
  ∃ one two pub, Known first starts key one ∧ Known first starts key two ∧
    UserDB.decodePub ((two.get? "pub").getD .null) = .ok pub ∧
    public_info = [("connection", (one.get? "connection").getD .null), ("pub", pub),
      ("user", key.toValue)]

/-- What has been read is the connection of a known entry. -/
def ReadFrom (key : UserKey) (read : Option Value) : Prop :=
  ∀ connection ∈ read, ∃ info, Known first starts key info ∧
    connection = (info.get? "connection").getD .null

/-- What holds at the place of a handler that started as `begun`. -/
def Fits (userDB : UserDB) (begun : Place) : Place → Prop
  | .registerUser user connection pub => begun = .registerUser user connection pub
  | .creating key kwargs => Registers begun key kwargs ∧ first._get_user key = none
  | .updating key kwargs =>
    Registers begun key kwargs ∧ first._get_user key = none ∧ userDB.hasUser key = true
  | .registered => ∀ key info, Registers begun key info → userDB.hasUser key = true
  | .getting key read => begun = .getting key none ∧ ReadFrom first starts key read
  | .testing key read => begun = .getting key none ∧ ReadFrom first starts key read
  | .reading key read => begun = .getting key none ∧ ReadFrom first starts key read ∧
    ∃ info, userDB.info key = .ok info
  | .answered public_info => ∃ key, begun = .getting key none ∧
    Answers first starts key public_info
  | .raised _ => ∀ key info, Registers begun key info → userDB.hasUser key = true

/-- Entries of the start are as they were, and a new one has what one registration brought,
but for one that is about to be filled. -/
structure Sound (userDB : UserDB) (place : Thread → Place) : Prop where
  kept : ∀ key info, first._get_user key = some info → userDB._get_user key = some info
  entries : ∀ key info, first._get_user key = none → userDB._get_user key = some info →
    (info = Dict.empty ∧ ∃ thread kwargs, place thread = .updating key kwargs) ∨
      ∃ thread, place thread = .registered ∧ Registers (starts thread) key info
  threads : ∀ thread, Fits first starts userDB (starts thread) (place thread)

variable {first starts} {userDB : UserDB} {place : Thread → Place}

/-- Two registrations of one handler are the same. -/
theorem Registers.unique {begun : Place} {key other : UserKey} {info found : UserInfo}
    (one : Registers begun key info) (two : Registers begun other found) :
    key = other ∧ info = found := by
  obtain ⟨user, connection, pub, content, rfl, named, -, encoded, rfl⟩ := one
  obtain ⟨_, _, _, _, same, otherNamed, -, otherEncoded, rfl⟩ := two
  cases same
  cases named.symm.trans otherNamed
  cases encoded.symm.trans otherEncoded
  exact ⟨rfl, rfl⟩

/-- A question that fails leaves nobody unregistered. -/
theorem Fits.question {key : UserKey} {error : Exn} :
    Fits first starts userDB (.getting key none) (.raised error) := by
  rintro named info ⟨_, _, _, _, same, -⟩
  cases same

/-- A place stays fitting while users stay and entries stay filled. -/
theorem Fits.grown {after : UserDB} {begun now : Place} (fits : Fits first starts userDB begun now)
    (stays : ∀ key info, userDB._get_user key = some info → ∃ found,
      after._get_user key = some found ∧
        (info.entries.isEmpty = false → found.entries.isEmpty = false)) :
    Fits first starts after begun now := by
  have users (key : UserKey) (known : userDB.hasUser key = true) : after.hasUser key = true := by
    obtain ⟨info, entry⟩ := Option.isSome_iff_exists.mp known
    obtain ⟨found, there, -⟩ := stays key info entry
    rw [UserDB.hasUser, there]
    rfl
  cases now with
  | updating key kwargs => exact ⟨fits.1, fits.2.1, users key fits.2.2⟩
  | registered => exact fun key info registers => users key (fits key info registers)
  | raised error => exact fun key info registers => users key (fits key info registers)
  | reading key read =>
    obtain ⟨begun, read, info, stored⟩ := fits
    obtain ⟨entry, nonempty⟩ := info_ok.mp stored
    obtain ⟨found, there, filled⟩ := stays key info entry
    exact ⟨begun, read, found, info_ok.mpr ⟨there, filled nonempty⟩⟩
  | _ => exact fits

/-- A filled entry is a known one. -/
theorem Sound.known (sound : Sound first starts userDB place) {key : UserKey} {info : UserInfo}
    (stored : userDB.info key = .ok info) : Known first starts key info := by
  obtain ⟨entry, nonempty⟩ := info_ok.mp stored
  cases before : first._get_user key with
  | some found =>
    cases (sound.kept key found before).symm.trans entry
    exact .inl before
  | none =>
    rcases sound.entries key info before entry with ⟨rfl, -⟩ | ⟨thread, -, registers⟩
    · cases nonempty
    · exact .inr ⟨thread, registers⟩

/-- What a registration finds. -/
theorem Sound.registerUser (sound : Sound first starts userDB place) (user connection pub : Value) :
    Fits first starts userDB (.registerUser user connection pub)
      (registerUser user connection pub userDB) := by
  rw [QChatServer.registerUser]
  cases named : UserKey.ofValue user with
  | error error =>
    rintro other info ⟨_, _, _, _, same, own, -⟩
    cases same
    cases named.symm.trans own
  | ok key =>
    dsimp only
    split
    · next known =>
      rintro other info ⟨_, _, _, _, same, own, -⟩
      cases same
      cases named.symm.trans own
      exact known
    · next unknown =>
      cases encoded : pub.encode with
      | error error =>
        rintro other info ⟨_, _, _, _, same, -, -, own, -⟩
        cases same
        cases encoded.symm.trans own
      | ok content =>
        dsimp only
        split
        · next bulk =>
          rintro other info ⟨_, _, _, _, same, -, single, -⟩
          cases same
          rw [bulk] at single
          cases single
        · next single =>
          refine ⟨⟨user, connection, pub, content, rfl, named, Bool.eq_false_iff.mpr single, encoded,
            rfl⟩, ?_⟩
          cases before : first._get_user key with
          | none => rfl
          | some info =>
            rw [UserDB.hasUser, sound.kept key info before] at unknown
            exact absurd rfl unknown

/-- What a getter finds in a filled entry. -/
theorem Sound.reading (sound : Sound first starts userDB place) {key : UserKey} {read : Option Value}
    (before : ReadFrom first starts key read) {info : UserInfo} (stored : userDB.info key = .ok info) :
    Fits first starts userDB (.getting key none) (reading key read userDB) := by
  have known := sound.known stored
  cases read with
  | none =>
    refine ⟨rfl, ?_⟩
    rintro connection same
    cases same
    exact ⟨info, known, by rw [stored_of_info stored]⟩
  | some connection =>
    obtain ⟨one, first, rfl⟩ := before connection rfl
    simp only [QChatServer.reading, stored_of_info stored]
    cases decoded : UserDB.decodePub ((info.get? "pub").getD .null) with
    | error error => exact .question
    | ok pub => exact ⟨key, rfl, one, info, pub, first, known, decoded, rfl⟩

/-- What a handler finds when it looks at the database fits. -/
theorem Sound.finds (sound : Sound first starts userDB place) {thread : Thread}
    {next : UserDB → Place} (acts : program (place thread) = .peek next) :
    Fits first starts userDB (starts thread) (next userDB) := by
  have here := sound.threads thread
  cases now : place thread with
  | registerUser user connection pub =>
    rw [now] at acts here
    cases acts
    rw [show starts thread = .registerUser user connection pub from here]
    exact sound.registerUser user connection pub
  | getting key read =>
    rw [now] at acts here
    cases acts
    obtain ⟨begun, before⟩ := here
    rw [begun, QChatServer.getting]
    split
    · exact .question
    · exact ⟨rfl, before⟩
  | testing key read =>
    rw [now] at acts here
    cases acts
    obtain ⟨begun, before⟩ := here
    rw [begun, QChatServer.testing]
    cases stored : userDB.info key with
    | error error => exact .question
    | ok info => exact ⟨rfl, before, info, stored⟩
  | reading key read =>
    rw [now] at acts here
    cases acts
    obtain ⟨begun, before, info, stored⟩ := here
    rw [begun]
    exact sound.reading before stored
  | _ =>
    rw [now] at acts
    cases acts

variable [DecidableEq Thread]

/-- A handler that neither fills in an entry nor has just done so moves on, and the entry is
accounted for as before. -/
theorem Sound.accounted (sound : Sound first starts userDB place) {thread : Thread} (now : Place)
    {key : UserKey} {info : UserInfo} (before : first._get_user key = none)
    (entry : userDB._get_user key = some info)
    (fills : ∀ kwargs, place thread ≠ .updating key kwargs) (done : place thread ≠ .registered) :
    (info = Dict.empty ∧ ∃ filler kwargs,
        update place thread now filler = .updating key kwargs) ∨
      ∃ owner, update place thread now owner = .registered ∧
        Registers (starts owner) key info := by
  have elsewhere {other : Thread} {there : Place} (stands : place other = there)
      (apart : place thread ≠ there) : update place thread now other = there := by
    rw [Function.update_of_ne, stands]
    rintro rfl
    exact apart stands
  rcases sound.entries key info before entry with ⟨empty, filler, kwargs, there⟩ |
    ⟨owner, there, registers⟩
  · exact .inl ⟨empty, filler, kwargs, elsewhere there (fills kwargs)⟩
  · exact .inr ⟨owner, elsewhere there done, registers⟩

/-- A look at the database. -/
theorem Sound.peek (sound : Sound first starts userDB place) {thread : Thread}
    {next : UserDB → Place} (acts : program (place thread) = .peek next) :
    Sound first starts userDB (update place thread (next userDB)) := by
  have acting {now : Place} (stops : ∀ look, program now ≠ .peek look) : place thread ≠ now := by
    intro here
    rw [here] at acts
    exact stops next acts
  constructor
  · exact sound.kept
  · intro key info before entry
    exact sound.accounted _ before entry (fun kwargs => acting nofun) (acting nofun)
  · intro other
    by_cases same : other = thread
    · subst same
      rw [Function.update_self]
      exact sound.finds acts
    · rw [Function.update_of_ne same]
      exact sound.threads other

/-- An entry without fields is created for a new user. -/
theorem Sound.create (sound : Sound first starts userDB place) {thread : Thread} {key : UserKey}
    {kwargs : UserInfo} (here : place thread = .creating key kwargs) :
    Sound first starts (userDB.create key) (update place thread (.updating key kwargs)) := by
  have fits := sound.threads thread
  rw [here] at fits
  obtain ⟨registers, new⟩ := fits
  have stays (other : UserKey) (info : UserInfo) (entry : userDB._get_user other = some info) :
      (userDB.create key)._get_user other = some info := by
    rw [get_user_create, if_neg, entry]
    rintro ⟨rfl, missing⟩
    cases missing.symm.trans entry
  constructor
  · intro other info before
    exact stays other info (sound.kept other info before)
  · intro other info before entry
    rw [get_user_create] at entry
    split at entry
    · next made =>
      cases entry
      exact .inl ⟨rfl, thread, kwargs, by rw [Function.update_self, made.1]⟩
    · exact sound.accounted _ before entry (by simp [here]) (by simp [here])
  · intro other
    by_cases same : other = thread
    · subst same
      rw [Function.update_self]
      refine ⟨registers, new, ?_⟩
      rw [UserDB.hasUser, get_user_create]
      split
      · rfl
      · next there =>
        rw [Option.isSome_iff_ne_none]
        exact fun missing => there ⟨rfl, missing⟩
    · rw [Function.update_of_ne same]
      exact (sound.threads other).grown fun named info entry => ⟨info, stays named info entry, id⟩

/-- The fields of a new user are filled in, all at once. -/
theorem Sound.fill (sound : Sound first starts userDB place) {thread : Thread} {key : UserKey}
    {kwargs : UserInfo} (here : place thread = .updating key kwargs) :
    Sound first starts (userDB.addUser key kwargs) (update place thread .registered) := by
  have fits := sound.threads thread
  rw [here] at fits
  obtain ⟨registers, new, there⟩ := fits
  obtain ⟨old, present⟩ := Option.isSome_iff_exists.mp there
  have whole : old.update kwargs = kwargs := by
    obtain ⟨_, _, _, _, -, -, -, -, rfl⟩ := registers
    rcases sound.entries key old new present with ⟨rfl, -⟩ |
      ⟨_, -, _, _, _, _, -, -, -, -, rfl⟩
    · exact update_empty _ _
    · exact update_registered _ _ _ _
  have filled : kwargs.entries.isEmpty = false := by
    obtain ⟨_, _, _, _, -, -, -, -, rfl⟩ := registers
    rfl
  have entries (other : UserKey) : (userDB.addUser key kwargs)._get_user other =
      if other = key then some kwargs else userDB._get_user other := by
    rw [UserDB.get_user_addUser, present, Option.getD_some, whole]
  constructor
  · intro other info before
    rw [entries, if_neg]
    · exact sound.kept other info before
    · rintro rfl
      cases new.symm.trans before
  · intro other info before entry
    rw [entries] at entry
    by_cases named : other = key
    · subst named
      rw [if_pos rfl] at entry
      cases entry
      exact .inr ⟨thread, Function.update_self .., registers⟩
    · rw [if_neg named] at entry
      refine sound.accounted _ before entry (fun found fills => ?_) (by simp [here])
      cases here.symm.trans fills
      exact named rfl
  · intro other
    by_cases same : other = thread
    · subst same
      rw [Function.update_self]
      intro name info also
      obtain ⟨rfl, -⟩ := registers.unique also
      rw [UserDB.hasUser, entries, if_pos rfl]
      rfl
    · rw [Function.update_of_ne same]
      refine (sound.threads other).grown fun name info entry => ?_
      rw [entries]
      split
      · exact ⟨kwargs, rfl, fun _ => filled⟩
      · exact ⟨info, entry, id⟩

theorem Sound.step {before after : UserDB × (Thread → Place)}
    (sound : Sound first starts before.1 before.2) (step : Threads.Atomic program before after) :
    Sound first starts after.1 after.2 := by
  cases step with
  | peek userDB place thread next acts => exact sound.peek acts
  | guarded userDB place thread body acts =>
    cases now : place thread with
    | creating key kwargs =>
      rw [now] at acts
      cases acts
      exact sound.create now
    | updating key kwargs =>
      rw [now] at acts
      cases acts
      exact sound.fill now
    | _ =>
      rw [now] at acts
      cases acts

/-- However handlers interleave that register users and answer questions for single users: the
entries of the start stay as they are; every new entry is that of one registration that has
succeeded, or without fields while a registration is about to fill it; a registration that has
ended leaves its user registered; and an answer consists of what is known.

Proof: a section that holds the lock of the database is run as a whole, so it is enough that the
invariant is kept by steps in which no section is interrupted. Between the test of a
registration and its entry others may register the same user, and the entry then keeps what both
have stored. -/
theorem registrations_whole (begin : ∀ thread, Starts (starts thread))
    {threads : Threads Thread UserDB Place}
    (reached : Threads.Reaches program (Threads.start first starts) threads) :
    (∀ key info, first._get_user key = some info →
      threads.state._get_user key = some info) ∧
    (∀ key info, first._get_user key = none → threads.state._get_user key = some info →
      (info = Dict.empty ∧ ∃ thread kwargs, threads.place thread = .updating key kwargs) ∨
        ∃ thread, threads.place thread = .registered ∧ Registers (starts thread) key info) ∧
    (∀ thread key info, Registers (starts thread) key info →
      (threads.place thread = .registered ∨ ∃ error, threads.place thread = .raised error) →
        threads.state.hasUser key = true) ∧
    ∀ thread public_info, threads.place thread = .answered public_info →
      ∃ key, starts thread = .getting key none ∧ Answers first starts key public_info := by
  have initially : Sound first starts first starts := by
    constructor
    · intro key info entry
      exact entry
    · intro key info new entry
      cases new.symm.trans entry
    · intro thread
      have begun := begin thread
      cases here : starts thread with
      | registerUser user connection pub => rfl
      | getting key read =>
        rw [here] at begun
        cases begun with
        | getting key single => exact ⟨rfl, fun _ none => by cases none⟩
      | _ =>
        rw [here] at begun
        cases begun
  have sound : Sound first starts threads.state threads.place :=
    reached.invariant (Sound first starts) initially fun _ _ holds step => holds.step step
  refine ⟨sound.kept, sound.entries, ?_, ?_⟩
  · intro thread key info registers ended
    have here := sound.threads thread
    rcases ended with done | ⟨error, failed⟩
    · rw [done] at here
      exact here key info registers
    · rw [failed] at here
      exact here key info registers
  · intro thread public_info answered
    have here := sound.threads thread
    rw [answered] at here
    exact here

end Interleaved

/-- Two handlers that check before either stores register one user: both succeed, and the
user has what the last one brought. -/
theorem registrations_whole_race : ∃ threads : Threads Bool UserDB Place,
    threads.place true = .registered ∧ threads.place false = .registered ∧
    threads.state._get_user (.str "alice") = some (registeredInfo [] (.num 2)) ∧
    threads.state.hasUser (.str "alice") = true := by
  let starts (thread : Bool) : Place :=
    .registerUser (.str "alice") (.num (if thread then 1 else 2)) (.str "")
  have begin (thread : Bool) : Starts (starts thread) := .registerUser ..
  have registers : Registers (starts true) (.str "alice") (registeredInfo [] (.num 1)) :=
    ⟨.str "alice", .num 1, .str "", [], rfl, rfl, rfl, rfl, rfl⟩
  have checked := (Relation.ReflTransGen.refl.tail
    (show Threads.Atomic program (UserDB.init, starts) _ from .peek _ _ true _ rfl)).tail
      (.peek _ _ false _ rfl)
  have one := (checked.tail (.guarded _ _ true _ rfl)).tail (.guarded _ _ true _ rfl)
  have both := (one.tail (.guarded _ _ false _ rfl)).tail (.guarded _ _ false _ rfl)
  have whole := registrations_whole begin (Threads.Reaches.of_atomic both)
  exact ⟨_, rfl, rfl, rfl, whole.2.2.1 true _ _ registers (.inl rfl)⟩

end QChatServer

end QChat
