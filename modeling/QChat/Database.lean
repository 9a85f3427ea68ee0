import QChat.Methods
import QChat.UserDB

/-!
# Calls of the user database

What sequences of calls do to a user database, and what a call that raises leaves
behind. An operation whose argument cannot be a key raises before it does
anything else.

`hasUser` asks whether there is an entry, the getters ask for one with a field. So
they agree exactly as long as no call leaves an entry without fields. Of all
operations only `deleteUserInfo` can fail after it has changed the database: it
stops at the first field it does not find.
-/

namespace QChat

/-- A call of an operation of the user database, with the arguments as they come: users are
values, which need not be usable as keys. -/
inductive Call where
  | hasUser (user : Value)
  | getPublicKey (user : Value)
  | getMessageKey (user : Value)
  | getConnectionInfo (user : Value)
  | getPublicUserInfo (user : Value)
  | deleteUserInfo (user : Value) (fields : List String)
  | deleteUser (user : Value)
  | changeUserInfo (user : Value) (kwargs : UserInfo)
  | addUser (user : Value) (kwargs : UserInfo)

/-- What a call returns: nothing, a truth value, the value of a field, or the public
information. -/
inductive Answer where
  | none
  | bool (value : Bool)
  | value (value : Value)
  | info (entries : List (String × Value))

/-- The calls that read. -/
def Call.reads : Call → Prop
  | .hasUser _ | .getPublicKey _ | .getMessageKey _ | .getConnectionInfo _
  | .getPublicUserInfo _ => True
  | _ => False

namespace UserDB

/-- An operation that reads. -/
def reading (user : Value) (getter : UserDB → UserKey → Except Exn Answer) :
    Method UserDB Exn Answer := do
  let key ← UserKey.ofValue user
  let answer ← getter (← .get) key
  return answer

/-- An operation that writes. -/
def writing (user : Value) (operation : UserDB → UserKey → UserDB × Except Exn Unit) :
    Method UserDB Exn Answer := do
  let key ← UserKey.ofValue user
  let (changed, result) := operation (← .get) key
  .modify fun _ => changed
  result
  return .none

/-- Makes a call. -/
def perform : Call → Method UserDB Exn Answer
  | .hasUser user => reading user fun db key => .ok (.bool (db.hasUser key))
  | .getPublicKey user => reading user fun db key => (db.getPublicKey key).map .value
  | .getMessageKey user => reading user fun db key => (db.getMessageKey key).map .value
  | .getConnectionInfo user => reading user fun db key => (db.getConnectionInfo key).map .value
  | .getPublicUserInfo user => reading user fun db key => (db.getPublicUserInfo key).map .info
  | .deleteUserInfo user fields => writing user fun db key => db.deleteUserInfo key fields
  | .deleteUser user => writing user fun db key => db.deleteUser key
  | .changeUserInfo user kwargs => writing user fun db key => (db.changeUserInfo key kwargs, .ok ())
  | .addUser user kwargs => writing user fun db key => (db.addUser key kwargs, .ok ())

/-- The database after a sequence of calls. -/
def after (calls : List Call) : UserDB := calls.foldl (fun db call => (perform call db).2) init

theorem after_concat (calls : List Call) (call : Call) :
    after (calls ++ [call]) = (perform call (after calls)).2 := by
  rw [after, List.foldl_append]
  rfl

theorem reading_unchanged (user : Value) (getter : UserDB → UserKey → Except Exn Answer)
    (db : UserDB) : (reading user getter db).2 = db := by
  simp only [reading, Method.compute_bind, Method.get_bind]
  cases UserKey.ofValue user with
  | error exception => rfl
  | ok key =>
    dsimp only
    cases getter db key <;> rfl

theorem writing_apply (user : Value) (operation : UserDB → UserKey → UserDB × Except Exn Unit)
    (db : UserDB) :
    writing user operation db =
      match UserKey.ofValue user with
      | .error exception => (.error exception, db)
      | .ok key => ((operation db key).2.map fun _ => .none, (operation db key).1) := by
  simp only [writing, Method.compute_bind, Method.get_bind]
  cases UserKey.ofValue user with
  | error exception => rfl
  | ok key =>
    simp only [Method.modify_bind, Method.compute_bind]
    cases (operation db key).2 <;> rfl

/-- Reading changes nothing. -/
theorem perform_reads {call : Call} (reads : call.reads) (db : UserDB) :
    (perform call db).2 = db := by
  cases call with
  | hasUser user => exact reading_unchanged ..
  | getPublicKey user => exact reading_unchanged ..
  | getMessageKey user => exact reading_unchanged ..
  | getConnectionInfo user => exact reading_unchanged ..
  | getPublicUserInfo user => exact reading_unchanged ..
  | _ => cases reads

section Fields

/-- The fields of a list that are found one after the other, up to the first that is
absent or was removed before it. -/
def found : List String → List String → List String
  | _, [] => []
  | names, field :: rest =>
    if field ∈ names then field :: found (names.erase field) rest else []

theorem keys_erase (info : UserInfo) (field : String) :
    (info.erase field).keys = info.keys.erase field := by
  obtain ⟨entries, distinct⟩ := info
  simp only [Dict.keys, Dict.erase]
  clear distinct
  induction entries with
  | nil => rfl
  | cons entry rest inductionHypothesis =>
    obtain ⟨other, value⟩ := entry
    by_cases same : other = field
    · subst same
      simp [Dict.remove]
    · simp [Dict.remove, same, List.erase_cons_tail, inductionHypothesis]

theorem has_iff (info : UserInfo) (field : String) : info.has field = true ↔ field ∈ info.keys := by
  rw [Dict.has, Option.isSome_iff_ne_none, ne_eq, Dict.get?_eq_none, not_not]

/-- What remains are the fields that were not found. -/
theorem get_popFields (info : UserInfo) (fields : List String) (field : String) :
    (popFields info fields).1.get? field =
      if field ∈ found info.keys fields then none else info.get? field := by
  induction fields generalizing info with
  | nil => simp [popFields, found]
  | cons first rest inductionHypothesis =>
    by_cases present : first ∈ info.keys
    · rw [popFields, if_pos ((has_iff info first).mpr present), inductionHypothesis, keys_erase,
        found, if_pos present]
      by_cases same : field = first
      · subst same
        have gone : (info.erase field).get? field = none := by
          rw [Dict.get?_eq_none, keys_erase]
          exact info.distinct.not_mem_erase
        simp [gone]
      · simp [same, Dict.get?_erase_ne _ _ _ same]
    · rw [popFields, if_neg (mt (has_iff info first).mp present), found, if_neg present]
      simp

/-- All fields are found exactly if none is missing. -/
theorem popFields_result (info : UserInfo) (fields : List String) :
    (popFields info fields).2 = .ok () ↔ found info.keys fields = fields := by
  induction fields generalizing info with
  | nil => simp [popFields, found]
  | cons first rest inductionHypothesis =>
    by_cases present : first ∈ info.keys
    · rw [popFields, if_pos ((has_iff info first).mpr present), inductionHypothesis, keys_erase,
        found, if_pos present]
      simp
    · rw [popFields, if_neg (mt (has_iff info first).mp present), found, if_neg present]
      simp

/-- The fields that are found are removed from the entry one after the other. -/
theorem popFields_found (info : UserInfo) (fields : List String) :
    (popFields info fields).1 = (found info.keys fields).foldl Dict.erase info := by
  induction fields generalizing info with
  | nil => rfl
  | cons first rest inductionHypothesis =>
    by_cases present : first ∈ info.keys
    · rw [popFields, if_pos ((has_iff info first).mpr present), inductionHypothesis, keys_erase,
        found, if_pos present, List.foldl_cons]
    · rw [popFields, if_neg (mt (has_iff info first).mp present), found, if_neg present]
      rfl

/-- If nothing is found, nothing is removed. -/
theorem popFields_unfound {info : UserInfo} {fields : List String}
    (none : found info.keys fields = []) : (popFields info fields).1 = info := by
  rw [popFields_found, none]
  rfl

end Fields

/-- The getters succeed for exactly the users there are. -/
def Consistent (db : UserDB) : Prop :=
  ∀ user, db.hasUser user = true ↔
    (∀ text, db.getPublicKey user ≠ .error (.DBException text)) ∧
    (∀ text, db.getMessageKey user ≠ .error (.DBException text)) ∧
    ∀ text, db.getConnectionInfo user ≠ .error (.DBException text)

/-- A getter succeeds for the users with a field. -/
theorem getField_fails (db : UserDB) (user : UserKey) (field : String) :
    (∀ text, db.getField user field ≠ .error (.DBException text)) ↔
      ∃ info, db._get_user user = some info ∧ info.entries ≠ [] := by
  cases entry : db._get_user user with
  | none => simp [getField, UserDB.info, entry]
  | some info =>
    cases filled : info.entries with
    | nil => simp [getField, UserDB.info, entry, filled]
    | cons first rest => simp [getField, UserDB.info, entry, filled]

/-- Existence is consistent exactly if every entry has a field. -/
theorem consistent_iff (db : UserDB) :
    db.Consistent ↔ ∀ user info, db._get_user user = some info → info.entries ≠ [] := by
  have existing (user : UserKey) :
      db.hasUser user = true ↔ ∃ info, db._get_user user = some info := by
    rw [hasUser, Option.isSome_iff_exists]
  constructor
  · intro consistent user info entry
    have succeeds := ((consistent user).mp ((existing user).mpr ⟨info, entry⟩)).1
    obtain ⟨stored, listed, filled⟩ := (getField_fails db user "pub").mp succeeds
    cases entry.symm.trans listed
    exact filled
  · intro filled user
    rw [existing]
    constructor
    · rintro ⟨info, entry⟩
      have succeeds (field : String) := (getField_fails db user field).mpr ⟨info, entry, filled user info entry⟩
      exact ⟨succeeds "pub", succeeds "message_key", succeeds "connection"⟩
    · rintro ⟨succeeds, _⟩
      obtain ⟨info, entry, _⟩ := (getField_fails db user "pub").mp succeeds
      exact ⟨info, entry⟩

/-- The call leaves no user without fields: a new user comes with a field, and a
deletion of fields spares one of the user's fields. -/
def LeavesFields (db : UserDB) : Call → Prop
  | .addUser user kwargs => ∀ key, UserKey.ofValue user = .ok key →
      kwargs.entries ≠ [] ∨ db.hasUser key = true
  | .deleteUserInfo user fields => ∀ key info, UserKey.ofValue user = .ok key →
      db._get_user key = some info → ∃ field ∈ info.keys, field ∉ found info.keys fields
  | _ => True

theorem get_user_deleteUser (db : UserDB) (user other : UserKey) :
    (db.deleteUser user).1._get_user other =
      if other = user then none else db._get_user other := by
  by_cases known : db.hasUser user = true
  · rw [deleteUser, if_pos known]
    by_cases same : other = user
    · subst same
      rw [if_pos rfl]
      exact Dict.get?_erase_self ..
    · rw [if_neg same]
      exact Dict.get?_erase_ne _ _ _ same
  · have absent : db._get_user user = none := by
      simpa [hasUser] using known
    rw [deleteUser, if_neg known]
    by_cases same : other = user
    · rw [if_pos same, same, absent]
    · rw [if_neg same]

/-- Deleting fields leaves the user with those that were not found. -/
theorem get_user_deleteUserInfo (db : UserDB) (user other : UserKey) (fields : List String) :
    (db.deleteUserInfo user fields).1._get_user other =
      if other = user then (db._get_user user).map fun info => (popFields info fields).1
      else db._get_user other := by
  cases entry : db._get_user user with
  | none =>
    simp only [deleteUserInfo, UserDB.info, entry, Option.map_none]
    split
    · next same => rw [same, entry]
    · rfl
  | some info =>
    by_cases empty : info.entries.isEmpty = true
    · have nothing : info = Dict.empty := Dict.ext (List.isEmpty_iff.mp empty)
      subst nothing
      have same : (popFields Dict.empty fields).1 = Dict.empty := by
        cases fields <;> rfl
      simp only [deleteUserInfo, UserDB.info, entry, empty, ↓reduceIte, Option.map_some, same]
      split
      · next here => rw [here, entry]
      · rfl
    · simp only [deleteUserInfo, UserDB.info, entry, empty, Bool.false_eq_true, ↓reduceIte,
        Option.map_some]
      exact Dict.get?_set ..

/-- Merging a field into an entry leaves a field. -/
theorem update_filled (info : UserInfo) (kwargs : UserInfo) :
    (info.update kwargs).entries ≠ [] ↔ info.entries ≠ [] ∨ kwargs.entries ≠ [] := by
  have filled (info : UserInfo) : info.entries ≠ [] ↔ ∃ field, info.get? field ≠ none := by
    constructor
    · intro some
      obtain ⟨entry, member⟩ := List.exists_mem_of_ne_nil _ some
      exact ⟨entry.1, by rw [(Dict.get?_eq_some info entry.1 entry.2).mpr member]; simp⟩
    · rintro ⟨field, stored⟩ none
      exact stored ((Dict.get?_eq_none info field).mpr (by simp [Dict.keys, none]))
  rw [filled, filled, filled]
  simp only [Dict.get?_update, ne_eq, Option.or_eq_none_iff, not_and_or]
  rw [exists_or, or_comm]

/-- One call keeps existence consistent exactly if it leaves no user without fields. -/
theorem consistent_perform {db : UserDB} (consistent : db.Consistent) (call : Call) :
    (perform call db).2.Consistent ↔ db.LeavesFields call := by
  have filled := (consistent_iff db).mp consistent
  by_cases reads : call.reads
  · rw [perform_reads reads]
    refine ⟨fun _ => ?_, fun _ => consistent⟩
    cases call <;> trivial
  cases call with
  | deleteUserInfo user fields =>
    simp only [perform, writing_apply, LeavesFields]
    cases named : UserKey.ofValue user with
    | error exception => simpa using consistent
    | ok key =>
      dsimp only
      rw [consistent_iff]
      constructor
      · rintro leaves _ info ⟨rfl⟩ entry
        have rest := leaves key (popFields info fields).1 (by
          rw [get_user_deleteUserInfo, if_pos rfl, entry]
          rfl)
        obtain ⟨listed, member⟩ := List.exists_mem_of_ne_nil _ rest
        have stored := (Dict.get?_eq_some (popFields info fields).1 listed.1 listed.2).mpr member
        rw [get_popFields] at stored
        split at stored
        · cases stored
        · next spared =>
          refine ⟨listed.1, ?_, spared⟩
          exact List.mem_map.mpr ⟨listed, (Dict.get?_eq_some _ _ _).mp stored, rfl⟩
      · intro spares other info entry
        rw [get_user_deleteUserInfo] at entry
        split at entry
        · obtain ⟨before, known, rfl⟩ := Option.map_eq_some_iff.mp entry
          obtain ⟨field, member, spared⟩ := spares key before rfl known
          intro nothing
          have stored := get_popFields before fields field
          rw [if_neg spared, Dict.get?, nothing] at stored
          exact (Dict.get?_eq_none before field).mp stored.symm member
        · exact filled other info entry
  | deleteUser user =>
    simp only [perform, writing_apply, LeavesFields, iff_true]
    cases UserKey.ofValue user with
    | error exception => exact consistent
    | ok key =>
      refine (consistent_iff _).mpr fun other info entry => ?_
      rw [get_user_deleteUser] at entry
      split at entry
      · cases entry
      · exact filled other info entry
  | changeUserInfo user kwargs =>
    simp only [perform, writing_apply, LeavesFields, iff_true]
    cases UserKey.ofValue user with
    | error exception => exact consistent
    | ok key =>
      refine (consistent_iff _).mpr fun other info entry => ?_
      rw [get_user_changeUserInfo] at entry
      split at entry
      · obtain ⟨before, known, rfl⟩ := Option.map_eq_some_iff.mp entry
        exact (update_filled before kwargs).mpr (Or.inl (filled key before known))
      · exact filled other info entry
  | addUser user kwargs =>
    simp only [perform, writing_apply, LeavesFields]
    cases UserKey.ofValue user with
    | error exception => simpa using consistent
    | ok key =>
      dsimp only
      rw [consistent_iff]
      constructor
      · rintro leaves _ ⟨rfl⟩
        have merged := leaves key (((db._get_user key).getD Dict.empty).update kwargs) (by
          rw [get_user_addUser, if_pos rfl])
        cases entry : db._get_user key with
        | none =>
          rw [entry] at merged
          exact Or.inl (((update_filled _ _).mp merged).resolve_left (fun some => some rfl))
        | some info => exact Or.inr (by rw [hasUser, entry]; rfl)
      · intro brings other info entry
        rw [get_user_addUser] at entry
        split at entry
        · cases entry
          rw [update_filled]
          rcases brings key rfl with fields | known
          · exact Or.inr fields
          · obtain ⟨before, stored⟩ := Option.isSome_iff_exists.mp known
            rw [stored]
            exact Or.inl (filled key before stored)
        · exact filled other info entry
  | _ => exact absurd trivial reads

theorem consistent_init : init.Consistent :=
  (consistent_iff init).mpr fun user info entry => by cases entry

/-- In a sequence of calls existence stays consistent exactly as long as every call leaves no
user without fields; and calls that read change nothing.

Proof: the database is consistent exactly if every entry has a field, and whether a call keeps
this can be said of the call and the state before it. The rest is an induction over the calls,
from the first. -/
theorem existence_consistent (calls : List Call) :
    ((∀ earlier call, earlier ++ [call] <+: calls → (after earlier).LeavesFields call) ↔
      ∀ earlier, earlier <+: calls → (after earlier).Consistent) ∧
      ∀ call db, call.reads → (perform call db).2 = db := by
  refine ⟨?_, fun call db reads => perform_reads reads db⟩
  constructor
  · intro leaves earlier initial
    -- induction along the calls made so far
    induction earlier using List.reverseRecOn with
    | nil => exact consistent_init
    | append_singleton earlier call inductionHypothesis =>
      have before := inductionHypothesis ((List.prefix_append _ _).trans initial)
      rw [after_concat]
      exact (consistent_perform before call).mpr (leaves earlier call initial)
  · intro consistent earlier call initial
    have before := consistent earlier ((List.prefix_append _ _).trans initial)
    have next := consistent (earlier ++ [call]) initial
    rw [after_concat] at next
    exact (consistent_perform before call).mp next

/-- A user added without fields exists for `hasUser` only. -/
theorem added_without_fields :
    (after [.addUser (.str "eve") Dict.empty]).hasUser (.str "eve") = true ∧
      (after [.addUser (.str "eve") Dict.empty]).getConnectionInfo (.str "eve") =
        .error (.DBException "User {} does not exist in the database!") :=
  ⟨rfl, rfl⟩

/-- A call of an operation that writes and raises: the database is as it was, or the key of the
user was good and the operation itself has raised and left what it left. -/
theorem writing_raised {user : Value} {operation : UserDB → UserKey → UserDB × Except Exn Unit}
    {db : UserDB} {exception : Exn}
    (raised : (writing user operation db).1 = .error exception) :
    (writing user operation db).2 = db ∨ ∃ key, UserKey.ofValue user = .ok key ∧
      (operation db key).2 = .error exception ∧
      (writing user operation db).2 = (operation db key).1 := by
  rw [writing_apply] at raised ⊢
  cases named : UserKey.ofValue user with
  | error _ => exact Or.inl rfl
  | ok key =>
    simp only [named] at raised
    refine Or.inr ⟨key, rfl, ?_, rfl⟩
    cases result : (operation db key).2 with
    | error other =>
      rw [result] at raised
      cases raised
      rfl
    | ok _ =>
      rw [result] at raised
      cases raised

/-- Deleting a user who is there does not fail, and deleting another changes nothing. -/
theorem deleteUser_raised {db : UserDB} {key : UserKey} {exception : Exn}
    (raised : (db.deleteUser key).2 = .error exception) : (db.deleteUser key).1 = db := by
  rw [deleteUser] at raised ⊢
  split
  · next known =>
    rw [if_pos known] at raised
    cases raised
  · rfl

/-- A deletion of fields that raises changes nothing, or it has found some of the fields but
not all, and has removed those before the first that it did not find. -/
theorem deleteUserInfo_raised {db : UserDB} {key : UserKey} {fields : List String}
    {exception : Exn} (raised : (db.deleteUserInfo key fields).2 = .error exception) :
    (db.deleteUserInfo key fields).1 = db ∨ ∃ info, db._get_user key = some info ∧
      found info.keys fields ≠ fields ∧ found info.keys fields ≠ [] := by
  cases entry : db._get_user key with
  | none =>
    refine Or.inl ?_
    simp only [deleteUserInfo, UserDB.info, entry]
  | some info =>
    by_cases empty : info.entries.isEmpty = true
    · refine Or.inl ?_
      simp only [deleteUserInfo, UserDB.info, entry, empty, ↓reduceIte]
    · simp only [deleteUserInfo, UserDB.info, entry, empty, Bool.false_eq_true,
        ↓reduceIte] at raised ⊢
      by_cases nothing : found info.keys fields = []
      · refine Or.inl ?_
        rw [popFields_unfound nothing]
        exact UserDB.ext (Dict.set_same db.db key info entry)
      · refine Or.inr ⟨info, rfl, fun whole => ?_, nothing⟩
        rw [(popFields_result info fields).mpr whole] at raised
        cases raised

/-- The fields of all users after a deletion of fields: those found are gone from the entry of
the user, and all others are as before. -/
theorem stored_deleteUserInfo {db : UserDB} {key : UserKey} {fields : List String}
    {info : UserInfo} (entry : db._get_user key = some info) (other : UserKey) (field : String) :
    (db.deleteUserInfo key fields).1.stored other field =
      if other = key ∧ field ∈ found info.keys fields then none else db.stored other field := by
  rw [stored, get_user_deleteUserInfo, entry, Option.map_some]
  by_cases same : other = key
  · subst same
    simp only [stored, ↓reduceIte, entry, Option.bind_some, get_popFields, true_and]
  · simp only [stored, same, ↓reduceIte, false_and]

/-- A call that raises leaves the database as it was, or it is a deletion of fields,
and has removed those before the first that it did not find. Every other user keeps the
entry there was, and of this user's entry nothing but those fields is gone. -/
theorem raised_leaves {db : UserDB} {call : Call} {exception : Exn}
    (raised : (perform call db).1 = .error exception) :
    (perform call db).2 = db ∨ ∃ user key fields info,
      call = .deleteUserInfo user fields ∧ UserKey.ofValue user = .ok key ∧
      db._get_user key = some info ∧ found info.keys fields ≠ fields ∧
      found info.keys fields ≠ [] ∧
      (∀ other, (perform call db).2._get_user other =
        if other = key then some ((found info.keys fields).foldl Dict.erase info)
        else db._get_user other) ∧
      ∀ other field, (perform call db).2.stored other field =
        if other = key ∧ field ∈ found info.keys fields then none else db.stored other field := by
  by_cases reads : call.reads
  · exact Or.inl (perform_reads reads db)
  cases call with
  | deleteUserInfo user fields =>
    rcases writing_raised raised with same | ⟨key, named, failed, left⟩
    · exact Or.inl same
    · rcases deleteUserInfo_raised failed with same | ⟨info, entry, partly, some⟩
      · exact Or.inl (left.trans same)
      · have next : (perform (.deleteUserInfo user fields) db).2 =
            (db.deleteUserInfo key fields).1 := left
        refine Or.inr ⟨user, key, fields, info, rfl, named, entry, partly, some,
          fun other => ?_, fun other field => ?_⟩
        · rw [next, get_user_deleteUserInfo, entry, Option.map_some, popFields_found]
        · rw [next, stored_deleteUserInfo entry]
  | deleteUser user =>
    refine Or.inl ?_
    rcases writing_raised raised with same | ⟨key, _, failed, left⟩
    · exact same
    · exact left.trans (deleteUser_raised failed)
  | changeUserInfo user kwargs =>
    rcases writing_raised raised with same | ⟨_, _, failed, _⟩
    · exact Or.inl same
    · cases failed
  | addUser user kwargs =>
    rcases writing_raised raised with same | ⟨_, _, failed, _⟩
    · exact Or.inl same
    · cases failed
  | _ => exact absurd trivial reads

/-- A database with one user who has a public key and no message key. -/
def sampleDB : UserDB := init.addUser (.str "bob") (Dict.single "pub" (.bytes [1]))

/-- The public key is gone although the call has raised. -/
theorem partial_deletion :
    (perform (.deleteUserInfo (.str "bob") ["pub", "message_key"]) sampleDB).1 =
        .error (.KeyError "message_key") ∧
      sampleDB.stored (.str "bob") "pub" = some (.bytes [1]) ∧
      (perform (.deleteUserInfo (.str "bob") ["pub", "message_key"]) sampleDB).2.stored
        (.str "bob") "pub" = none := by
  have entry : sampleDB._get_user (.str "bob") = some (Dict.single "pub" (.bytes [1])) := by
    rw [sampleDB, get_user_addUser, if_pos rfl]
    rfl
  refine ⟨?_, by rw [stored, entry]; rfl, ?_⟩
  · simp [perform, writing_apply, UserKey.ofValue, deleteUserInfo, UserDB.info, entry, popFields,
      Dict.single, Dict.has, Dict.get?, Dict.lookup, Dict.erase, Dict.remove, Except.map]
  · simp [perform, writing_apply, UserKey.ofValue, stored, get_user_deleteUserInfo, entry,
      get_popFields, found, Dict.keys, Dict.single]

theorem raised_leaves_partial_deletion :
    (perform (.deleteUserInfo (.str "bob") ["pub", "message_key"]) sampleDB).2 = sampleDB ∨
      ∃ user key fields info,
        Call.deleteUserInfo (.str "bob") ["pub", "message_key"] = .deleteUserInfo user fields ∧
        UserKey.ofValue user = .ok key ∧ sampleDB._get_user key = some info ∧
        found info.keys fields ≠ fields ∧ found info.keys fields ≠ [] ∧
        (∀ other,
          (perform (.deleteUserInfo (.str "bob") ["pub", "message_key"]) sampleDB).2._get_user
            other =
          if other = key then some ((found info.keys fields).foldl Dict.erase info)
          else sampleDB._get_user other) ∧
        ∀ other field,
          (perform (.deleteUserInfo (.str "bob") ["pub", "message_key"]) sampleDB).2.stored other
            field =
          if other = key ∧ field ∈ found info.keys fields then none
          else sampleDB.stored other field :=
  raised_leaves partial_deletion.1

end UserDB

end QChat
