import QChat.Bytes

/-!
# The user database

The information a node holds about users: for each user a dictionary of fields,
of which `pub`, `connection` and `message_key` are read by name. Every operation
of the source is here. An operation that changes the database returns it also
when it raises, since what it stored or removed before stays.

The source looks users up by whatever value a message names. A value that cannot
be a key is a `TypeError`, raised by `UserKey.ofValue` where the source first
looks the user up; after that an operation works on a key.
-/

namespace QChat

/-- A value as a dictionary key. Numbers that are equal are the same key. A dictionary
compares objects by identity first, and every `nan` that `json` reads is one object. -/
inductive UserKey where
  | null
  | num (value : Int)
  | float (value : FloatText)
  | constant (value : FloatConstant)
  | str (text : String)
  | bytes (content : Bytes)
deriving DecidableEq

namespace UserKey

def ofValue : Value → Except Exn UserKey
  | .null => .ok .null
  | .bool value => .ok (.num (if value then 1 else 0))
  | .num value => .ok (.num value)
  | .float value => .ok (if value.value.den = 1 then .num value.value.num else .float value)
  | .constant value => .ok (.constant value)
  | .str text => .ok (.str text)
  | .bytes content => .ok (.bytes content)
  | .arr _ | .obj _ => .error .TypeError

def toValue : UserKey → Value
  | .null => .null
  | .num value => .num value
  | .float value => .float value
  | .constant value => .constant value
  | .str text => .str text
  | .bytes content => .bytes content

/-- The key as an exception shows it. -/
def text : UserKey → String
  | .null => "None"
  | .num value => toString value
  | .float value => value.text
  | .constant value => value.text
  | .str text => text
  | .bytes content => Bytes.latin1Text content

end UserKey

/-- The entries `dict.update` takes from a value: those of a dictionary, or the
pairs a sequence lists. -/
def Value.pairs (value : Value) : Except Exn (List (UserKey × Value)) :=
  match value with
  | .obj entries => .ok (entries.map (fun entry => (.str entry.1, entry.2)))
  | _ => do
    let items ← value.iterate
    items.mapM fun item => do
      match ← item.iterate with
      | [key, value] => return (← UserKey.ofValue key, value)
      | _ => .error .ValueError

/-- A public key as the export writes it. -/
def pubText (pub : Bytes) : Value := .str (Bytes.latin1Text pub)

/-- A stored value is the public key: its bytes, or the text that is sent for them. -/
def IsPublicKey (pub : Bytes) (key : Value) : Prop := key = .bytes pub ∨ key = pubText pub

/-- The fields stored for one user. -/
abbrev UserInfo := Dict String Value

@[ext] structure UserDB where
  db : Dict UserKey UserInfo

namespace UserDB

def init : UserDB := ⟨Dict.empty⟩

variable (self : UserDB)

/-- Retrieves a user's data in the database. -/
def _get_user (user : UserKey) : Option UserInfo := self.db.get? user

/-- Checks if the database has the specified user. -/
def hasUser (user : UserKey) : Bool := (self._get_user user).isSome

/-- The data of a user that the getters require: an entry without any field does
not count. -/
def info (user : UserKey) : Except Exn UserInfo :=
  match self._get_user user with
  | some info =>
    if info.entries.isEmpty then .error (.DBException "User {} does not exist in the database!")
    else .ok info
  | none => .error (.DBException "User {} does not exist in the database!")

/-- `info.get(field)`. -/
def getField (user : UserKey) (field : String) : Except Exn Value := do
  let info ← self.info user
  return (info.get? field).getD .null

def getPublicKey (user : UserKey) : Except Exn Value := self.getField user "pub"

def getMessageKey (user : UserKey) : Except Exn Value := self.getField user "message_key"

def getConnectionInfo (user : UserKey) : Except Exn Value := self.getField user "connection"

/-- Removes fields one after the other, up to the first that is not there. -/
def popFields (info : UserInfo) : List String → UserInfo × Except Exn Unit
  | [] => (info, .ok ())
  | field :: rest =>
    if info.has field then popFields (info.erase field) rest
    else (info, .error (.KeyError field))

/-- Deletes all specified fields of data for the user. -/
def deleteUserInfo (user : UserKey) (fields : List String) : UserDB × Except Exn Unit :=
  match self.info user with
  | .error exception => (self, .error exception)
  | .ok info =>
    let (rest, result) := popFields info fields
    (⟨self.db.set user rest⟩, result)

/-- Deletes a user from the database. -/
def deleteUser (user : UserKey) : UserDB × Except Exn Unit :=
  if self.hasUser user then (⟨self.db.erase user⟩, .ok ())
  else (self, .error (.KeyError user.text))

/-- Updates a user entry in the database. -/
def changeUserInfo (user : UserKey) (kwargs : UserInfo) : UserDB :=
  match self._get_user user with
  | some info => ⟨self.db.set user (info.update kwargs)⟩
  | none => self

/-- Adds a user into the database along with any initial data. -/
def addUser (user : UserKey) (kwargs : UserInfo) : UserDB :=
  ⟨self.db.set user (((self._get_user user).getD Dict.empty).update kwargs)⟩

/-- `pub.decode("ISO-8859-1")`: only a byte string has this method. -/
def decodePub : Value → Except Exn Value
  | .bytes content => .ok (.str (Bytes.latin1Text content))
  | _ => .error .AttributeError

/-- The public information of one user. -/
def publicInfo (user : UserKey) : Except Exn (List (String × Value)) := do
  let connection ← self.getConnectionInfo user
  let pub ← self.getPublicKey user
  let decoded ← decodePub pub
  return [("connection", connection), ("pub", decoded), ("user", user.toValue)]

/-- Returns the public information of a user including the connection details and
public key; `*` stands for all users. -/
def getPublicUserInfo (user : UserKey) : Except Exn (List (String × Value)) :=
  if user = .str "*" then do
    let public_info ← self.db.keys.mapM self.publicInfo
    return [("user", .str "*"), ("info", .arr (public_info.map .obj))]
  else self.publicInfo user

/-- The public key of a user is there: in bytes, as registrations and the own node store it,
or as the text that the import of another node's answer stores. -/
def HasPublicKey (user : UserKey) (pub : Bytes) : Prop :=
  ∃ key, self.getPublicKey user = .ok key ∧ IsPublicKey pub key

/-- What is stored in a field of a user, if anything is. -/
def stored (user : UserKey) (field : String) : Option Value :=
  (self._get_user user).bind (·.get? field)

variable {self}

theorem get_user_addUser (user other : UserKey) (kwargs : UserInfo) :
    (self.addUser user kwargs)._get_user other =
      if other = user then some (((self._get_user user).getD Dict.empty).update kwargs)
      else self._get_user other :=
  Dict.get?_set ..

theorem get_user_changeUserInfo (user other : UserKey) (kwargs : UserInfo) :
    (self.changeUserInfo user kwargs)._get_user other =
      if other = user then (self._get_user user).map (·.update kwargs)
      else self._get_user other := by
  by_cases same : other = user
  · subst same
    rw [if_pos rfl]
    cases entry : self._get_user other with
    | none => simp only [changeUserInfo, entry, Option.map_none]
    | some info =>
      simp only [changeUserInfo, entry, Option.map_some]
      exact Dict.get?_set_self ..
  · rw [if_neg same]
    cases entry : self._get_user user with
    | none => simp only [changeUserInfo, entry]
    | some info =>
      simp only [changeUserInfo, entry]
      exact Dict.get?_set_ne self.db user other _ same

/-- Adding merges the new fields into the user's entry. -/
theorem stored_addUser (user other : UserKey) (kwargs : UserInfo) (field : String) :
    (self.addUser user kwargs).stored other field =
      if other = user then (kwargs.get? field).or (self.stored user field)
      else self.stored other field := by
  by_cases same : other = user
  · subst same
    simp only [stored, get_user_addUser, ↓reduceIte, Option.bind_some, Dict.get?_update]
    cases self._get_user other <;> rfl
  · simp only [stored, get_user_addUser, if_neg same]

/-- Changing merges the new fields into the entry of a user who has one. -/
theorem stored_changeUserInfo (user other : UserKey) (kwargs : UserInfo) (field : String) :
    (self.changeUserInfo user kwargs).stored other field =
      if other = user ∧ self.hasUser user then (kwargs.get? field).or (self.stored user field)
      else self.stored other field := by
  by_cases same : other = user
  · subst same
    cases entry : self._get_user other with
    | none => simp [stored, hasUser, get_user_changeUserInfo, entry]
    | some info => simp [stored, hasUser, get_user_changeUserInfo, entry, Dict.get?_update]
  · simp only [stored, get_user_changeUserInfo, same, false_and, ↓reduceIte]

/-- A user with a stored field is in the database. -/
theorem hasUser_of_stored {user : UserKey} {field : String}
    (known : self.stored user field ≠ none) : self.hasUser user = true := by
  cases entry : self._get_user user with
  | none => exact absurd (by rw [stored, entry]; rfl) known
  | some info => rw [hasUser, entry]; rfl

/-- A user whose fields can be read is in the database. -/
theorem hasUser_of_getField {user : UserKey} {field : String} {value : Value}
    (read : self.getField user field = .ok value) : self.hasUser user = true := by
  cases entry : self._get_user user with
  | none =>
    rw [getField, UserDB.info, entry] at read
    cases read
  | some info => rw [hasUser, entry]; rfl

/-- What is stored is what the getters return. -/
theorem getField_stored {user : UserKey} {field : String} {value : Value}
    (known : self.stored user field = some value) : self.getField user field = .ok value := by
  obtain ⟨info, entry, listed⟩ := Option.bind_eq_some_iff.mp known
  have filled : info.entries.isEmpty = false := by
    have member := (Dict.get?_eq_some info field value).mp listed
    cases empty : info.entries with
    | nil => rw [empty] at member; cases member
    | cons _ _ => rfl
  simp [getField, UserDB.info, entry, filled, listed]

end UserDB

end QChat
