import Conform.Calendar.Field
import Conform.Calendar.Moment
import Conform.Records

/-!
# Users

Users as they are asked for, stored, listed and shown.
-/

namespace Conform

inductive Role where
  | admin
  | member
  | guest
  deriving DecidableEq, Repr

namespace Role

def all : List Role := [admin, member, guest]

def name : Role → String
  | admin => "admin"
  | member => "member"
  | guest => "guest"

def toJson (r : Role) : Json := .str r.name

def decode : Json → Decode.Result Role := Decode.variant (all.map fun r => (r.name, r))

end Role

/-- What a caller says of a new user. -/
structure NewUser where
  name : String
  email : String
  age : Option Int
  roles : List Role
  bornOn : Option CalendarDate
  deriving DecidableEq, Repr

namespace NewUser

def layout : Decode.Layout := ⟨"CreateUser", ["name", "email", "age", "roles", "born_on"]⟩

/-- The fields found so far. -/
structure Draft where
  name : Option String := none
  email : Option String := none
  age : Option (Option Int) := none
  roles : Option (List Role) := none
  bornOn : Option (Option CalendarDate) := none

def Draft.set (d : Draft) (field : String) (v : Json) : Decode.Result Draft :=
  match field with
  | "name" => do .ok { d with name := some (← Decode.text v) }
  | "email" => do .ok { d with email := some (← Decode.text v) }
  | "age" => do .ok { d with age := some (← Decode.optional Decode.signed v) }
  | "roles" => do .ok { d with roles := some (← Decode.list Role.decode v) }
  | "born_on" => do .ok { d with bornOn := some (← Decode.optional CalendarDate.decode v) }
  | _ => .ok d

/-- The user that the fields describe; without roles it has none. -/
def Draft.finish (d : Draft) (written : Decode.Written) : Decode.Result NewUser := do
  let name ← layout.require "name" written d.name
  let email ← layout.require "email" written d.email
  let age ← layout.perhaps "age" written d.age
  let bornOn ← layout.perhaps "born_on" written d.bornOn
  .ok { name, email, age, roles := d.roles.getD [], bornOn }

def decode : Json → Decode.Result NewUser := layout.read {} Draft.set Draft.finish

end NewUser

/-- A stored user. -/
structure User where
  id : Uuid
  name : String
  email : String
  age : Option Int
  roles : List Role
  bornOn : Option CalendarDate
  createdAt : Moment
  deriving DecidableEq, Repr

namespace User

/-- The stored user of a request, under a new id. -/
def create (id : Uuid) (createdAt : Moment) (u : NewUser) : User :=
  { id, createdAt, name := u.name, email := u.email, age := u.age, roles := u.roles,
    bornOn := u.bornOn }

def toJson (u : User) : Json :=
  .object [
    ("id", .str u.id.text),
    ("name", .str u.name),
    ("email", .str u.email),
    ("age", .orNull (u.age.map fun n => .num (.int n))),
    ("roles", .arr (u.roles.map Role.toJson)),
    ("born_on", .orNull (u.bornOn.map fun d => .str d.text)),
    ("created_at", .str u.createdAt.text)]

end User

namespace User

/-- Whether a user comes before another in lists: by creation, then by id. -/
def before (a b : User) : Bool :=
  a.createdAt < b.createdAt || (a.createdAt == b.createdAt && !decide (b.id < a.id))

end User

/-- What a caller asks of the list of users. -/
structure UserQuery where
  limit : Option Int
  role : Option Role
  ids : Option (List Uuid)
  deriving DecidableEq, Repr

namespace UserQuery

def layout : Decode.Layout := ⟨"UserListQuery", ["limit", "role", "ids"]⟩

/-- The fields found so far. -/
structure Draft where
  limit : Option (Option Int) := none
  role : Option (Option Role) := none
  ids : Option (Option (List Uuid)) := none

def Draft.set (d : Draft) (field : String) (v : Json) : Decode.Result Draft :=
  match field with
  | "limit" => do .ok { d with limit := some (← Decode.optional Decode.signed v) }
  | "role" => do .ok { d with role := some (← Decode.optional Role.decode v) }
  | "ids" => do .ok { d with ids := some (← Decode.optional (Decode.list Uuid.decode) v) }
  | _ => .ok d

def Draft.finish (d : Draft) (written : Decode.Written) : Decode.Result UserQuery := do
  let limit ← layout.perhaps "limit" written d.limit
  let role ← layout.perhaps "role" written d.role
  let ids ← layout.perhaps "ids" written d.ids
  .ok { limit, role, ids }

def decode : Json → Decode.Result UserQuery := layout.read {} Draft.set Draft.finish

/-- Whether a user holds the role and is among the ids that are asked for. -/
def selects (q : UserQuery) (u : User) : Bool :=
  (match q.role with
    | some role => u.roles.contains role
    | none => true) &&
  (match q.ids with
    | some ids => ids.contains u.id
    | none => true)

/-- The selected users in order, up to the limit. -/
def list (q : UserQuery) (users : List User) : List User :=
  let found := (users.filter q.selects).mergeSort User.before
  match q.limit with
  | some limit => found.take limit.toNat
  | none => found

end UserQuery

/-- The parameter of a path to a user. -/
structure UserPath where
  id : Uuid
  deriving DecidableEq, Repr

namespace UserPath

def layout : Decode.Layout := ⟨"UserPath", ["id"]⟩

def decode : Json → Decode.Result UserPath :=
  layout.read (none : Option Uuid)
    (fun found field v => if field = "id" then (Uuid.decode v).map some else .ok found)
    (fun found written => (layout.require "id" written found).map UserPath.mk)

end UserPath

end Conform
