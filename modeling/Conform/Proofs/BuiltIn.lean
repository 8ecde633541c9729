import Conform.Proofs.Descent
import Conform.Proofs.Fresh
import Conform.Service
import Conform.Startup

/-!
# The types of the description

What the types of the built-in document compile to, computed once. No type of
the document is nullable itself, so every session of it forgets its past and
answers by these validators; no type hands its value on to another one, so it
always answers.
-/

namespace Conform

namespace Description

/-- The store of the description alone. -/
@[irreducible] def store : Store :=
  (Startup.loadStore (fun path => .error path) ⟨0, none, none, []⟩).toOption.getD .empty

/-- Without files to read, the description is loaded whatever else is configured. -/
theorem loadStore_eq (files : ReadFile) (port : Nat) :
    Startup.loadStore files ⟨port, none, none, []⟩ = .ok store := by
  have hsame : Startup.loadStore files ⟨port, none, none, []⟩ =
      Startup.loadStore (fun path => .error path) ⟨0, none, none, []⟩ := rfl
  have hloads : (Startup.loadStore (fun path => .error path)
      ⟨0, none, none, []⟩).toOption.isSome = true := by
    decide +kernel
  rw [hsame]
  unfold store
  cases h : Startup.loadStore (fun path => .error path) ⟨0, none, none, []⟩ with
  | ok loaded => rfl
  | error e =>
    rw [h] at hloads
    cases hloads

def roleName : TypeName := ⟨"Role", by decide⟩

def newUserName : TypeName := ⟨"CreateUser", by decide⟩

def userName : TypeName := ⟨"UserView", by decide⟩

theorem userQuery_valid : "UserListQuery" ≠ "" ∧
    "UserListQuery".toList.all (fun c => c != '/' && !Text.isBlank c) = true := by
  decide

def userQueryName : TypeName := ⟨"UserListQuery", userQuery_valid⟩

def userPathName : TypeName := ⟨"UserPath", by decide⟩

def errorName : TypeName := ⟨"ErrorBody", by decide⟩

def roleValidator : Validator := ⟨true, false, .enum (Role.all.map Role.name)⟩

/-- Whole numbers that may be left out. -/
def optionalInteger (minimum maximum : Option Double) : Validator :=
  ⟨false, true, .number ⟨true, minimum, maximum⟩⟩

/-- Texts of a format, or of any form. -/
def anyText (format : Option Format) : Validator :=
  ⟨true, false, .string ⟨format, none, none, none⟩⟩

def optionalDate : Validator := ⟨false, true, .string ⟨some .date, none, none, none⟩⟩

def roles (required : Bool) : Validator :=
  ⟨required, false, .array ⟨true, false, .named roleName⟩ none none⟩

def addressSource : String := "[^@\\s]+@[^@\\s]+"

/-- The pattern of an address: something on each side of an at sign. -/
def addressPattern : Pattern.Expr := (Pattern.readWhole? addressSource).getD .empty

def newUserFields : List (String × Validator) :=
  [("age", optionalInteger (some (.ofInt 0)) (some (.ofInt 150))),
    ("born_on", optionalDate),
    ("email", ⟨true, false, .string ⟨none, none, none, some (addressSource, addressPattern)⟩⟩),
    ("name", ⟨true, false, .string ⟨none, some 1, some 64, none⟩⟩),
    ("roles", roles false)]

def userFields : List (String × Validator) :=
  [("age", optionalInteger none none),
    ("born_on", optionalDate),
    ("created_at", anyText (some .dateTime)),
    ("email", anyText none),
    ("id", anyText (some .uuid)),
    ("name", anyText none),
    ("roles", roles true)]

def userPathFields : List (String × Validator) := [("id", anyText (some .uuid))]

/-- What a type compiles to on its own, and what it leaves for roles. -/
def alone (name : TypeName) : Option (Validator × Option Validator) :=
  (store.compileNamed Cache.empty name).toOption.map fun (v, c) => (v, c.get? roleName)

theorem alone_types :
    alone newUserName = some (⟨true, false, .object newUserFields⟩, some roleValidator) ∧
    alone userName = some (⟨true, false, .object userFields⟩, some roleValidator) ∧
    alone userPathName = some (⟨true, false, .object userPathFields⟩, none) ∧
    alone errorName = some (Store.acceptAll errorName, none) := by
  decide +kernel

/-- The type compiles on an empty cache to the validator, and leaves the cache. -/
def Compiles (name : TypeName) (v : Validator) (c : Cache) : Prop :=
  store.compileNamed Cache.empty name = .ok (v, c)

theorem exists_compiles {name : TypeName} {v : Validator} {role : Option Validator}
    (h : alone name = some (v, role)) : ∃ c, Compiles name v c ∧ c.get? roleName = role := by
  unfold alone at h
  cases hcompiled : store.compileNamed Cache.empty name with
  | ok last =>
    rw [hcompiled] at h
    cases h
    exact ⟨last.2, hcompiled, rfl⟩
  | error e =>
    rw [hcompiled] at h
    cases h

theorem aliasesShowNull : store.AliasesShowNull := by
  have hnames : (store.document.names.all fun name => !store.ownNullable name) = true := by
    decide +kernel
  intro name target nullable _ _ _ _ hown
  cases hdefined : store.definition? target with
  | none =>
    unfold Store.ownNullable at hown
    rw [Store.lower_eq_unknown hdefined] at hown
    cases hown
  | some d =>
    have hmem : target ∈ store.document.names :=
      Table.mem_keys_iff.mpr (Table.contains_of_get? hdefined)
    have hplain := List.all_eq_true.mp hnames target hmem
    rw [hown] at hplain
    cases hplain

/-- Whether no type that a new session compiles for the target hands on its value. -/
def isFlat (target : Target) (channel : Channel) : Bool :=
  ((Session.ofStore store).validatorFor target (Session.locationOf channel)).2.cache.isFlat

theorem requests_flat : isFlat (.named newUserName) .body = true ∧
    isFlat (.named userQueryName) .query = true ∧ isFlat (.named userPathName) .path = true := by
  decide +kernel

theorem responses_flat :
    (store.document.operations.targets.all fun entry => isFlat entry.2 .response) = true := by
  decide +kernel

/-- Whether a response is declared as a named type. -/
def isDeclaredAs (method template : String) (status : Nat) (name : TypeName) : Bool :=
  match store.document.operations.responseTarget? method template status with
  | some (.named declared) => declared == name
  | _ => false

theorem responseTarget?_of_isDeclaredAs {method template : String} {status : Nat}
    {name : TypeName} (h : isDeclaredAs method template status name = true) :
    store.document.operations.responseTarget? method template status = some (.named name) := by
  unfold isDeclaredAs at h
  split at h
  · next declared heq => rw [heq, beq_iff_eq.mp h]
  · cases h

/-- The responses about one user. -/
theorem declared_responses :
    isDeclaredAs "POST" (Http.template Endpoint.users.route) 201 userName = true ∧
    isDeclaredAs "GET" (Http.template Endpoint.user.route) 200 userName = true ∧
    isDeclaredAs "GET" (Http.template Endpoint.user.route) 404 errorName = true := by
  decide +kernel

end Description

namespace Session

variable {s : Session}

/-- The session has come from a new one of the description. -/
def IsDescribed (s : Session) : Prop := (ofStore Description.store).Advances s

theorem isDescribed_of_loaded {files : ReadFile} {port : Nat}
    (h : Startup.loadSession files ⟨port, none, none, []⟩ = .ok s) : s.IsDescribed := by
  have hwarm : Startup.warmSession Description.store = .ok s := by
    unfold Startup.loadSession at h
    rw [Description.loadStore_eq] at h
    exact h
  have hadvances := perform_advances (ofStore Description.store) .warmUp
  unfold Startup.warmSession at hwarm
  split at hwarm
  · next t heq =>
    cases hwarm
    change (ofStore Description.store).Advances ((ofStore Description.store).warmUp).2 at hadvances
    rw [heq] at hadvances
    exact hadvances
  · cases hwarm

theorem IsDescribed.validate (h : s.IsDescribed) (value : Json) (target : Target)
    (channel : Channel) : (s.validate value target channel).2.IsDescribed :=
  h.trans (validate_advances s value target channel)

/-- The past of the session does not matter to what it answers. -/
theorem IsDescribed.forgets (h : s.IsDescribed) (value : Json) (target : Target)
    (channel : Channel) : (s.validate value target channel).1 =
      ((ofStore Description.store).validate value target channel).1 := by
  have hliteral := h.updates.literal Description.aliasesShowNull
    (Cache.Literal.empty Description.store)
  exact validate_forgets Description.aliasesShowNull h.store hliteral value target channel

/-- It answers by what the type compiles to on its own. -/
theorem IsDescribed.verdict (h : s.IsDescribed) {name : TypeName} {v : Validator} {c : Cache}
    (hcompiles : Description.Compiles name v c) (value : Json) (channel : Channel) :
    (s.validate value (.named name) channel).1 =
      Verdict.ofOutcome channel name.text (c.outcome? v channel.stringEncoded value) := by
  rw [h.forgets, validate_ofStore]
  have hfresh : Description.store.compileTarget Cache.empty (.named name) (locationOf channel) =
      .ok (v, c) := hcompiles
  rw [hfresh]
  rfl

theorem IsDescribed.ends (h : s.IsDescribed) {target : Target} {channel : Channel}
    (hflat : Description.isFlat target channel = true) (value : Json) :
    (s.validate value target channel).1 ≠ .endless := by
  rw [h.forgets]
  exact (descends_of_flat hflat).ends value

/-- Validating a body by any declared response ends. -/
theorem IsDescribed.response_ends (h : s.IsDescribed) {method template : String} {status : Nat}
    {target : Target}
    (hdeclared : s.store.document.operations.responseTarget? method template status = some target)
    (value : Json) : (s.validate value target .response).1 ≠ .endless := by
  have hstore : s.store = Description.store := h.store
  rw [hstore] at hdeclared
  obtain ⟨label, hmem⟩ := Operations.responseTarget?_listed hdeclared
  exact h.ends (List.all_eq_true.mp Description.responses_flat _ hmem) value

end Session

end Conform
