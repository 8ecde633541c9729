import Conform.Json.Basic

/-!
# The description of the service

The OpenAPI document of the users API. Where no other document is given, the
values of requests and replies are validated against it.
-/

namespace Conform

namespace Description

/-- A reference to a component. -/
def reference (name : String) : Json := .object [("$ref", .str ("#/components/schemas/" ++ name))]

/-- The members that give a kind. -/
def kind (name : String) : List (String × Json) := [("type", .str name)]

/-- The members that give a kind and its format. -/
def formatted (name format : String) : List (String × Json) :=
  kind name ++ [("format", .str format)]

def nullable : List (String × Json) := [("nullable", true)]

def described (text : String) : List (String × Json) := [("description", .str text)]

/-- The members of an array of items. -/
def listOf (items : Json) : List (String × Json) := kind "array" ++ [("items", items)]

/-- The members of an object with required properties. -/
def record (required : List String) (properties : List (String × Json)) : List (String × Json) :=
  kind "object" ++ [("properties", .object properties)] ++
    (if required.isEmpty then [] else [("required", .arr (required.map Json.str))])

/-- The members of a role that may be left out. -/
def optionalRole : List (String × Json) := nullable ++ [("allOf", .arr [reference "Role"])]

/-- The members of a list of ids that may be left out. -/
def optionalIds : List (String × Json) :=
  nullable ++ listOf (.object (formatted "string" "uuid"))

def role : Json :=
  .object (described "Role granted to a user." ++ kind "string" ++
    [("enum", .arr [.str "admin", .str "member", .str "guest"])])

def createUser : Json :=
  .object (described "Request to create a user." ++ record ["name", "email"] [
    ("name", .object (described "Display name." ++ kind "string" ++
      [("minLength", .ofNat 1), ("maxLength", .ofNat 64)])),
    ("email", .object (described "Contact address." ++ kind "string" ++
      [("pattern", .str "[^@\\s]+@[^@\\s]+")])),
    ("age", .object (nullable ++ formatted "integer" "int64" ++
      [("minimum", .ofNat 0), ("maximum", .ofNat 150)])),
    ("roles", .object (listOf (reference "Role"))),
    ("born_on", .object (described "Calendar date of birth." ++ nullable ++
      formatted "string" "date"))])

def userView : Json :=
  .object (described "A stored user." ++
    record ["id", "name", "email", "roles", "created_at"] [
      ("id", .object (formatted "string" "uuid")),
      ("name", .object (kind "string")),
      ("email", .object (kind "string")),
      ("age", .object (nullable ++ formatted "integer" "int64")),
      ("roles", .object (listOf (reference "Role"))),
      ("born_on", .object (nullable ++ formatted "string" "date")),
      ("created_at", .object (formatted "string" "date-time"))])

def userListQuery : Json :=
  .object (described "Query of `GET /v1/users`." ++ record [] [
    ("limit", .object (described "Maximum number of users returned." ++ nullable ++
      formatted "integer" "int64" ++ [("minimum", .ofNat 1), ("maximum", .ofNat 100)])),
    ("role", .object optionalRole),
    ("ids", .object (described
      "Only these users. A single `ids=` value is accepted as a list." ++ optionalIds))])

def userPath : Json :=
  .object (described "Path of `GET /v1/users/:id`." ++ record ["id"] [
    ("id", .object (formatted "string" "uuid"))])

def errorBody : Json :=
  .object (described "Structured JSON error response body." ++ record ["error"] [
    ("error", reference "ErrorDetail")])

def errorDetail : Json :=
  .object (described "Inner error detail." ++ record ["code", "message"] [
    ("code", .object (described
      "Machine-readable error code (e.g., \"VALIDATION_ERROR\", \"NOT_READY\")." ++
        kind "string")),
    ("message", .object (described "Human-readable error message." ++ kind "string")),
    ("details", .object (described
      "Violation report keyed by channel, present only for validation errors." ++ nullable))])

/-- The components left unvalidated: what a failed request is answered with. -/
def excluded : List String := ["ErrorBody", "ErrorDetail"]

def schemas : Json :=
  .object [
    ("Role", role),
    ("CreateUser", createUser),
    ("UserView", userView),
    ("UserListQuery", userListQuery),
    ("UserPath", userPath),
    ("ErrorBody", errorBody),
    ("ErrorDetail", errorDetail)]

/-- A JSON body with a schema. -/
def content (schema : Json) : String × Json :=
  ("content", .object [("application/json", .object [("schema", schema)])])

/-- A response under its status. -/
def response (status text : String) (schema : Json) : String × Json :=
  (status, .object (described text ++ [content schema]))

def invalid : String × Json := response "400" "Validation error" (reference "ErrorBody")

def parameter (name place text : String) (required : Bool) (schema : List (String × Json)) :
    Json :=
  .object (described text ++
    [("name", .str name), ("in", .str place), ("required", .bool required),
      ("schema", .object schema)])

def operation (id summary : String) (members responses : List (String × Json)) : Json :=
  .object ([("operationId", .str id), ("summary", .str summary),
    ("tags", .arr [.str "users"]), ("responses", .object responses)] ++ members)

def createOperation : Json :=
  operation "create_user" "POST /v1/users: Create a user."
    [("requestBody", .object [content (reference "CreateUser"), ("required", true)])]
    [response "201" "User created" (reference "UserView"), invalid]

def listOperation : Json :=
  operation "list_users" "GET /v1/users: List users."
    [("parameters", .arr [
      parameter "limit" "query" "Maximum number of users returned" false
        (nullable ++ formatted "integer" "int64"),
      parameter "role" "query" "Only users holding this role" false optionalRole,
      parameter "ids" "query" "Only these users" false optionalIds])]
    [response "200" "Matching users" (.object (listOf (reference "UserView"))), invalid]

def getOperation : Json :=
  operation "get_user" "GET /v1/users/:id: Get a user."
    [("parameters", .arr [
      parameter "id" "path" "User ID" true (formatted "string" "uuid")])]
    [response "200" "User found" (reference "UserView"), invalid,
      response "404" "User not found" (reference "ErrorBody")]

/-- The whole document. -/
def document : Json :=
  .object [
    ("openapi", .str "3.0.3"),
    ("info", .object (described ("Users API whose path, query, body and response values " ++
      "are validated against this document.") ++
      [("title", .str "openapi-gate demo API"), ("version", .str "0.1.0"),
        ("license", .object [("name", .str "MIT")])])),
    ("paths", .object [
      ("/v1/users", .object [("get", listOperation), ("post", createOperation)]),
      ("/v1/users/\x7bid\x7d", .object [("get", getOperation)])]),
    ("components", .object [("schemas", schemas)]),
    ("tags", .arr [.object (described "Users API" ++ [("name", .str "users")])])]

end Description

end Conform
