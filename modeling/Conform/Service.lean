import Conform.Admission
import Conform.Description
import Conform.Http.Route
import Conform.Json.Reader
import Conform.Query
import Conform.Users

/-!
# The service

Users are created, listed and shown over HTTP. Every path, query and body is
validated before a handler sees it, and every reply about users before it
leaves. Until the gate is ready such requests are refused.
-/

namespace Conform

structure Service where
  gate : Gate Session
  users : Records User

/-- What a request is given from outside: an id that is not in use, and the time. -/
structure Fresh where
  id : Uuid
  time : Moment

inductive Endpoint where
  | liveness
  | readiness
  | description
  | users
  | user
  deriving DecidableEq, Repr

namespace Endpoint

def all : List Endpoint := [liveness, readiness, description, users, user]

def route : Endpoint → String
  | liveness => "/health/liveness"
  | readiness => "/health/readiness"
  | description => "/openapi.json"
  | users => "/v1/users"
  | user => "/v1/users/:id"

/-- The endpoint of a path, and the parameters in the path. -/
def find? (path : String) : Option (Endpoint × List (String × List Char)) :=
  all.findSome? fun e => (Http.match? e.route path).map fun parameters => (e, parameters)

end Endpoint

namespace Http.Request

/-- How many bytes the body of a request may have to be read. -/
def bodyLimit : Nat := 2 * 1024 * 1024

/-- The value of a JSON body. What follows the value in the body does not matter. -/
def json (r : Http.Request) : Except Failure Json :=
  if !r.announcesJson then
    .error (.badRequest "Expected request with `Content-Type: application/json`")
  else if bodyLimit < r.body.size then
    .error (.badRequest "Failed to buffer the request body: length limit exceeded")
  else
    match Json.readFirst? r.body with
    | some v => .ok v
    | none => .error (.badRequest "Failed to parse the request body as JSON")

end Http.Request

namespace Service

/-- A service whose gate is not ready. -/
def cold : Service := ⟨.empty, .empty⟩

/-- A service that validates by a session. -/
def ofSession (session : Session) : Service := ⟨.ready session, .empty⟩

/-- Let the service validate by a session from now on, unless it has one. -/
def install (s : Service) (session : Session) : Bool × Service :=
  let (installed, gate) := s.gate.install session
  (installed, { s with gate })

/-- The decoded parameters of a path. -/
def pathObject (parameters : List (String × List Char)) : Except Failure Json := do
  let fields ← parameters.mapM fun (name, raw) =>
    match Utf8.decode? (Utf8.percentDecode (Utf8.encode raw)) with
    | some text => Except.ok (name, Json.str (String.ofList text))
    | none => .error (Failure.badRequest ("Invalid URL: Invalid UTF-8 in `" ++ name ++ "`"))
  .ok (.object fields)

/-- What comes of what has been received: a failure is answered at once. -/
def received {α : Type} (s : Service) (next : α → Service → Option Http.Reply × Service) :
    Option (Except Failure α) × Gate Session → Option Http.Reply × Service
  | (none, gate) => (none, { s with gate })
  | (some (.error failure), gate) => (some failure.reply, { s with gate })
  | (some (.ok a), gate) => next a { s with gate }

/-- Store a new user and show it. -/
def createUser (s : Service) (fresh : Fresh) (request : Http.Request) :
    Option Http.Reply × Service :=
  match request.json with
  | .error failure => (some failure.reply, s)
  | .ok v =>
    s.received (fun newUser s =>
        let user := User.create fresh.id fresh.time newUser
        (some (.json 201 user.toJson), { s with users := s.users.insert user.id user }))
      (s.gate.receive "CreateUser" NewUser.decode v .body)

/-- The users that a query asks for. -/
def listUsers (s : Service) (request : Http.Request) : Option Http.Reply × Service :=
  s.received (fun query s =>
      (some (.json 200 (.arr ((query.list s.users.values).map User.toJson))), s))
    (s.gate.receive "UserListQuery" UserQuery.decode (Query.read request.query) .query)

/-- The user that a path names. -/
def showUser (s : Service) (parameters : List (String × List Char)) :
    Option Http.Reply × Service :=
  match pathObject parameters with
  | .error failure => (some failure.reply, s)
  | .ok v =>
    s.received (fun path s =>
        match s.users.get? path.id with
        | some user => (some (.json 200 user.toJson), s)
        | none => (some (Failure.notFound ("user " ++ path.id.text)).reply, s))
      (s.gate.receive "UserPath" UserPath.decode v .path)

/-- The reply of an endpoint about users, not yet validated. -/
def aboutUsers (s : Service) (fresh : Fresh) (request : Http.Request) (endpoint : Endpoint)
    (parameters : List (String × List Char)) : Option Http.Reply × Service :=
  match endpoint with
  | .users =>
    if request.reads then s.listUsers request
    else if request.method = "POST" then s.createUser fresh request
    else (some (.bare 405), s)
  | .user => if request.reads then s.showUser parameters else (some (.bare 405), s)
  | _ => (some (.bare 404), s)

/--
What goes out of a handler behind the gate, and the service after it. The handler is run once
the gate is ready; a handler that does not come to an end has no reply, and what stands for the
service after it is of no account.
-/
def guarded (s : Service) (method route : String)
    (handler : Service → Option Http.Reply × Service) : Option Http.Reply × Service :=
  match s.gate.slot with
  | none => (some Failure.notReady.reply, s)
  | some _ =>
    match handler s with
    | (none, s) => (none, s)
    | (some reply, s) =>
      let (out, gate) := s.gate.release method (Http.template route) reply
      (out, { s with gate })

/-- The reply to a request that only reads, given the reply there is. -/
def readOnly (request : Http.Request) (reply : Http.Reply) : Http.Reply :=
  if request.reads then reply else .bare 405

/-- The reply of an endpoint. -/
def answer (s : Service) (fresh : Fresh) (request : Http.Request) (endpoint : Endpoint)
    (parameters : List (String × List Char)) : Option Http.Reply × Service :=
  match endpoint with
  | .liveness => (some (readOnly request (.text 200 "ok")), s)
  | .readiness =>
    let reply := if s.gate.isReady then .text 200 "ready" else .text 503 "not ready"
    (some (readOnly request reply), s)
  | .description => (some (readOnly request (.json 200 Description.document)), s)
  | .users | .user =>
    s.guarded request.method endpoint.route fun s => s.aboutUsers fresh request endpoint parameters

/-- The reply to a request, if validating comes to an end, and the service after it if it does. -/
def handle (s : Service) (fresh : Fresh) (request : Http.Request) :
    Option Http.Reply × Service :=
  match Endpoint.find? request.path with
  | none => (some (.bare 404), s)
  | some (endpoint, parameters) =>
    let (reply, s) := s.answer fresh request endpoint parameters
    (reply.map fun reply => if request.method = "HEAD" then reply.stripped else reply, s)

end Service

end Conform
