import Conform.Failure
import Conform.Gate
import Conform.Json.Reader
import Conform.Session

/-!
# Admission and release

What reaches a handler and what leaves it. A value of a request is admitted
once it is validated and read as the record that the handler asks for. A JSON
reply is released once its body is validated as the response that the
document declares.
-/

namespace Conform

namespace Verdict

/-- The coerced value, or the failure to answer with. Where checking does not end there is neither. -/
def result? : Verdict → Option (Except Failure Json)
  | accepted v => some (.ok v)
  | rejected report => some (.error (.ofReport report))
  | uncompiled error => some (.error (.ofCompileError error))
  | endless => none

end Verdict

namespace Session

/-- Validate a value as a named type. There is no result where that does not end. -/
def validateAs (s : Session) (type : String) (v : Json) (channel : Channel) :
    Option (Except Failure Json) × Session :=
  match TypeName.ofText type with
  | .error e => (some (.error (.internal e.message)), s)
  | .ok name =>
    let (verdict, s) := s.validate v (.named name) channel
    (verdict.result?, s)

/-- Read a validated value as a record. -/
def readAs {α : Type} (type : String) (decode : Json → Decode.Result α) (channel : Channel)
    (v : Json) : Except Failure α :=
  match decode v with
  | .ok a => .ok a
  | .error e =>
    .error (.badRequest (channel.name ++ " does not match " ++ type ++ ": " ++ e.message))

/-- What the body of a reply has to conform to: its response is declared, and it is JSON. -/
def releaseTarget? (s : Session) (method template : String) (reply : Http.Reply) :
    Option Target :=
  match s.store.document.operations.responseTarget? method template reply.status with
  | some target => if reply.carriesJson then some target else none
  | none => none

/-- How many bytes the body of a reply may have to be validated. -/
def releaseLimit : Nat := 16 * 1024 * 1024

/--
The reply with its body coerced; a body that is not valid is not let out. Where validating the
body does not end, nothing goes out at all.
-/
def release (s : Session) (method template : String) (reply : Http.Reply) :
    Option Http.Reply × Session :=
  match s.releaseTarget? method template reply with
  | none => (some reply, s)
  | some target =>
    if releaseLimit < reply.body.size then
      (some (Failure.internal "buffering response body: length limit exceeded").reply, s)
    else if reply.body.isEmpty then (some reply, s)
    else
      match Json.readBytes? reply.body with
      | none => (some (Failure.internal "handler produced invalid JSON").reply, s)
      | some v =>
        let (verdict, s) := s.validate v target .response
        match verdict.result? with
        | some (.ok w) => (some (reply.withValue w), s)
        | some (.error failure) => (some failure.reply, s)
        | none => (none, s)

end Session

namespace Gate

/-- Validate a value as a named type, and read it as a record. -/
def receive {α : Type} (g : Gate Session) (type : String) (decode : Json → Decode.Result α)
    (v : Json) (channel : Channel) : Option (Except Failure α) × Gate Session :=
  match g.slot with
  | none => (some (.error .notReady), g)
  | some session =>
    let (result, session) := session.validateAs type v channel
    (result.map fun checked => checked.bind (Session.readAs type decode channel), .ready session)

/-- What goes out in place of a reply, if anything does. -/
def release (g : Gate Session) (method template : String) (reply : Http.Reply) :
    Option Http.Reply × Gate Session :=
  match g.slot with
  | none => (some Failure.notReady.reply, g)
  | some session =>
    let (reply, session) := session.release method template reply
    (reply, .ready session)

end Gate

end Conform
