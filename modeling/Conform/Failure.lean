import Conform.Http.Message
import Conform.Lowering
import Conform.Report

/-!
# Failures of requests

Why a request is not answered as asked, and the reply that says so. The reason
of an internal failure is kept from the caller.
-/

namespace Conform

inductive Failure where
  /-- A value of the request breaks its schema. -/
  | rejected (report : Report)
  /-- No session is installed yet. -/
  | notReady
  | badRequest (reason : String)
  | notFound (what : String)
  | internal (reason : String)

namespace Failure

def status : Failure → Nat
  | rejected _ | badRequest _ => 400
  | notReady => 503
  | notFound _ => 404
  | internal _ => 500

def code : Failure → String
  | rejected _ => "VALIDATION_ERROR"
  | notReady => "NOT_READY"
  | badRequest _ => "BAD_REQUEST"
  | notFound _ => "NOT_FOUND"
  | internal _ => "INTERNAL_ERROR"

/-- The sentence for the log. -/
def message : Failure → String
  | rejected report => report.channel.name ++ " validation failed"
  | notReady => "schema validation is not ready"
  | badRequest reason => "bad request: " ++ reason
  | notFound what => "not found: " ++ what
  | internal reason => "internal error: " ++ reason

/-- The sentence for the caller. -/
def publicMessage : Failure → String
  | internal _ => "An internal error occurred"
  | failure => failure.message

/-- What is told besides the sentence: the report, under the name of its channel. -/
def details : Failure → List (String × Json)
  | rejected report => [("details", .object [(report.channel.name, report.toJson)])]
  | _ => []

/-- The body of the reply. -/
def body (f : Failure) : Json :=
  .object [("error", .object
    ([("code", .str f.code), ("message", .str f.publicMessage)] ++ f.details))]

def reply (f : Failure) : Http.Reply := .json f.status f.body

/-- A value that breaks its schema: the fault of the caller, unless it is a response. -/
def ofReport (report : Report) : Failure :=
  if report.channel = .response then .internal report.text else .rejected report

/-- A target that does not compile. -/
def ofCompileError (error : CompileError) : Failure :=
  .internal ("validator compilation failed: " ++ error.message)

end Failure

end Conform
