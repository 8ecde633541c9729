import Conform.Channel
import Conform.FieldPath
import Conform.Decode
import Conform.Json.Printer

/-!
# Violation reports

Every failing place of one validated value: its path, a fixed code, what was
expected, what was found, and a sentence. A report reads back from its JSON
form, and prints as one line an issue.
-/

namespace Conform

/-- Why a place fails. -/
inductive Reason where
  | required
  | invalidType
  | notInteger
  | invalidDate
  | invalidFormat
  | invalidEnumValue
  | tooSmall
  | tooBig
  | tooShort
  | tooLong
  | patternMismatch
  | tooFewItems
  | tooManyItems
  | noMatchingBranch
  | unresolvedType
  deriving DecidableEq, Repr

namespace Reason

def all : List Reason :=
  [required, invalidType, notInteger, invalidDate, invalidFormat, invalidEnumValue, tooSmall,
    tooBig, tooShort, tooLong, patternMismatch, tooFewItems, tooManyItems, noMatchingBranch,
    unresolvedType]

def code : Reason → String
  | required => "required"
  | invalidType => "invalid_type"
  | notInteger => "not_integer"
  | invalidDate => "invalid_date"
  | invalidFormat => "invalid_format"
  | invalidEnumValue => "invalid_enum_value"
  | tooSmall => "too_small"
  | tooBig => "too_big"
  | tooShort => "too_short"
  | tooLong => "too_long"
  | patternMismatch => "pattern_mismatch"
  | tooFewItems => "too_few_items"
  | tooManyItems => "too_many_items"
  | noMatchingBranch => "no_matching_branch"
  | unresolvedType => "unresolved_type"

/-- The reason with a code. -/
def decode : Json → Decode.Result Reason :=
  Decode.variant (all.map fun r => (r.code, r))

end Reason

/-- The text of a found value: strings bare, a missing value as `undefined`. -/
def received : Option Json → String
  | none => "undefined"
  | some (.str s) => s
  | some v => v.compact

/-- One failing place. -/
structure Issue where
  path : FieldPath
  code : Reason
  expected : String
  received : String
  message : String
  deriving DecidableEq, Repr

namespace Issue

/-- A value of another kind than expected, or none. -/
def mismatch (path : FieldPath) (code : Reason) (expected : String) (found : Option Json) :
    Issue :=
  { path, code, expected, received := Conform.received found,
    message := "expected " ++ expected ++ ", received " ++ Conform.received found }

/-- A value of the expected kind that breaks a constraint. -/
def broken (path : FieldPath) (code : Reason) (expected : String) (found : Json)
    (message : String) : Issue :=
  { path, code, expected, received := Conform.received (some found), message }

/-- The line of an issue in a printed report. -/
def text (i : Issue) : String :=
  "  " ++ i.path.text ++ ": " ++ i.message ++ " (" ++ i.code.code ++ ")"

end Issue

/-- All failing places of one value on one channel. -/
structure Report where
  channel : Channel
  target : String
  issues : List Issue
  deriving DecidableEq, Repr

namespace Report

/-- The codes in report order. -/
def codes (r : Report) : List Reason := r.issues.map Issue.code

/-- Whether an issue with a code stands at a place given in dotted form. -/
def has (r : Report) (path : String) (code : Reason) : Bool :=
  r.issues.any fun i => i.code == code && i.path.text == path

/-- The printed report. -/
def text (r : Report) : String :=
  r.channel.name ++ " validation failed for " ++ r.target ++ ":" ++
    String.join (r.issues.map fun i => "\n" ++ i.text)

end Report

namespace Segment

def toJson : Segment → Json
  | index position => .ofNat position
  | key name => .str name

def decode : Json → Decode.Result Segment
  | .str name => .ok (key name)
  | .num (.int n) =>
    if 0 ≤ n then .ok (index n.toNat) else .error (.noAlternative "PathSegment")
  | _ => .error (.noAlternative "PathSegment")

end Segment

namespace FieldPath

def toJson (p : FieldPath) : Json := .arr (p.segments.map Segment.toJson)

def decode (v : Json) : Decode.Result FieldPath :=
  (Decode.list Segment.decode v).map FieldPath.mk

end FieldPath

namespace Channel

def decode : Json → Decode.Result Channel :=
  Decode.variant (all.map fun c => (c.name, c))

end Channel

namespace Issue

def toJson (i : Issue) : Json :=
  .object [
    ("path", i.path.toJson),
    ("code", .str i.code.code),
    ("expected", .str i.expected),
    ("received", .str i.received),
    ("message", .str i.message)]

def layout : Decode.Layout := ⟨"Issue", ["path", "code", "expected", "received", "message"]⟩

/-- The fields of an issue found so far. -/
structure Draft where
  path : Option FieldPath := none
  code : Option Reason := none
  expected : Option String := none
  received : Option String := none
  message : Option String := none

def Draft.set (d : Draft) (name : String) (v : Json) : Decode.Result Draft :=
  match name with
  | "path" => do .ok { d with path := some (← FieldPath.decode v) }
  | "code" => do .ok { d with code := some (← Reason.decode v) }
  | "expected" => do .ok { d with expected := some (← Decode.text v) }
  | "received" => do .ok { d with received := some (← Decode.text v) }
  | "message" => do .ok { d with message := some (← Decode.text v) }
  | _ => .ok d

def Draft.finish (d : Draft) (w : Decode.Written) : Decode.Result Issue := do
  let path ← layout.require "path" w d.path
  let code ← layout.require "code" w d.code
  let expected ← layout.require "expected" w d.expected
  let received ← layout.require "received" w d.received
  let message ← layout.require "message" w d.message
  .ok { path, code, expected, received, message }

def decode : Json → Decode.Result Issue := layout.read {} Draft.set Draft.finish

end Issue

namespace Report

def toJson (r : Report) : Json :=
  .object [
    ("channel", .str r.channel.name),
    ("target", .str r.target),
    ("issues", .arr (r.issues.map Issue.toJson))]

def layout : Decode.Layout := ⟨"ViolationReport", ["channel", "target", "issues"]⟩

/-- The fields of a report found so far. -/
structure Draft where
  channel : Option Channel := none
  target : Option String := none
  issues : Option (List Issue) := none

def Draft.set (d : Draft) (name : String) (v : Json) : Decode.Result Draft :=
  match name with
  | "channel" => do .ok { d with channel := some (← Channel.decode v) }
  | "target" => do .ok { d with target := some (← Decode.text v) }
  | "issues" => do .ok { d with issues := some (← Decode.list Issue.decode v) }
  | _ => .ok d

def Draft.finish (d : Draft) (w : Decode.Written) : Decode.Result Report := do
  let channel ← layout.require "channel" w d.channel
  let target ← layout.require "target" w d.target
  let issues ← layout.require "issues" w d.issues
  .ok { channel, target, issues }

def decode : Json → Decode.Result Report := layout.read {} Draft.set Draft.finish

end Report

end Conform
