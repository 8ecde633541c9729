import Conform.Description
import Conform.Session
import Conform.Source

/-!
# Startup

The configuration of the service, and the session that it describes. Either
every type and every operation compiles, or there is no session.
-/

namespace Conform

/-- The text of a file, or why it cannot be read. -/
abbrev ReadFile := String → Except String String

namespace SourceFormat

/-- The value tree in a file. -/
def load (files : ReadFile) (path : String) : Except DocumentError Json :=
  match files path with
  | .error reason => .error (.unreadable path reason)
  | .ok text => (ofPath path).read text path

end SourceFormat

/-- The document in a file. -/
def Document.load (files : ReadFile) (path : String) : Except DocumentError Document := do
  Document.ofJson (← SourceFormat.load files path)

/-- The field table in a file. -/
def FieldTable.load (files : ReadFile) (path : String) : Except DocumentError FieldTable := do
  FieldTable.ofJson (← SourceFormat.load files path)

structure Config where
  port : Nat
  /-- The file of the schema document; none for the description of the service. -/
  document : Option String
  /-- The file of the field table. -/
  metadata : Option String
  exclude : List String
  deriving DecidableEq, Repr

namespace Config

def defaultPort : Nat := 8080

/-- A port number: digits, perhaps behind a plus sign. -/
def readPort? (text : String) : Option Nat := do
  let digits := match text.toList with
    | '+' :: rest => rest
    | cs => cs
  if digits.isEmpty then none
  else
    let n ← Text.number? 10 digits
    if n < twoTo 16 then some n else none

/-- The names in a list with commas. -/
def readNames (text : String) : List String :=
  ((Text.split ',' text).map Text.trim).filter fun name => !name.isEmpty

/-- The configuration in an environment. -/
def ofEnvironment (lookup : String → Option String) : Config :=
  let path (name : String) := (lookup name).filter fun value => !(Text.trim value).isEmpty
  { port := ((lookup "PORT").bind readPort?).getD defaultPort
    document := path "GATE_SCHEMA_DOCUMENT"
    metadata := path "GATE_FIELD_METADATA"
    exclude := ((lookup "GATE_EXCLUDE").map readNames).getD [] }

end Config

/-- Why there is no session to start with. -/
inductive StartupError where
  | document (error : DocumentError)
  | badExclusion (name : String) (error : NameError)
  | uncompiled (error : CompileError)

namespace StartupError

def message : StartupError → String
  | document error => error.message
  | badExclusion name error => "invalid exclusion '" ++ name ++ "': " ++ error.message
  | uncompiled error => "schema warm-up failed: " ++ error.message

end StartupError

namespace Startup

/-- Exclude names in order, up to the first that is no type name. -/
def excludeAll (exclusions : Exclusions) (names : List String) :
    Except StartupError Exclusions :=
  names.foldlM (fun exclusions name =>
    match TypeName.ofText name with
    | .ok typeName => .ok (exclusions.register typeName)
    | .error e => .error (.badExclusion name e)) exclusions

/-- The document of a configuration, and the names excluded along with it. -/
def loadDocument (files : ReadFile) (config : Config) :
    Except StartupError (Document × Exclusions) :=
  match config.document with
  | some path => do
    .ok (← (Document.load files path).mapError .document, Exclusions.empty)
  | none => do
    let exclusions ← excludeAll Exclusions.empty Description.excluded
    .ok (← (Document.ofJson Description.document).mapError .document, exclusions)

/-- The store that a configuration describes. -/
def loadStore (files : ReadFile) (config : Config) : Except StartupError Store := do
  let (document, exclusions) ← loadDocument files config
  let fields ← match config.metadata with
    | some path => (FieldTable.load files path).mapError .document
    | none => .ok FieldTable.empty
  .ok { document, fields, exclusions := ← excludeAll exclusions config.exclude }

/-- The session of a store once everything in it is compiled. -/
def warmSession (store : Store) : Except StartupError Session :=
  match (Session.ofStore store).warmUp with
  | (.ok _, session) => .ok session
  | (.error e, _) => .error (.uncompiled e)

/-- The session that the service starts with. -/
def loadSession (files : ReadFile) (config : Config) : Except StartupError Session := do
  warmSession (← loadStore files config)

end Startup

end Conform
