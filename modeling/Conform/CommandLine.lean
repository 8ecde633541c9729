import Conform.CommandLine.Arguments
import Conform.Session
import Conform.Startup

/-!
# The command line

Check that everything in a document compiles, or validate the value in a file
as one of its types.
-/

namespace Conform

namespace DocumentError

/-- The sentence for a failure, with the sentences for its causes. -/
def chain (e : DocumentError) : String :=
  match e with
  | unreadable _ reason => e.message ++ ": " ++ reason
  | wrongStructure _ error => e.message ++ ": " ++ error.message
  | _ => e.message

end DocumentError

namespace CommandLine

/-- Why a command cannot be carried out. -/
inductive CommandError where
  | document (path : String) (error : DocumentError)
  | metadata (path : String) (error : DocumentError)
  | badExclusion (name : String) (error : NameError)
  | badType (name : String) (error : NameError)
  | unreadable (path reason : String)
  | badValue (error : DocumentError)

namespace CommandError

def message : CommandError → String
  | document path error => "loading schema document " ++ path ++ ": " ++ error.chain
  | metadata path error => "loading field metadata " ++ path ++ ": " ++ error.chain
  | badExclusion name error => "--exclude " ++ name ++ ": " ++ error.message
  | badType name error => "--type " ++ name ++ ": " ++ error.message
  | unreadable path reason => "reading " ++ path ++ ": " ++ reason
  | badValue error => error.chain

end CommandError

/-- The exit code of a command and what it prints. -/
structure Output where
  exit : Nat
  stdout : String
  error : Option String
  deriving DecidableEq, Repr

namespace Output

/-- A command that was carried out. -/
def printed (exit : Nat) (line : String) : Output := ⟨exit, line ++ "\n", none⟩

/-- A command that could not be carried out. -/
def failed (e : CommandError) : Output := ⟨2, "", some e.message⟩

end Output

/-- A name of the command line as a type name. -/
def readName (refuse : String → NameError → CommandError) (name : String) :
    Except CommandError TypeName :=
  match TypeName.ofText name with
  | .ok typeName => .ok typeName
  | .error e => .error (refuse name e)

namespace Inputs

/-- The store of the given files and names. -/
def loadStore (files : ReadFile) (inputs : Inputs) : Except CommandError Store := do
  let document ← (Document.load files inputs.document).mapError (.document inputs.document)
  let fields ← match inputs.metadata with
    | some path => (FieldTable.load files path).mapError (.metadata path)
    | none => .ok FieldTable.empty
  let names ← inputs.exclude.mapM (readName .badExclusion)
  .ok { document, fields, exclusions := Exclusions.empty.registerAll names }

end Inputs

/-- Whether everything in a store compiles. -/
def checkStore (store : Store) : Output :=
  match (Session.ofStore store).warmUp with
  | (.ok compiled, _) =>
    .printed 0 ("Types: " ++ toString compiled ++ " compiled, " ++
      toString store.exclusions.size ++ " excluded; operations: " ++
      toString store.document.operations.size)
  | (.error e, _) => .printed 1 ("FAIL: " ++ e.message)

def runCheck (files : ReadFile) (inputs : Inputs) : Except CommandError Output := do
  .ok (checkStore (← inputs.loadStore files))

/-- The verdict on a value as it is printed. Nothing is where checking does not end. -/
def showVerdict? : Verdict → Option Output
  | .accepted v => some (.printed 0 (v.pretty ""))
  | .rejected report => some (.printed 1 report.text)
  | .uncompiled e => some (.printed 1 ("FAIL: " ++ e.message))
  | .endless => none

/-- The value in a file. -/
def loadValue (files : ReadFile) (path : String) : Except CommandError Json :=
  match files path with
  | .error reason => .error (.unreadable path reason)
  | .ok text => ((SourceFormat.ofPath path).read text path).mapError .badValue

def runValidate (files : ReadFile) (inputs : Inputs) (type : String) (channel : Channel)
    (path : String) : Except CommandError (Option Output) := do
  let store ← inputs.loadStore files
  let name ← readName .badType type
  let v ← loadValue files path
  .ok (showVerdict? ((Session.ofStore store).validate v (.named name) channel).1)

namespace Command

/-- Carry out a command over some files. A command that does not come to an end has no output. -/
def run (files : ReadFile) (c : Command) : Option Output :=
  let result := match c with
    | check inputs => (runCheck files inputs).map some
    | validate inputs type channel path => runValidate files inputs type channel path
  match result with
  | .ok output => output
  | .error e => some (.failed e)

/-- The files that a command may read. -/
def paths : Command → List String
  | check inputs => inputs.document :: inputs.metadata.toList
  | validate inputs _ _ path => inputs.document :: inputs.metadata.toList ++ [path]

end Command

def version : String := "gate 0.1.0\n"

def usage : String :=
  "Usage: gate [-v] check -d FILE [-m FILE] [-x TYPE]...\n" ++
    "       gate [-v] validate -d FILE [-m FILE] [-x TYPE]... -t TYPE [-c CHANNEL] FILE\n"

namespace Halt

/-- What is printed where no command is carried out. -/
def output : Halt → Output
  | help => ⟨0, usage, none⟩
  | version => ⟨0, CommandLine.version, none⟩
  | misuse => ⟨2, "", none⟩

end Halt

/-- What a command line prints over some files. -/
def run (files : ReadFile) (words : List String) : Option Output :=
  match read words with
  | .ok command => command.run files
  | .error halt => some halt.output

end CommandLine

end Conform
