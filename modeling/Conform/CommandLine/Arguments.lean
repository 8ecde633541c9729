import Conform.Channel
import Conform.Text.Blank

/-!
# Arguments

The words of a command line, read one after the other until one of them asks
for something else or may not stand where it stands.
-/

namespace Conform

namespace CommandLine

/-- Where the parts of a store come from. -/
structure Inputs where
  document : String
  metadata : Option String
  exclude : List String
  deriving DecidableEq, Repr

inductive Command where
  | check (inputs : Inputs)
  | validate (inputs : Inputs) (type : String) (channel : Channel) (value : String)
  deriving DecidableEq, Repr

/-- Why no command is carried out. -/
inductive Halt where
  | help
  | version
  /-- The arguments are wrong. -/
  | misuse
  deriving DecidableEq, Repr

inductive Subcommand where
  | check
  | validate
  deriving DecidableEq, Repr

/-- The options that take a value. -/
inductive Setting where
  | document
  | metadata
  | exclude
  | type
  | channel
  deriving DecidableEq, Repr

namespace Setting

def all : List Setting := [document, metadata, exclude, type, channel]

def long : Setting → String
  | document => "document"
  | metadata => "metadata"
  | exclude => "exclude"
  | type => "type"
  | channel => "channel"

def short : Setting → Char
  | document => 'd'
  | metadata => 'm'
  | exclude => 'x'
  | type => 't'
  | channel => 'c'

/-- Whether a subcommand knows the option. -/
def isKnown (s : Setting) : Subcommand → Bool
  | .check => s != type && s != channel
  | .validate => true

def ofLong? (sub : Subcommand) (name : List Char) : Option Setting :=
  all.find? fun s => s.isKnown sub && s.long.toList == name

def ofShort? (sub : Subcommand) (c : Char) : Option Setting :=
  all.find? fun s => s.isKnown sub && s.short == c

end Setting

/-- How a word of a command line is meant. -/
inductive Word where
  /-- All words after this one are plain. -/
  | terminator
  | long (name : List Char) (value : Option (List Char))
  | short (letters : List Char)
  | plain
  deriving DecidableEq, Repr

namespace Word

def ofText (text : String) : Word :=
  match text.toList with
  | ['-', '-'] => terminator
  | '-' :: '-' :: rest =>
    let (name, value) := Text.cutChars '=' rest
    long name value
  | '-' :: c :: rest => short (c :: rest)
  | _ => plain

end Word

/-- What a run of letters behind one hyphen comes to. -/
inductive Letters where
  | flags
  | halt (reason : Halt)
  /-- An option and the value that is attached to it. -/
  | setting (setting : Setting) (value : Option String)
  deriving DecidableEq, Repr

namespace Letters

/-- The value attached to an option's letter; an equals sign may stand before it. -/
def attached : List Char → Option String
  | [] => none
  | c :: rest => some (String.ofList (if c = '=' then rest else c :: rest))

/-- Read letters; the first that takes a value ends them. -/
def read (setting? : Char → Option Setting) (hasVersion : Bool) : List Char → Letters
  | [] => flags
  | c :: rest =>
    if c = 'v' then read setting? hasVersion rest
    else if c = 'h' then halt .help
    else if c = 'V' && hasVersion then halt .version
    else
      match setting? c with
      | some s => setting s (attached rest)
      | none => halt .misuse

end Letters

/-- What has been given so far. -/
structure Draft where
  document : Option String := none
  metadata : Option String := none
  exclude : List String := []
  type : Option String := none
  channel : Option Channel := none
  value : Option String := none

namespace Draft

/-- The name of a file; it comes once and is not empty. -/
def once (held : Option String) (path : String) : Except Halt (Option String) :=
  if held.isSome || path.isEmpty then .error .misuse else .ok (some path)

/-- An option with its value. -/
def set (d : Draft) (s : Setting) (value : String) : Except Halt Draft :=
  match s with
  | .document => do .ok { d with document := ← once d.document value }
  | .metadata => do .ok { d with metadata := ← once d.metadata value }
  | .exclude => .ok { d with exclude := d.exclude ++ [value] }
  | .type => if d.type.isSome then .error .misuse else .ok { d with type := some value }
  | .channel =>
    match d.channel, Channel.ofWord? value with
    | none, some c => .ok { d with channel := some c }
    | _, _ => .error .misuse

/-- A plain word: the file of the value to validate. -/
def add (d : Draft) (sub : Subcommand) (text : String) : Except Halt Draft :=
  match sub with
  | .check => .error .misuse
  | .validate => do .ok { d with value := ← once d.value text }

/-- The command that has been given; values arrive in the body where no channel is named. -/
def finish (d : Draft) (sub : Subcommand) : Except Halt Command :=
  match d.document with
  | none => .error .misuse
  | some document =>
    let inputs : Inputs := ⟨document, d.metadata, d.exclude⟩
    match sub, d.type, d.value with
    | .check, _, _ => .ok (.check inputs)
    | .validate, some type, some value =>
      .ok (.validate inputs type (d.channel.getD .body) value)
    | .validate, _, _ => .error .misuse

end Draft

/-- How far the words of a subcommand have been read. -/
structure Reading where
  draft : Draft := {}
  /-- The option whose value comes next. -/
  pending : Option Setting := none
  /-- Whether every word left is plain. -/
  plainOnly : Bool := false

namespace Reading

/-- An option, with its value or before it. -/
def setting (r : Reading) (s : Setting) (value : Option String) : Except Halt Reading :=
  match value with
  | some value => do .ok { r with draft := ← r.draft.set s value }
  | none => .ok { r with pending := some s }

def long (r : Reading) (sub : Subcommand) (name : List Char) (value : Option (List Char)) :
    Except Halt Reading :=
  match Setting.ofLong? sub name with
  | some s => r.setting s (value.map String.ofList)
  | none =>
    if value.isSome then .error .misuse
    else if name = "verbose".toList then .ok r
    else if name = "help".toList then .error .help
    else .error .misuse

def short (r : Reading) (sub : Subcommand) (letters : List Char) : Except Halt Reading :=
  match Letters.read (Setting.ofShort? sub) false letters with
  | .flags => .ok r
  | .halt reason => .error reason
  | .setting s value => r.setting s value

/-- One word. -/
def word (sub : Subcommand) (r : Reading) (text : String) : Except Halt Reading :=
  match r.pending, Word.ofText text with
  | some s, .plain => do .ok { r with draft := ← r.draft.set s text, pending := none }
  | some _, _ => .error .misuse
  | none, word =>
    if r.plainOnly then do .ok { r with draft := ← r.draft.add sub text }
    else
      match word with
      | .terminator => .ok { r with plainOnly := true }
      | .long name value => r.long sub name value
      | .short letters => r.short sub letters
      | .plain => do .ok { r with draft := ← r.draft.add sub text }

/-- The command, unless a value is still to come. -/
def finish (r : Reading) (sub : Subcommand) : Except Halt Command :=
  if r.pending.isSome then .error .misuse else r.draft.finish sub

end Reading

/-- The command of a subcommand's words. -/
def readSubcommand (sub : Subcommand) (words : List String) : Except Halt Command := do
  (← words.foldlM (Reading.word sub) {}).finish sub

/-- What is asked for behind the word `help`. -/
def readHelp : List String → Halt
  | [] | ["check"] | ["validate"] | ["help"] => .help
  | _ => .misuse

/-- The command that a command line gives. -/
def read : List String → Except Halt Command
  | [] => .error .misuse
  | text :: rest =>
    match Word.ofText text with
    | .plain =>
      match text with
      | "check" => readSubcommand .check rest
      | "validate" => readSubcommand .validate rest
      | "help" => .error (readHelp rest)
      | _ => .error .misuse
    | .long name none =>
      if name = "verbose".toList then read rest
      else if name = "help".toList then .error .help
      else if name = "version".toList then .error .version
      else .error .misuse
    | .short letters =>
      match Letters.read (fun _ => none) true letters with
      | .flags => read rest
      | .halt reason => .error reason
      | .setting _ _ => .error .misuse
    | _ => .error .misuse

end CommandLine

end Conform
