import Conform.Yaml.Scalar

/-!
# Tokens

A YAML text as tokens. Indentation shows as tokens of its own that open and
close block collections. That a scalar is a key shows only at the colon behind
it; then the tokens for the key and for its collection are put in before it.
-/

namespace Conform

namespace Yaml

inductive Token where
  | version
  | documentStart
  | documentEnd
  | openFlowList
  | closeFlowList
  | openFlowTable
  | closeFlowTable
  | comma
  | item
  | key
  | value
  | openBlockList
  | openBlockTable
  | closeBlock
  | link (name : String)
  | anchor (name : String)
  | tag (text : String)
  | scalar (text : String) (plain : Bool)
  deriving DecidableEq, Repr

/-- A place where a key may turn out to stand. -/
structure KeyPlace where
  /-- The number of tokens before it. -/
  tokens : Nat
  place : Place
  /-- Nothing but a key may stand there. -/
  required : Bool

structure Scanner where
  rest : Places
  /-- The tokens so far, last first. -/
  tokens : List Token := []
  /-- The column of the innermost block collection. -/
  indent : Int := -1
  /-- The columns of the block collections around it. -/
  outer : List Int := []
  /-- The key place of each collection in brackets, innermost first, and of the text around them. -/
  keys : List (Option KeyPlace) := [none]
  /-- Whether a key may start here. -/
  keyAllowed : Bool := true

namespace Scanner

/-- Whether the scanner stands inside brackets. -/
def inFlow (s : Scanner) : Bool := 1 < s.keys.length

def emit (s : Scanner) (t : Token) : Scanner := { s with tokens := t :: s.tokens }

def skip (s : Scanner) (count : Nat) : Scanner := { s with rest := s.rest.drop count }

/-- Put a token in behind so many tokens. -/
def insertAt (s : Scanner) (position : Nat) (t : Token) : Scanner :=
  let behind := s.tokens.length - position
  { s with tokens := s.tokens.take behind ++ t :: s.tokens.drop behind }

/-- Skip blanks, comments and line ends; a line end lets a key start again. -/
def skipToToken (flow : Bool) : Bool → Bool → Places → Bool × Places
  | _, keyAllowed, [] => (keyAllowed, [])
  | comment, keyAllowed, p :: rest =>
    if isBreak p.char then skipToToken flow false (keyAllowed || !flow) rest
    else if comment then skipToToken flow true keyAllowed rest
    else if p.char = ' ' || (p.char = '\t' && (flow || !keyAllowed)) then
      skipToToken flow false keyAllowed rest
    else if p.char = '#' then skipToToken flow true keyAllowed rest
    else (keyAllowed, p :: rest)

/-- A key ends on the line it starts, at most 1024 characters later. -/
def isStale (k : KeyPlace) (p : Place) : Bool :=
  k.place.line < p.line || k.place.index + 1024 < p.index

/-- Forget the keys that cannot be keys any more; one that has to be a key must not be forgotten. -/
def dropStaleKeys? (s : Scanner) : Option Scanner := do
  match s.rest with
  | [] => some s
  | p :: _ =>
    let keys ← s.keys.mapM fun k =>
      match k with
      | some key => if isStale key p then (if key.required then none else some none) else some k
      | none => some none
    some { s with keys }

/-- Forget the innermost key, unless it has to be one. -/
def dropKey? (s : Scanner) : Option Scanner :=
  match s.keys with
  | some key :: outer => if key.required then none else some { s with keys := none :: outer }
  | _ => some s

/-- Note that a key may start here. -/
def noteKey? (s : Scanner) : Option Scanner :=
  if s.keyAllowed then do
    let s ← s.dropKey?
    match s.rest, s.keys with
    | p :: _, _ :: outer =>
      let required := !s.inFlow && s.indent = p.column
      some { s with keys := some ⟨s.tokens.length, p, required⟩ :: outer }
    | _, _ => some s
  else some s

/-- Close the block collections that are indented further than a column. -/
def closeBlocks (s : Scanner) (column : Int) : Scanner :=
  if s.inFlow then s else go s.outer s
where
  go : List Int → Scanner → Scanner
    | [], s => s
    | indent :: outer, s =>
      if column < s.indent then go outer { s.emit .closeBlock with indent, outer } else s

/-- Open a block collection at a column, unless one is open there; its token goes behind so many tokens. -/
def openBlock (s : Scanner) (column : Nat) (position : Nat) (t : Token) : Scanner :=
  if !s.inFlow && s.indent < column then
    { s.insertAt position t with indent := column, outer := s.indent :: s.outer }
  else s

def column (s : Scanner) : Nat :=
  match s.rest with
  | p :: _ => p.column
  | [] => 0

/-- A mark that stands between documents. -/
def betweenDocuments? (s : Scanner) (t : Token) (count : Nat) : Option Scanner := do
  let s ← (s.closeBlocks (-1)).dropKey?
  some (({ s with keyAllowed := false }.emit t).skip count)

def openFlow? (s : Scanner) (t : Token) : Option Scanner := do
  let s ← s.noteKey?
  some (({ s with keys := none :: s.keys, keyAllowed := true }.emit t).skip 1)

def closeFlow? (s : Scanner) (t : Token) : Option Scanner := do
  let s ← s.dropKey?
  let keys := match s.keys with
    | _ :: outer :: more => outer :: more
    | keys => keys
  some (({ s with keys, keyAllowed := false }.emit t).skip 1)

def comma? (s : Scanner) : Option Scanner := do
  let s ← s.dropKey?
  some (({ s with keyAllowed := true }.emit .comma).skip 1)

def item? (s : Scanner) : Option Scanner :=
  if s.inFlow || s.keyAllowed then do
    let s ← (s.openBlock s.column s.tokens.length .openBlockList).dropKey?
    some (({ s with keyAllowed := true }.emit .item).skip 1)
  else none

def explicitKey? (s : Scanner) : Option Scanner :=
  if s.inFlow || s.keyAllowed then do
    let s ← (s.openBlock s.column s.tokens.length .openBlockTable).dropKey?
    some (({ s with keyAllowed := !s.inFlow }.emit .key).skip 1)
  else none

def value? (s : Scanner) : Option Scanner :=
  match s.keys with
  | some key :: outer =>
    let s := (s.insertAt key.tokens .key).openBlock key.place.column key.tokens .openBlockTable
    some (({ s with keys := none :: outer, keyAllowed := false }.emit .value).skip 1)
  | _ =>
    if s.inFlow || s.keyAllowed then
      let s := s.openBlock s.column s.tokens.length .openBlockTable
      some (({ s with keyAllowed := !s.inFlow }.emit .value).skip 1)
    else none

/-- A token that may be the start of a key, with what is left behind it. -/
def content? (s : Scanner) (t : Token) (rest : Places) : Option Scanner := do
  let s ← s.noteKey?
  some { s.emit t with rest, keyAllowed := false }

def isNameChar (c : Char) : Bool := c.isAlphanum || c = '_' || c = '-'

/-- An anchor or alias, from its mark on. -/
def name? (s : Scanner) (t : String → Token) : Option Scanner :=
  let (name, rest) := Places.span isNameChar (s.rest.drop 1)
  let ended := Places.isOpenAt 0 rest ||
    match rest with
    | p :: _ => "?:,]\x7d%@`".toList.contains p.char
    | [] => true
  if name.isEmpty || !ended then none else s.content? (t (String.ofList name)) rest

/-- What the tags of the core schema begin with. -/
def coreTag : String := "tag:yaml.org,2002:"

/-- A tag, from its mark on: a core tag behind two marks, any other in angles or as it stands. -/
def tag? (s : Scanner) : Option Scanner :=
  let ends (c : Char) : Bool := isBlank c || isBreak c || (s.inFlow && c = ',')
  let (chars, rest) := Places.span (!ends ·) (s.rest.drop 1)
  match chars with
  | '!' :: suffix => s.content? (.tag (coreTag ++ String.ofList suffix)) rest
  | '<' :: inner =>
    if inner.getLast? = some '>' then s.content? (.tag (String.ofList inner.dropLast)) rest
    else none
  | _ => s.content? (.tag (String.ofList ('!' :: chars))) rest

def blockScalar? (s : Scanner) (literal : Bool) : Option Scanner := do
  let s ← s.dropKey?
  let (text, rest) ← readBlock? literal s.indent (s.rest.drop 1)
  some { s.emit (.scalar text false) with rest, keyAllowed := true }

def plain? (s : Scanner) : Option Scanner := do
  let s ← s.noteKey?
  let plain ← readPlain? s.inFlow (s.indent + 1) {} s.rest
  some { s.emit (.scalar plain.text true) with rest := plain.rest, keyAllowed := plain.endsLine }

/-- The directive that names the version of the format. -/
def version? (s : Scanner) : Option Scanner :=
  let (line, _) := Places.span (fun c => !isBreak c && c != '#') s.rest
  let words := (line.splitBy fun a b => isBlank a == isBlank b).filter fun word => !word.any isBlank
  if words == ["%YAML".toList, "1.1".toList] || words == ["%YAML".toList, "1.2".toList] then
    s.betweenDocuments? .version line.length
  else none

/-- Characters that cannot start a plain scalar. -/
def isIndicator (c : Char) : Bool := "-?:,[]\x7b\x7d#&*!|>'\"%@`".toList.contains c

/-- Whether a plain scalar starts here, where no other token does. -/
def startsPlain (s : Scanner) (c : Char) : Bool :=
  !isBlank c &&
    (!isIndicator c || c = '-' ||
      (!s.inFlow && (c = '?' || c = ':') && !Places.isOpenAt 1 s.rest))

/-- Read the token that starts here. -/
def token? (s : Scanner) (p : Place) : Option Scanner :=
  let alone := Places.isOpenAt 1 s.rest
  let c := p.char
  if p.column = 0 && c = '%' then s.version?
  else if Places.marks '-' s.rest then s.betweenDocuments? .documentStart 3
  else if Places.marks '.' s.rest then s.betweenDocuments? .documentEnd 3
  else if c = '[' then s.openFlow? .openFlowList
  else if c = '\x7b' then s.openFlow? .openFlowTable
  else if c = ']' then s.closeFlow? .closeFlowList
  else if c = '\x7d' then s.closeFlow? .closeFlowTable
  else if c = ',' then s.comma?
  else if c = '-' && alone then s.item?
  else if c = '?' && (s.inFlow || alone) then s.explicitKey?
  else if c = ':' && (s.inFlow || alone) then s.value?
  else if c = '*' then s.name? .link
  else if c = '&' then s.name? .anchor
  else if c = '!' then s.tag?
  else if c = '|' && !s.inFlow then s.blockScalar? true
  else if c = '>' && !s.inFlow then s.blockScalar? false
  else if c = '\'' then do
    let (text, rest) ← readSingle? {} (s.rest.drop 1)
    s.content? (.scalar text false) rest
  else if c = '"' then do
    let (text, rest) ← readDouble? (s.rest.length + 1) {} (s.rest.drop 1)
    s.content? (.scalar text false) rest
  else if s.startsPlain c then s.plain?
  else none

/-- Read all tokens, in at most so many steps. -/
def run? : Nat → Scanner → Option (List Token)
  | 0, _ => none
  | steps + 1, s => do
    let (keyAllowed, rest) := skipToToken s.inFlow false s.keyAllowed s.rest
    let s ← { s with keyAllowed, rest }.dropStaleKeys?
    match rest with
    | [] => some ((← (s.closeBlocks (-1)).dropKey?).tokens.reverse)
    | p :: _ => run? steps (← (s.closeBlocks p.column).token? p)

end Scanner

/-- The tokens of a text. -/
def tokens? (ps : Places) : Option (List Token) :=
  Scanner.run? (ps.length + 1) { rest := ps }

end Yaml

end Conform
