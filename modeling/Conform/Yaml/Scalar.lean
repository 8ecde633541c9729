import Conform.Text.Digit
import Conform.Yaml.Place

/-!
# Scalar texts

The text of a plain, quoted or block scalar. In plain and quoted scalars a
single line end becomes a space, and of several all but the first are kept.
-/

namespace Conform

namespace Yaml

/-- The line ends met between two characters of a scalar: the first, and all later ones. -/
structure Gap where
  first : List Char
  later : List Char

/-- The text of a scalar so far, last character first, and the blanks and line ends behind it. -/
structure Folding where
  text : List Char := []
  blanks : List Char := []
  gap : Option Gap := none

namespace Folding

/-- Whether anything stands behind the text. -/
def pending (f : Folding) : Bool := !f.blanks.isEmpty || f.gap.isSome

/-- A blank counts unless a line ends before it. -/
def blank (f : Folding) (c : Char) : Folding :=
  if f.gap.isSome then f else { f with blanks := c :: f.blanks }

def lineEnd (f : Folding) (c : Char) : Folding :=
  match f.gap with
  | none => { f with blanks := [], gap := some ⟨[c], []⟩ }
  | some g => { f with gap := some { g with later := g.later ++ [c] } }

/-- A line end that is escaped counts for nothing. -/
def escapedLineEnd (f : Folding) : Folding := { f with gap := some ⟨[], []⟩ }

/-- The text with what stands behind it, folded, last character first. -/
def joined (f : Folding) : List Char :=
  match f.gap with
  | none => f.blanks ++ f.text
  | some g =>
    if g.first = ['\n'] then
      (if g.later.isEmpty then [' '] else g.later.reverse) ++ f.text
    else g.later.reverse ++ g.first.reverse ++ f.text

def put (f : Folding) (c : Char) : Folding := { text := c :: f.joined }

/-- The text, less what stands behind it. -/
def trimmed (f : Folding) : String := String.ofList f.text.reverse

end Folding

/-- What a plain scalar is read into: its text, whether it ends behind a line end, and the rest. -/
structure Plain where
  text : String
  endsLine : Bool
  rest : Places

/-- Characters that end a plain scalar inside brackets. -/
def isFlowMark (c : Char) : Bool :=
  c = ',' || c = '[' || c = ']' || c = '\x7b' || c = '\x7d'

/-- Whether a colon here cannot stand: inside brackets, right before a mark. -/
def isStrayColon (flow : Bool) (ps : Places) : Bool :=
  flow && Places.hasAt 0 ':' ps &&
    match ps[1]? with
    | some p => isFlowMark p.char || p.char = '?'
    | none => false

/-- Whether a plain scalar ends before a character that is not blank. -/
def endsPlain (flow : Bool) (ps : Places) : Bool :=
  (Places.hasAt 0 ':' ps && Places.isOpenAt 1 ps) ||
    match ps with
    | p :: _ => flow && isFlowMark p.char
    | [] => true

/-- Whether a plain scalar ends before the first character behind blanks. -/
def endsChunk (flow : Bool) (indent : Int) (ps : Places) : Bool :=
  Places.atDocumentMark ps || Places.hasAt 0 '#' ps ||
    match ps with
    | p :: _ => !flow && p.column < indent
    | [] => true

/-- Read a plain scalar; inside brackets, or with lines that are indented as far as given. -/
def readPlain? (flow : Bool) (indent : Int) : Folding → Places → Option Plain
  | f, [] => some ⟨f.trimmed, f.gap.isSome, []⟩
  | f, p :: rest =>
    if isBlank p.char then
      if f.gap.isSome && p.column < indent && p.char = '\t' then none
      else readPlain? flow indent (f.blank p.char) rest
    else if isBreak p.char then readPlain? flow indent (f.lineEnd p.char) rest
    else if f.pending && endsChunk flow indent (p :: rest) then
      some ⟨f.trimmed, f.gap.isSome, p :: rest⟩
    else if isStrayColon flow (p :: rest) then none
    else if endsPlain flow (p :: rest) then some ⟨f.trimmed, f.gap.isSome, p :: rest⟩
    else readPlain? flow indent (f.put p.char) rest

/-- Read a scalar in single quotes, from behind the first of them. -/
def readSingle? : Folding → Places → Option (String × Places)
  | _, [] => none
  | f, p :: rest =>
    if Places.atDocumentMark (p :: rest) then none
    else if p.char = '\'' then
      match rest with
      | q :: rest =>
        if q.char = '\'' then readSingle? (f.put '\'') rest
        else some (String.ofList f.joined.reverse, q :: rest)
      | [] => some (String.ofList f.joined.reverse, [])
    else if isBlank p.char then readSingle? (f.blank p.char) rest
    else if isBreak p.char then readSingle? (f.lineEnd p.char) rest
    else readSingle? (f.put p.char) rest

/-- The character a short escape stands for. -/
def shortEscape? (c : Char) : Option Char :=
  match c with
  | '0' => some (Char.ofNat 0)
  | 'a' => some (Char.ofNat 7)
  | 'b' => some (Char.ofNat 8)
  | 't' | '\t' => some '\t'
  | 'n' => some '\n'
  | 'v' => some (Char.ofNat 11)
  | 'f' => some (Char.ofNat 12)
  | 'r' => some '\r'
  | 'e' => some (Char.ofNat 27)
  | ' ' => some ' '
  | '"' => some '"'
  | '/' => some '/'
  | '\\' => some '\\'
  | 'N' => some (Char.ofNat 0x85)
  | '_' => some (Char.ofNat 0xA0)
  | 'L' => some (Char.ofNat 0x2028)
  | 'P' => some (Char.ofNat 0x2029)
  | _ => none

/-- How many hexadecimal digits follow the letter of a numeric escape. -/
def escapeDigits? (c : Char) : Option Nat :=
  match c with
  | 'x' => some 2
  | 'u' => some 4
  | 'U' => some 8
  | _ => none

/-- The character behind a backslash, and what follows it. -/
def readEscape? (ps : Places) : Option (Char × Places) := do
  match ps with
  | [] => none
  | p :: rest =>
    match escapeDigits? p.char with
    | none => some (← shortEscape? p.char, rest)
    | some count =>
      let digits := (rest.take count).map Place.char
      let n ← Text.number? 16 digits
      if digits.length = count && (n < 0xD800 || (0xE000 ≤ n && n < 0x110000)) then
        some (Char.ofNat n, rest.drop count)
      else none

/-- Read a scalar in double quotes, from behind the first of them, in at most so many steps. -/
def readDouble? : Nat → Folding → Places → Option (String × Places)
  | 0, _, _ => none
  | _, _, [] => none
  | steps + 1, f, p :: rest =>
    if Places.atDocumentMark (p :: rest) then none
    else if p.char = '"' then some (String.ofList f.joined.reverse, rest)
    else if p.char = '\\' then
      match rest with
      | q :: after =>
        if isBreak q.char then readDouble? steps ({ text := f.joined : Folding }.escapedLineEnd) after
        else do
          let (c, rest) ← readEscape? rest
          readDouble? steps (f.put c) rest
      | [] => none
    else if isBlank p.char then readDouble? steps (f.blank p.char) rest
    else if isBreak p.char then readDouble? steps (f.lineEnd p.char) rest
    else readDouble? steps (f.put p.char) rest

/-- What becomes of the line ends behind a block scalar. -/
inductive Chomping where
  | clip
  | strip
  | keep
  deriving DecidableEq, Repr

/-- The marks of a block scalar: what happens at its end, and how far it is indented. -/
structure BlockHeader where
  chomping : Chomping := .clip
  indent : Option Nat := none

namespace BlockHeader

/-- Read the marks in either order, each at most once. -/
def read? (h : BlockHeader) (ps : Places) : Option (BlockHeader × Places) :=
  match ps with
  | [] => some (h, ps)
  | p :: rest =>
    let chomping := if p.char = '+' then some Chomping.keep
      else if p.char = '-' then some Chomping.strip else none
    match chomping with
    | some c => if h.chomping = .clip then read? { h with chomping := c } rest else some (h, ps)
    | none =>
      if p.char.isDigit && h.indent.isNone then
        if p.char = '0' then none
        else read? { h with indent := some (p.char.toNat - '0'.toNat) } rest
      else some (h, ps)

end BlockHeader

/-- The empty lines before a line of a block scalar, its place, and the widest indentation seen. -/
structure EmptyLines where
  breaks : List Char
  widest : Nat
  rest : Places

/-- Skip indentation and empty lines; with no indentation given, all spaces are skipped. -/
def skipEmptyLines? (indent : Option Nat) : List Char → Nat → Places → Option EmptyLines
  | breaks, widest, [] => some ⟨breaks, widest, []⟩
  | breaks, widest, p :: rest =>
    let inside := match indent with
      | none => true
      | some n => p.column < n
    if inside && p.char = ' ' then skipEmptyLines? indent breaks (max widest (p.column + 1)) rest
    else if inside && p.char = '\t' then none
    else if isBreak p.char then skipEmptyLines? indent (breaks ++ [p.char]) widest rest
    else some ⟨breaks, widest, p :: rest⟩

/-- The lines of a block scalar so far. -/
structure Block where
  /-- The text, last character first, up to the end of its last line. -/
  text : List Char := []
  lineEnd : List Char := []
  /-- Whether the last line starts with a blank. -/
  blank : Bool := false

namespace Block

/-- The text, the end of its last line and some empty lines, as they stand before one more line. -/
def joined (b : Block) (literal blank : Bool) (breaks : List Char) : List Char :=
  if !literal && b.lineEnd = ['\n'] && !b.blank && !blank then
    breaks.reverse ++ (if breaks.isEmpty then [' '] else []) ++ b.text
  else breaks.reverse ++ b.lineEnd ++ b.text

/-- The text with the line ends at its end. -/
def chomped (b : Block) (chomping : Chomping) (breaks : List Char) : String :=
  let ends := match chomping with
    | .strip => []
    | .clip => b.lineEnd
    | .keep => b.lineEnd ++ breaks
  String.ofList (b.text.reverse ++ ends)

end Block

/-- Read the lines of a block scalar behind some empty lines, in at most so many steps. -/
def readBlockLines? (literal : Bool) (chomping : Chomping) (indent : Nat) :
    Nat → Block → EmptyLines → Option (String × Places)
  | 0, _, _ => none
  | steps + 1, b, e =>
    match e.rest with
    | [] => some (b.chomped chomping e.breaks, [])
    | p :: _ =>
      if p.column = indent then
        let blank := isBlank p.char
        let (line, rest) := Places.span (fun c => !isBreak c) e.rest
        let lineEnd := (rest.take 1).map Place.char
        let text := line.reverse ++ b.joined literal blank e.breaks
        match skipEmptyLines? (some indent) [] 0 (rest.drop 1) with
        | some next => readBlockLines? literal chomping indent steps ⟨text, lineEnd, blank⟩ next
        | none => none
      else some (b.chomped chomping e.breaks, e.rest)

/-- Read a block scalar inside a collection of some indentation, from behind its first mark. -/
def readBlock? (literal : Bool) (parent : Int) (ps : Places) : Option (String × Places) := do
  let (header, ps) ← BlockHeader.read? {} ps
  let ps := ps.dropWhile fun p => isBlank p.char
  let ps := if Places.hasAt 0 '#' ps then Places.dropLine ps else ps
  if !Places.isOpenAt 0 ps then none
  else
    let body := ps.drop 1
    let given := header.indent.map fun n => (max parent 0).toNat + n
    let e ← skipEmptyLines? given [] 0 body
    let indent := given.getD (max (max e.widest (parent + 1).toNat) 1)
    readBlockLines? literal header.chomping indent (body.length + 1) {} e

end Yaml

end Conform
