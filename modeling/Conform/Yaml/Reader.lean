import Conform.Json.Reader
import Conform.Yaml.Node

/-!
# Reading YAML texts

A tree becomes a value. Plain scalars are typed by the core schema: null,
booleans, integers in four bases, floats, and strings for all the rest. Keys
are the texts of scalars, and of repeated keys the last wins.
-/

namespace Conform

namespace Yaml

/-- Whether a number is written with needless zeros in front; such a text is a string. -/
def hasLeadingZeros (cs : List Char) : Bool :=
  match (Numeral.takeSign cs).2 with
  | '0' :: rest => !rest.isEmpty && rest.all Char.isDigit
  | _ => false

/-- The base that a mark behind a zero announces. -/
def base? (c : Char) : Option Nat :=
  match c with
  | 'x' => some 16
  | 'o' => some 8
  | 'b' => some 2
  | _ => none

/-- The number that digits spell; there must be one. -/
def natural? (base : Nat) (digits : List Char) : Option Nat :=
  if digits.isEmpty then none else Text.number? base digits

/-- The number behind a sign: in another base behind its mark, else in decimal digits. -/
def magnitude? (cs : List Char) : Option Nat :=
  match cs with
  | '0' :: mark :: digits =>
    match base? mark with
    | some base => natural? base digits
    | none => if hasLeadingZeros cs then none else natural? 10 cs
  | _ => natural? 10 cs

/-- The integer that a plain scalar writes. -/
def integer? (cs : List Char) : Option Int :=
  let (sign, rest) := Numeral.takeSign cs
  (magnitude? rest).map fun n => if sign = some '-' then -(n : Int) else n

/-- Integers beyond the range of numbers up to these bounds are refused; beyond them they are no integers. -/
def inWideRange (n : Int) : Bool := -(twoTo 127 : Int) ≤ n && n < twoTo 128

/-- The value of a float or a string. -/
def floatOrText (text : String) : Json :=
  let cs := text.toList
  let (sign, rest) := Numeral.takeSign cs
  let word := String.ofList rest
  if [".inf", ".Inf", ".INF"].contains word then .null
  else if sign.isNone && [".nan", ".NaN", ".NAN"].contains word then .null
  else if hasLeadingZeros cs then .str text
  else
    match (Numeral.read? cs).bind Numeral.toDouble? with
    | some x => .num (.float x)
    | none => .str text

/-- The value of an integer, if it is one of a number. -/
def ofInteger? (n : Int) : Option Json :=
  if -(twoTo 63 : Int) ≤ n && n < twoTo 64 then some (.num (.int n)) else none

def boolean? (text : String) : Option Bool :=
  if ["true", "True", "TRUE"].contains text then some true
  else if ["false", "False", "FALSE"].contains text then some false
  else none

def isNull (text : String) : Bool := ["null", "Null", "NULL", "~"].contains text

/-- The value of a plain scalar. -/
def plainValue? (text : String) : Option Json :=
  if text = "" || isNull text then some .null
  else
    match boolean? text with
    | some b => some (.bool b)
    | none =>
      match integer? text.toList with
      | some n => if inWideRange n then ofInteger? n else some (floatOrText text)
      | none => some (floatOrText text)

/-- The value of a scalar under a tag of the core schema; other tags leave it a string. -/
def taggedValue? (tag text : String) : Option Json :=
  if tag = Scanner.coreTag ++ "bool" then (boolean? text).map .bool
  else if tag = Scanner.coreTag ++ "int" then (integer? text.toList).bind ofInteger?
  else if tag = Scanner.coreTag ++ "float" then
    match floatOrText text with
    | .str _ => none
    | v => some v
  else if tag = Scanner.coreTag ++ "null" then
    if isNull text then some .null else none
  else if tag.startsWith "!" then none
  else some (.str text)

/-- Whether a tag is the text's own, for which no value is known. -/
def isLocalTag (tag : Option String) : Bool :=
  match tag with
  | some t => t.startsWith "!"
  | none => false

namespace Node

/-- The text of a key. -/
def keyText? : Node → Option String
  | scalar text _ _ => some text
  | link target _ => keyText? target
  | list _ _ | table _ _ => none

mutual

/-- The value of a node. -/
def value? : Node → Option Json
  | scalar text _ (some tag) => taggedValue? tag text
  | scalar text plain none => if plain then plainValue? text else some (.str text)
  | list items tag => if isLocalTag tag then none else do some (.arr (← valueList? items))
  | table entries tag =>
    if isLocalTag tag then none else do some (.object (← valueTable? entries))
  | link target _ => target.value?

def valueList? : List Node → Option (List Json)
  | [] => some []
  | n :: rest => do
    let v ← n.value?
    some (v :: (← valueList? rest))

def valueTable? : List (Node × Node) → Option (List (String × Json))
  | [] => some []
  | (key, n) :: rest => do
    let text ← key.keyText?
    let v ← n.value?
    some ((text, v) :: (← valueTable? rest))

end

end Node

/-- Values nested deeper are refused. -/
def depthLimit : Nat := 128

/-- The value that a text stands for. Aliases must not multiply its size beyond all bounds. -/
def read? (text : String) : Option Json := do
  let node ← Node.ofTokens? (← tokens? (← Places.ofText? text))
  if 100 * node.size < node.jumps then none
  else
    let v ← node.value?
    if v.depth ≤ depthLimit then some v else none

end Yaml

end Conform
