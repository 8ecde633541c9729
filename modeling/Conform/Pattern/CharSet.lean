import Conform.Text.Blank
import Conform.Unicode.Age
import Conform.Unicode.Break
import Conform.Unicode.CaseFold
import Conform.Unicode.Category
import Conform.Unicode.Property
import Conform.Unicode.Script

/-!
# Character sets

The sets that stand for one character in a pattern, built from ranges and
Unicode properties by union, intersection, complement and case folding. A class
in brackets keeps how deep it is nested, since that is limited.
-/

namespace Conform

namespace Pattern

inductive CharSet where
  | range (low high : Nat)
  | blank
  | category (c : Unicode.Category)
  | script (letter : Char)
  /-- The characters that are used in a script, their own or another one. -/
  | extension (letter : Char)
  /-- The characters that a version of Unicode has. -/
  | age (letter : Char)
  /-- The characters with a value that the boundaries of a text go by. -/
  | boundary (b : Unicode.Break) (letter : Char)
  /-- The characters with a binary property that goes by a name. -/
  | property (name : String)
  | union (a b : CharSet)
  | inter (a b : CharSet)
  | compl (a : CharSet)
  /-- Every character that differs in case only from one of the set. -/
  | folded (a : CharSet)
  /-- The same for ASCII letters alone. -/
  | asciiFolded (a : CharSet)
  /-- The same characters, written as a class with so many levels of nesting. -/
  | nested (levels : Nat) (a : CharSet)
  deriving DecidableEq, Repr

namespace CharSet

/-- Whether a character is in a set. -/
def mem : CharSet → Char → Bool
  | range low high, c => low ≤ c.toNat && c.toNat ≤ high
  | blank, c => Text.isBlank c
  | category k, c => Unicode.Category.ofChar c == k
  | script letter, c => Unicode.Script.holds letter c
  | extension letter, c => Unicode.Script.isUsed letter c
  | age letter, c => Unicode.Age.holds letter c
  | boundary b letter, c => b.holds letter c
  | property name, c =>
    match Unicode.Property.find? name with
    | some runs => Unicode.Property.holds runs c
    | none => false
  | union a b, c => a.mem c || b.mem c
  | inter a b, c => a.mem c && b.mem c
  | compl a, c => !a.mem c
  | folded a, c => a.mem c || (Unicode.CaseFold.variants c).any a.mem
  | asciiFolded a, c => a.mem c || (Unicode.CaseFold.asciiVariants c).any a.mem
  | nested _ a, c => a.mem c

def single (c : Char) : CharSet := range c.toNat c.toNat

def nothing : CharSet := range 1 0

def anything : CharSet := range 0 0x10FFFF

def ascii : CharSet := range 0 0x7F

def unionAll : List CharSet → CharSet
  | [] => nothing
  | [a] => a
  | a :: rest => union a (unionAll rest)

def ofRanges (ranges : List (Char × Char)) : CharSet :=
  unionAll (ranges.map fun (low, high) => range low.toNat high.toNat)

def minus (a b : CharSet) : CharSet := inter a (compl b)

def digit : CharSet := category .decimalNumber

/-- The characters that words are made of. -/
def word : CharSet :=
  unionAll [property "alphabetic", category .nonspacingMark, category .spacingMark,
    category .enclosingMark, category .decimalNumber, category .connector,
    property "joincontrol"]

def asciiDigit : CharSet := ofRanges [('0', '9')]

def asciiBlank : CharSet := unionAll [range 9 13, range 32 32]

def asciiWord : CharSet := ofRanges [('0', '9'), ('A', 'Z'), ('a', 'z'), ('_', '_')]

/-- Whether no byte beyond ASCII is in a set read as a set of bytes. -/
def isAscii (a : CharSet) : Bool :=
  (List.range 128).all fun n => !a.mem (Char.ofNat (128 + n))

/-- The levels of nesting that a class is written with. -/
def levels : CharSet → Nat
  | nested levels _ => levels
  | _ => 0

/-- The levels of nesting of a union; its members are one level below it if there are several. -/
def unionLevels : List CharSet → Nat
  | [] => 0
  | [a] => a.levels
  | a :: rest => rest.foldl (fun deepest b => max deepest b.levels) a.levels + 1

/-- A rough number of ranges, for the size of a pattern's program. -/
def ranges : CharSet → Nat
  | range _ _ => 1
  | blank => 10
  | category _ => 200
  | script _ => 30
  | extension _ => 30
  | age _ => 300
  | boundary _ _ => 300
  | property _ => 700
  | union a b => a.ranges + b.ranges
  | inter a b => a.ranges + b.ranges
  | compl a => a.ranges + 1
  | folded a => 2 * a.ranges
  | asciiFolded a => 2 * a.ranges
  | nested _ a => a.ranges

/-- The union of the categories that a name stands for; no character is a surrogate. -/
def ofCategoryName? (name : String) : Option CharSet :=
  let all (cs : List Unicode.Category) : Option CharSet := some (unionAll (cs.map category))
  match name with
  | "lu" | "uppercaseletter" => all [.upperLetter]
  | "ll" | "lowercaseletter" => all [.lowerLetter]
  | "lt" | "titlecaseletter" => all [.titleLetter]
  | "lc" | "casedletter" => all [.upperLetter, .lowerLetter, .titleLetter]
  | "lm" | "modifierletter" => all [.modifierLetter]
  | "lo" | "otherletter" => all [.otherLetter]
  | "l" | "letter" =>
    all [.upperLetter, .lowerLetter, .titleLetter, .modifierLetter, .otherLetter]
  | "mn" | "nonspacingmark" => all [.nonspacingMark]
  | "mc" | "spacingmark" => all [.spacingMark]
  | "me" | "enclosingmark" => all [.enclosingMark]
  | "m" | "mark" | "combiningmark" => all [.nonspacingMark, .spacingMark, .enclosingMark]
  | "nd" | "decimalnumber" | "digit" => all [.decimalNumber]
  | "nl" | "letternumber" => all [.letterNumber]
  | "no" | "othernumber" => all [.otherNumber]
  | "n" | "number" => all [.decimalNumber, .letterNumber, .otherNumber]
  | "pc" | "connectorpunctuation" => all [.connector]
  | "pd" | "dashpunctuation" => all [.dash]
  | "ps" | "openpunctuation" => all [.openPunctuation]
  | "pe" | "closepunctuation" => all [.closePunctuation]
  | "pi" | "initialpunctuation" => all [.initialQuote]
  | "pf" | "finalpunctuation" => all [.finalQuote]
  | "po" | "otherpunctuation" => all [.otherPunctuation]
  | "p" | "punctuation" | "punct" =>
    all [.connector, .dash, .openPunctuation, .closePunctuation, .initialQuote, .finalQuote,
      .otherPunctuation]
  | "sm" | "mathsymbol" => all [.mathSymbol]
  | "sc" | "currencysymbol" => all [.currencySymbol]
  | "sk" | "modifiersymbol" => all [.modifierSymbol]
  | "so" | "othersymbol" => all [.otherSymbol]
  | "s" | "symbol" => all [.mathSymbol, .currencySymbol, .modifierSymbol, .otherSymbol]
  | "zs" | "spaceseparator" => all [.space]
  | "zl" | "lineseparator" => all [.lineSeparator]
  | "zp" | "paragraphseparator" => all [.paragraphSeparator]
  | "z" | "separator" => all [.space, .lineSeparator, .paragraphSeparator]
  | "cc" | "control" | "cntrl" => all [.control]
  | "cf" | "format" => all [.format]
  | "co" | "privateuse" => all [.privateUse]
  | "cn" | "unassigned" => all [.unassigned]
  | "c" | "other" => all [.control, .format, .privateUse, .unassigned]
  | "any" => some anything
  | "ascii" => some ascii
  | "assigned" => some (compl (category .unassigned))
  | _ => none

def ofScriptName? (name : String) : Option CharSet :=
  (Unicode.Script.letter? name).map script

def ofPropertyName? (name : String) : Option CharSet :=
  (Unicode.Property.find? name).map fun _ => property name

/-- A property name in lower case, without separators and without a leading `is`. -/
def normalName (name : List Char) : String :=
  let lower := name.map Char.toLower
  let (rest, had) := match lower with
    | 'i' :: 's' :: rest => (rest, true)
    | _ => (lower, false)
  let kept := rest.filter fun c => c != ' ' && c != '_' && c != '-' && c.toNat < 128
  if had && kept == ['c'] then "isc" else String.ofList kept

/--
The set a property name stands for. Three short names are names of
categories first, all others are binary properties, categories, then scripts.
-/
def ofName? (name : List Char) : Option CharSet :=
  let name := normalName name
  let binary := if name = "cf" || name = "sc" || name = "lc" then none else ofPropertyName? name
  binary.or ((ofCategoryName? name).or (ofScriptName? name))

/-- The set of the characters for which a property has a value. -/
def ofValue? (property value : List Char) : Option CharSet :=
  let value := normalName value
  match normalName property with
  | "gc" | "generalcategory" => ofCategoryName? value
  | "sc" | "script" => ofScriptName? value
  | "scx" | "scriptextensions" => (Unicode.Script.letter? value).map extension
  | "age" => (Unicode.Age.letter? value).map age
  | "gcb" | "graphemeclusterbreak" =>
    (Unicode.Break.letter? .grapheme value).map (boundary .grapheme)
  | "wb" | "wordbreak" => (Unicode.Break.letter? .word value).map (boundary .word)
  | "sb" | "sentencebreak" => (Unicode.Break.letter? .sentence value).map (boundary .sentence)
  | _ => none

/-- The ASCII classes that are written between colons. -/
def ofAsciiName? (name : List Char) : Option CharSet :=
  match String.ofList name with
  | "alnum" => some (ofRanges [('0', '9'), ('A', 'Z'), ('a', 'z')])
  | "alpha" => some (ofRanges [('A', 'Z'), ('a', 'z')])
  | "ascii" => some ascii
  | "blank" => some (unionAll [range 9 9, range 32 32])
  | "cntrl" => some (unionAll [range 0 31, range 127 127])
  | "digit" => some asciiDigit
  | "graph" => some (range 33 126)
  | "lower" => some (ofRanges [('a', 'z')])
  | "print" => some (range 32 126)
  | "punct" => some (unionAll [range 33 47, range 58 64, range 91 96, range 123 126])
  | "space" => some asciiBlank
  | "upper" => some (ofRanges [('A', 'Z')])
  | "word" => some asciiWord
  | "xdigit" => some (ofRanges [('0', '9'), ('A', 'F'), ('a', 'f')])
  | _ => none

end CharSet

end Pattern

end Conform
