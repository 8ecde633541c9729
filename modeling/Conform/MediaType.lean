import Conform.Text.Blank

/-!
# Media types

Which media types stand for JSON. Where documents and replies name a type,
only the part before the parameters counts; a request has to carry one that is
well-formed as a whole.
-/

namespace Conform

namespace MediaType

/-- Whether a named type, its parameters aside, is JSON or ends in `+json`. -/
def saysJson (media : String) : Bool :=
  let essence := Text.trimChars (Text.cutChars ';' media.toList).1
  essence == "application/json".toList || "+json".toList.isSuffixOf essence

/-- Whether a character may stand in a word of a media type. -/
def isTokenChar (c : Char) : Bool :=
  c.isAlphanum || "!#$%&'+-.^_`|~".toList.contains c

/-- Whether a character may stand between the quotes of a parameter. -/
def isQuotedChar (c : Char) : Bool := 32 ≤ c.toNat && c.toNat != 127

/-- Where a reading of parameters stands. -/
inductive Parameters where
  /-- Before a parameter. -/
  | fresh
  | name
  /-- Behind an equals sign. -/
  | value
  | bare
  /-- Behind the opening quote; a quote that stands here is a character of the value. -/
  | opened
  | quoted
  /-- Behind the closing quote. -/
  | closed
  | failed
  deriving DecidableEq

namespace Parameters

def step (p : Parameters) (c : Char) : Parameters :=
  match p with
  | fresh => if c = ' ' then fresh else if isTokenChar c then name else failed
  | name => if c = '=' then value else if isTokenChar c then name else failed
  | value => if c = '"' then opened else if isTokenChar c then bare else failed
  | bare => if c = ';' then fresh else if isTokenChar c then bare else failed
  | opened => if isQuotedChar c then quoted else failed
  | quoted => if c = '"' then closed else if isQuotedChar c then quoted else failed
  | closed => if c = ';' then fresh else if c = ' ' then closed else failed
  | failed => failed

/-- Whether the parameters may end here. -/
def isFinal : Parameters → Bool
  | fresh | value | bare | closed => true
  | _ => false

/-- Whether the text behind the first semicolon is a list of parameters. -/
def areValid (cs : List Char) : Bool := (cs.foldl step fresh).isFinal

end Parameters

end MediaType

/-- A media type in lower case: the main type, the subtype and what follows its last plus sign. -/
structure MediaType where
  main : String
  sub : String
  suffix : Option String
  deriving DecidableEq, Repr

namespace MediaType

/-- A subtype cut at its last plus sign, unless that sign comes first. -/
def cutSuffix (cs : List Char) : List Char × Option (List Char) :=
  let reversed := cs.reverse
  match reversed.dropWhile (· != '+') with
  | _ :: b :: rest => ((b :: rest).reverse, some (reversed.takeWhile (· != '+')).reverse)
  | _ => (cs, none)

/-- The media type that a text writes. -/
def read? (text : String) : Option MediaType :=
  let (essence, parameters) := Text.cutChars ';' text.toList
  match Text.cutChars '/' essence with
  | (main, some sub) =>
    if main.isEmpty || sub.isEmpty || !main.all isTokenChar || !sub.all isTokenChar ||
        !Parameters.areValid (parameters.getD []) then none
    else
      let (sub, suffix) := cutSuffix sub
      let lower (cs : List Char) := Text.lowerAscii (String.ofList cs)
      some ⟨lower main, lower sub, suffix.map lower⟩
  | (_, none) => none

/-- Whether a request body of this type is JSON. -/
def isJson (m : MediaType) : Bool :=
  m.main == "application" && (m.sub == "json" || m.suffix == some "json")

end MediaType

end Conform
