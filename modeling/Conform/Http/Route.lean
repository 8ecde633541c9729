import Conform.Text.Blank

/-!
# Routes

A route is a path whose segments may end in a parameter, `:name` for one
segment or `*name` for all that is left. Documents write parameters in braces.
-/

namespace Conform

namespace Http

/-- A segment of a route as documents write it. -/
def templateSegment : List Char → List Char
  | c :: name => if c = ':' || c = '*' then '\x7b' :: (name ++ ['\x7d']) else c :: name
  | [] => []

/-- A route as documents write it. -/
def template (route : String) : String :=
  String.ofList
    (['/'].intercalate ((Text.splitChars '/' route.toList).map templateSegment))

/-- What a segment of a route asks for. -/
inductive Piece where
  | literal (text : List Char)
  /-- A text and at least one more character. -/
  | parameter (start name : List Char)
  /-- At least one character, separators included; the last piece of a route. -/
  | remainder (name : List Char)
  deriving DecidableEq, Repr

namespace Piece

/-- The piece that a segment of a route writes. -/
def ofSegment (segment : List Char) : Piece :=
  match segment with
  | '*' :: name => remainder name
  | _ =>
    match Text.cutChars ':' segment with
    | (start, some name) => parameter start name
    | (text, none) => literal text

/-- The parameters that segments of a path give to pieces, if they fit. -/
def match? : List Piece → List (List Char) → Option (List (String × List Char))
  | [], [] => some []
  | literal text :: pieces, segment :: rest => if segment = text then match? pieces rest else none
  | parameter start name :: pieces, segment :: rest =>
    if start.isPrefixOf segment && start.length < segment.length then
      (match? pieces rest).map ((String.ofList name, segment.drop start.length) :: ·)
    else none
  | [remainder name], segment :: rest =>
    let text := ['/'].intercalate (segment :: rest)
    if text.isEmpty then none else some [(String.ofList name, text)]
  | _, _ => none

end Piece

/-- The parameters of a path that follows a route, as written in the path. -/
def match? (route path : String) : Option (List (String × List Char)) :=
  Piece.match? ((Text.splitChars '/' route.toList).map Piece.ofSegment)
    (Text.splitChars '/' path.toList)

end Http

end Conform
