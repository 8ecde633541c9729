/-!
# Channels

Where a validated value came from. Values of the path and query channels
arrive as strings.
-/

namespace Conform

/-- The origin of a value. -/
inductive Channel where
  | path
  | query
  | body
  | response
  deriving DecidableEq, Repr

namespace Channel

/-- All channels, in the order a request meets them. -/
def all : List Channel := [path, query, body, response]

def name : Channel → String
  | path => "path"
  | query => "query"
  | body => "body"
  | response => "response"

/-- Whether values arrive as strings of a URL. -/
def stringEncoded : Channel → Bool
  | path | query => true
  | body | response => false

/-- The channel with exactly this name. -/
def ofName? (name : String) : Option Channel := all.find? fun c => c.name == name

/-- The channel a word stands for; `param` is another word for `path`. -/
def ofWord? (word : String) : Option Channel :=
  if word = "param" then some path else ofName? word

/-- What is said of a word that stands for no channel. -/
def unknownMessage (word : String) : String :=
  "unknown channel \"" ++ word ++ "\" (expected path, query, body or response)"

theorem ofName?_name (c : Channel) : ofName? c.name = some c := by
  cases c <;> decide

theorem ofWord?_name (c : Channel) : ofWord? c.name = some c := by
  cases c <;> decide

end Channel

end Conform
