import Conform.Url.Host

/-!
# URLs

Which texts are absolute URLs. Blanks at both ends, tabs and line ends count
for nothing; a scheme comes first; the special schemes need a host, and what
stands for one must be valid; a port is a number of two bytes. Paths, queries
and fragments admit anything.
-/

namespace Conform

namespace Url

/-- What a scheme asks of the text behind it. -/
inductive SchemeKind where
  /-- A scheme of the web: slashes count for nothing, and a host follows. -/
  | web
  | file
  | other
  deriving DecidableEq, Repr

def SchemeKind.ofScheme (scheme : List Char) : SchemeKind :=
  let scheme := String.ofList (scheme.map Char.toLower)
  if ["http", "https", "ws", "wss", "ftp"].contains scheme then .web
  else if scheme = "file" then .file
  else .other

/-- Whether a backslash is as good as a slash. -/
def SchemeKind.isSpecial (k : SchemeKind) : Bool := k != .other

def isSlash (c : Char) : Bool := c = '/' || c = '\\'

/-- The characters of a text that count. -/
def significant (s : String) : List Char :=
  let atEnds (c : Char) : Bool := c.toNat ≤ 0x20
  let inner := ((s.toList.dropWhile atEnds).reverse.dropWhile atEnds).reverse
  inner.filter fun c => c != '\t' && c != '\n' && c != '\r'

/-- A scheme and what follows its colon. -/
def cutScheme? (cs : List Char) : Option (List Char × List Char) :=
  let isSchemeChar (c : Char) : Bool := c.isAlphanum || c = '+' || c = '-' || c = '.'
  match cs.takeWhile isSchemeChar, cs.dropWhile isSchemeChar with
  | c :: scheme, ':' :: rest => if c.isAlpha then some (c :: scheme, rest) else none
  | _, _ => none

/-- Whether a character ends the part that names user, host and port. -/
def endsAuthority (kind : SchemeKind) (c : Char) : Bool :=
  c = '/' || c = '?' || c = '#' || (kind.isSpecial && c = '\\')

/-- The user's part before the last at sign, if there is one, and what follows. -/
def cutUser (authority : List Char) : Option (List Char) × List Char :=
  if authority.contains '@' then
    let reversed := authority.reverse
    (some ((reversed.dropWhile (· != '@')).drop 1).reverse,
      (reversed.takeWhile (· != '@')).reverse)
  else (none, authority)

/-- A host and what follows it from the first colon outside brackets. -/
def cutHost : Bool → List Char → List Char × List Char
  | _, [] => ([], [])
  | inside, c :: rest =>
    if c = ':' && !inside then ([], c :: rest)
    else
      let (host, rest) := cutHost (c = '[' || (inside && c != ']')) rest
      (c :: host, rest)

/-- Whether text is a port, or the digits of one before a backslash. -/
def isPort (cs : List Char) : Bool :=
  let digits := cs.takeWhile Char.isDigit
  let ends := match cs.dropWhile Char.isDigit with
    | [] => true
    | c :: _ => c = '\\'
  ends &&
    match Text.number? 10 digits with
    | some n => n ≤ 65535
    | none => false

/-- Whether text names a host, with a user before it or a port behind it where they may stand. -/
def isAuthority (kind : SchemeKind) (cs : List Char) : Bool :=
  let authority := cs.takeWhile (!endsAuthority kind ·)
  let more := !(cs.dropWhile (!endsAuthority kind ·)).isEmpty
  let (user, rest) := cutUser authority
  let (host, port) := cutHost false rest
  let hostOk :=
    if kind.isSpecial then !host.isEmpty && Host.isSpecial host
    else if host.isEmpty then
      port.isEmpty &&
        match user with
        | none => true
        | some [] => !(rest.isEmpty && more)
        | some user => user == [':']
    else Host.isOpaque host
  hostOk &&
    match port with
    | [] => true
    | _ :: digits => isPort digits

/-- Whether text is the letter of a drive. -/
def isDrive : List Char → Bool
  | [c, mark] => c.isAlpha && (mark = ':' || mark = '|')
  | _ => false

/-- Whether text may follow the scheme of a local file. -/
def isFile : List Char → Bool
  | a :: b :: rest =>
    if isSlash a && isSlash b then
      let host := rest.takeWhile fun c => !isSlash c && c != '?' && c != '#'
      host.isEmpty || isDrive host || Host.isSpecial host
    else true
  | _ => true

/-- Whether text may follow a scheme. -/
def follows (kind : SchemeKind) (cs : List Char) : Bool :=
  match kind with
  | .web => isAuthority kind (cs.dropWhile isSlash)
  | .file => isFile cs
  | .other =>
    match cs with
    | '/' :: '/' :: rest => isAuthority kind rest
    | _ => true

/-- Whether a text is an absolute URL. -/
def isAbsolute (s : String) : Bool :=
  match cutScheme? (significant s) with
  | some (scheme, rest) => follows (SchemeKind.ofScheme scheme) rest
  | none => false

end Url

end Conform
