import Conform.Json.Printer
import Conform.MediaType

/-!
# Requests and replies

What of an HTTP exchange the service looks at.
-/

namespace Conform

namespace Http

structure Request where
  method : String
  /-- The path as written, percent signs and all. -/
  path : String
  /-- What follows the question mark. -/
  query : String
  contentType : Option String
  body : ByteArray

structure Reply where
  status : Nat
  /-- The fields of the head in order, their names in lower case. -/
  headers : List (String × String)
  body : ByteArray

instance : DecidableEq Reply := fun a b =>
  decidable_of_decidable_of_iff
    (p := a.status = b.status ∧ a.headers = b.headers ∧ a.body.data = b.body.data) <| by
      rw [Reply.mk.injEq, ByteArray.ext_iff]

namespace Request

/-- The path and the query of an address; a fragment does not count. -/
def splitAddress (address : String) : String × String :=
  let (address, _) := Text.cutChars '#' address.toList
  let (path, query) := Text.cutChars '?' address
  (String.ofList path, String.ofList (query.getD []))

/-- A request to an address. -/
def ofAddress (method address : String) (contentType : Option String)
    (body : ByteArray) : Request :=
  let (path, query) := splitAddress address
  { method, path, query, contentType, body }

/-- Whether the request only reads. -/
def reads (r : Request) : Bool := r.method == "GET" || r.method == "HEAD"

/-- Whether the content type announces a JSON body. -/
def announcesJson (r : Request) : Bool :=
  match r.contentType.bind MediaType.read? with
  | some media => media.isJson
  | none => false

end Request

namespace Reply

/-- A reply with a body of a type. -/
def ofText (status : Nat) (media body : String) : Reply :=
  ⟨status, [("content-type", media)], body.toUTF8⟩

/-- A reply without a body. -/
def bare (status : Nat) : Reply := ⟨status, [], ByteArray.empty⟩

def text (status : Nat) (body : String) : Reply := ofText status "text/plain; charset=utf-8" body

def json (status : Nat) (body : Json) : Reply := ofText status "application/json" body.compact

/-- The reply without its body, as it answers a request for the head alone. -/
def stripped (r : Reply) : Reply := { r with body := ByteArray.empty }

/-- The reply with another value for its body; what its head says of the length is dropped. -/
def withValue (r : Reply) (v : Json) : Reply :=
  { r with
    headers := r.headers.filter fun field => field.1 != "content-length"
    body := v.compact.toUTF8 }

def contentType (r : Reply) : Option String := r.headers.lookup "content-type"

/-- Whether a character of a header is plain text. -/
def isHeaderText (c : Char) : Bool := c.toNat = 9 || (32 ≤ c.toNat && c.toNat < 127)

/-- Whether the content type says that the body is JSON. -/
def carriesJson (r : Reply) : Bool :=
  match r.contentType with
  | some media => media.toList.all isHeaderText && MediaType.saysJson media
  | none => false

end Reply

end Http

end Conform
