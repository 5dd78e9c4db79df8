import Parlance.Json.Reader
import Parlance.Service.Url

/-!
# Requests

A request as a client sends it, and what a route is given of it: the method,
the path without the query, the headers with names in lower case, the body and
the pairs of the query. The body is read as far as the client says it goes, and
as JSON if it is JSON. A reader of JSON needs room for nested documents: on which
texts it runs out of room is not up to this module, which takes it as a parameter.
-/

namespace Parlance

structure Request where
  method : String
  path : String
  headers : Dict String
  body : Json
  query : Dict String

namespace Request

def header? (headers : List (String × String)) (name : String) : Option String :=
  (headers.find? fun h => Text.lower h.1 == Text.lower name).map Prod.snd

/-- The most bytes that can be asked for at once. -/
def maxLength : Int := 9223372036854775807

/-- How much of the body is to be read. -/
def bodyLength (headers : List (String × String)) : Except Defect Nat :=
  match header? headers "Content-Length" with
  | none => .ok 0
  | some s =>
    if s.isEmpty then .ok 0
    else match Numeral.int? s with
      | some n => if maxLength < n then .error .overflow else .ok n.toNat
      | none => .error .badValue

/-- A body as a document: JSON if it is JSON whose numbers are not too long, else a text. -/
def readBody (bytes : List UInt8) : Json :=
  let s := String.ofList (Utf8.decode bytes)
  match Json.read s with
  | .ok j => if j.isShort then j else .text s
  | .error _ => .text s

/-- A request, from what a client has sent. The reader of its body runs out of room on the
    texts that are too deep. -/
def ofClient (tooDeep : String → Bool) (method target : String) (headers : List (String × String))
    (body : ByteArray) : Except Defect Request := do
  let some url := Url.split? target | throw .badValue
  let bytes := body.toList.take (← bodyLength headers)
  if !bytes.isEmpty && tooDeep (String.ofList (Utf8.decode bytes)) then throw .endless
  return {
    method
    path := url.path
    headers := .ofList (headers.map fun h => (Text.lower h.1, h.2))
    body := if bytes.isEmpty then .object [] else readBody bytes
    query := .ofList (Url.queryPairs url.query) }

def textFields (d : Dict String) : Json := .object (d.entries.map fun e => (e.1, .text e.2))

def json (r : Request) : Json :=
  .object [("method", .text r.method), ("url", .text r.path), ("headers", textFields r.headers),
    ("body", r.body), ("query", textFields r.query)]

end Request
end Parlance
