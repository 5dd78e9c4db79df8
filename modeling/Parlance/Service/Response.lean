import Parlance.Text.Case
import Parlance.Text.Pieces
import Parlance.Value.Heap

/-!
# Responses

What a route answers with: a status, the type of the content and the content
as bytes. The type is guessed from the content unless the script names it, and
for a file it follows from the ending of its name. Not all that a route may
answer can be sent: a header is sent as one byte for each of its characters,
and a status as its digits.
-/

namespace Parlance

structure Response where
  status : Int
  contentType : String
  body : ByteArray

/-- What goes back to a client. -/
structure Reply where
  status : Int
  headers : List (String × String)
  body : ByteArray

namespace Response

def reply (r : Response) : Reply :=
  ⟨r.status, [("Content-Type", r.contentType), ("Content-Length", toString r.body.size)], r.body⟩

def notFound : Response :=
  ⟨404, "application/json", "\x7b\"error\":\"Not Found\"\x7d".toUTF8⟩

def noContent : Response := ⟨204, "text/plain", ByteArray.empty⟩

def fileNotFound : Response := ⟨404, "text/plain", "File not found".toUTF8⟩

def fileTypes : List (String × String) :=
  [(".html", "text/html"), (".css", "text/css"), (".js", "application/javascript"),
    (".json", "application/json"), (".png", "image/png"), (".jpg", "image/jpeg"),
    (".jpeg", "image/jpeg"), (".gif", "image/gif"), (".svg", "image/svg+xml"),
    (".ico", "image/x-icon"), (".txt", "text/plain")]

def namedTypes : List (String × String) :=
  [("html", "text/html"), ("css", "text/css"), ("json", "application/json"),
    ("text", "text/plain"), ("javascript", "application/javascript"),
    ("js", "application/javascript")]

def guessType (text : String) : String :=
  let t := Text.trim text
  if Text.startsWith t "<!DOCTYPE" || Text.startsWith t "<html" then "text/html"
  else if Text.startsWith t "<" && Text.contains t "</" then "text/html"
  else if Text.startsWith t "\x7b" || Text.startsWith t "[" then "application/json"
  else if Text.contains t "body \x7b" || (Text.contains t "." && Text.contains t "\x7b") then
    "text/css"
  else "text/plain"

/-- The characters of a path from its last point on; none if there is no point
    in its last part. -/
def ending (path : String) : Option String :=
  let back := path.toList.reverse
  let tail := back.takeWhile (· != '.')
  if tail.length == back.length || tail.contains '/' then none
  else some (String.ofList ('.' :: tail.reverse))

def fileType (path : String) : String :=
  match ending path with
  | none => "application/octet-stream"
  | some e => (fileTypes.lookup (Text.lower e)).getD "application/octet-stream"

/-- The text of a value in a response, and the type it has unless the script
    names one. -/
def contentOf (h : Heap) : Value → Except Defect (String × String)
  | .text s => .ok (s, guessType s)
  | .null => .ok ("", "text/plain")
  | v => do
    let text ← h.document v
    return (text, if v.isContainer then "application/json" else "text/plain")

def ofValue (h : Heap) (status : Int) (body : Value) (type : Option String) :
    Except Defect Response := do
  let (text, guessed) ← contentOf h body
  let contentType := match type with
    | none => guessed
    | some t => (namedTypes.lookup t).getD t
  return ⟨status, contentType, text.toUTF8⟩

end Response
end Parlance
