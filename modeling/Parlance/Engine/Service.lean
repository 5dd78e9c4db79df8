import Parlance.Engine.Machine
import Parlance.Service.Request

/-!
# Commands on Services
-/

namespace Parlance
namespace Sql

def insert (table : String) (columns : List String) : String :=
  "INSERT INTO " ++ table ++ " (" ++ ", ".intercalate columns ++ ") VALUES ("
    ++ ", ".intercalate (columns.map fun _ => "?") ++ ")"

/-- The query that takes rows from a table. A start without a limit needs a
    limit that does not count. -/
def select (table : String) (columns : List String) (condition : String)
    (limit offset : Option String) : String :=
  "SELECT " ++ (if columns.isEmpty then "*" else ", ".intercalate columns) ++ " FROM " ++ table
    ++ (if condition.isEmpty then "" else " WHERE " ++ condition)
    ++ (match limit, offset with
      | some n, _ => " LIMIT " ++ n
      | none, some _ => " LIMIT -1"
      | none, none => "")
    ++ (match offset with
      | some n => " OFFSET " ++ n
      | none => "")

end Sql

namespace Run

def refuse (url : String) (fault : Url.FetchFault) : Run Value :=
  hostFail ("request to " ++ url ++ " failed: " ++ fault.message)

def reach (url scheme host path : String) : Run Value :=
  match scheme with
  | "http" | "https" =>
    if host.isEmpty then refuse url .noHost
    else if !Url.isUsableHost host || path.toList.any fun c => c.toNat ≤ 0x20 || c.toNat == 0x7f
    then throw (.defect .badAddress)
    else refuse url .unreachable
  | "ftp" => refuse url (if host.isEmpty then .noFileHost else .unreachable)
  | other => refuse url (.unknownScheme other)

def requestOffline (method url : String) (body : Value) : Run Value := do
  if !body.isNull then
    let _ ← document body
  match Url.fetchParts? url with
  | none => throw (.defect .badValue)
  | some (scheme, host, path) =>
    log .debug .platform (method ++ " " ++ url)
    reach url scheme host path

def request (method url : String) (body : Value) : Run Value := do
  match (← get).hosts.network with
  | .absent => return .null
  | .bare => throw (.defect .notProvided)
  | .offline => requestOffline method url body
  | .canned replies _ =>
    note "request" [.value (.text method), .value (.text url), .value (← tree body)]
    match replies.find? fun r => r.1 == method && r.2.1 == url with
    | some r => return r.2.2
    | none => hostFail ("request to " ++ url ++ " failed: refused")

def listen (port : Int) : Run Unit := do
  match (← get).hosts.network with
  | .absent | .offline => pure ()
  | .bare => throw (.defect .notProvided)
  | .canned _ busy =>
    note "listen" [.value (.number (.int port))]
    if busy.contains port then
      hostFail ("cannot listen on port " ++ toString port ++ ": port in use")

def query (sql : String) (params : List Value) : Run Value := do
  match (← get).hosts.database with
  | .absent => return .null
  | .bare => throw (.defect .notProvided)
  | .canned replies =>
    let h := (← get).heap
    note "query" [.value (.text sql), .value (.list (params.map h.tree))]
    match replies.lookup sql with
    | some v => return v
    | none => hostFail ("database error: no reply for " ++ sql)

/-- The text of a whole number, if there is one. -/
def intText? : Option Int → Run (Option String)
  | none => return none
  | some n => do return some (← text (.int n))

/-- Takes rows from a table. A bare database is asked before the query is written. -/
def selectRows (table : String) (columns : List String) (condition : String)
    (limit offset : Option Int) : Run Value := do
  if let .bare := (← get).hosts.database then throw (.defect .notProvided)
  let l ← intText? limit
  let o ← intText? offset
  query (Sql.select table columns condition l o) []

def evalInt? (L : Linker) : Option Expr → Run (Option Int)
  | none => return none
  | some e => do return some (← int (← eval L e) 0)

def evalText? (L : Linker) : Option Expr → Run (Option String)
  | none => return none
  | some e => do return some (← evalText L e)

def evalItems (L : Linker) : Option Expr → Run (List Value)
  | none => return []
  | some e => do asList (← eval L e)

def insertRow (table : String) (row : Value) : Run Unit := do
  match row with
  | .object r =>
    let d ← fields r
    let _ ← query (Sql.insert table d.keys) d.values
  | _ => warn ("insert into " ++ table ++ " needs an object")

def rowList : Value → Run Value
  | .list r => pure (.list r)
  | _ => newList []

/-- A message as a text: a text itself, and JSON otherwise. -/
def messageText : Value → Run String
  | .text s => pure s
  | v => document v

def answer (op : String) (act : Run (Option Response)) : Run Unit := do
  let s ← get
  if !s.inRequest then warn (op ++ " outside of a request")
  else if s.response.isNone then
    if let some r ← act then modify fun s => { s with response := some r }

def fileResponse (L : Linker) (path : Expr) : Run (Option Response) := do
  if !(← hasMachine "serve file") then return none
  let p ← evalText L path
  match ← attempt (readBytes p) with
  | .ok bytes => return some ⟨200, Response.fileType p, bytes⟩
  | .error _ => return some Response.fileNotFound

end Run

open Run

def ServiceCommand.exec (L : Linker) : ServiceCommand → Run Unit
  | .fetch url method body out => do
    if !(← hasNetwork "fetch") then setOut out .null
    else
      let b ← evalOr L body
      orHostFailure (do request method (← evalText L url) b) out (fun _ => return .null) (setOut out)
  | .serve e => do
    let port ← int (← eval L e) 0
    if ← hasNetwork ("listen on port " ++ (← text (.int port))) then listen port
  | .respond status body contentType => answer "respond" do
    let code ← int (← eval L status) 200
    let type ← evalText? L contentType
    let v ← eval L body
    return some (← lift (Response.ofValue (← get).heap code v type))
  | .serveFile path => answer "serve file" (fileResponse L path)
  | .query sql params out => do
    if !(← hasDatabase "query") then setOut out .null
    else
      let ps ← evalItems L params
      orHostFailure (do Run.query (← evalText L sql) ps) out
        (fun f => newObject (.ofList [("error", .text f.message)])) (setOut out)
  | .insertRow table data => do
    if ← hasDatabase "insert" then
      match table with
      | none => warn "insert needs a table"
      | some table => Run.insertRow table (← evalOr L data)
  | .selectRows columns table condition limit offset out => do
    if !(← hasDatabase "select") then setOut out (← newList [])
    else
      let c ← evalText? L condition
      let l ← evalInt? L limit
      let o ← evalInt? L offset
      orHostFailure (Run.selectRows table (columns.getD []) (c.getD "") l o) out
        (fun _ => newList []) fun rows => do setOut out (← rowList rows)
  | .connect url out => do
    if !(← hasSockets "connect") then setOut out .null
    else
      let u ← evalText L url
      if (← get).hosts.sockets == .bare then throw (.defect .notProvided)
      note "connect" [.value (.text u)]
      setOut out (.text ("socket:" ++ u))
  | .broadcast message target room => do
    if ← hasSockets "broadcast" then
      let s ← messageText (← eval L message)
      if (← get).hosts.sockets == .bare then throw (.defect .notProvided)
      note "broadcast" [.value (.text s), .value (.text target),
        .value ((room.map Tree.text).getD .null)]

end Parlance
