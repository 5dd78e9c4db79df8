import Parlance.Grammar.Collection

/-!
# Reading Commands on the Machine and on Services
-/

namespace Parlance.Opener
open Reader

def readFile : Opener := fun p => do
  pass ["file"]
  let path ← value
  give p (.system (.readFile path (← into ["into", "to"])))

def writeFile : Opener := fun p => do
  let append ← accept ["append"]
  pass ["file"]
  let path ← value
  let contents ← maybe ["with", "as", "content"] value
  give p (.system (.writeFile path (contents.getD (.text p "")) append))

def exit : Opener := fun p => do
  let code ← maybe ["with"] do
    pass ["code"]
    value
  give p (.system (.exit (code.getD (.number p (.int 0)))))

def run : Opener := fun p => do
  let command ← value
  give p (.system (.run command (← into ["into"])))

def shell (verb : ShellVerb) : Opener := fun p => do
  if verb == .execute then pass ["command"]
  let command ← value
  give p (.system (.shell verb command (← maybe ["into"] outName)))

def listFiles : Opener := fun p => do
  pass ["files"]
  pass ["in"]
  let path ← value
  give p (.system (.listFiles path (← result)))

def fileExists : Opener := fun p => do
  pass ["exists"]
  let path ← value
  give p (.system (.fileExists path (← result)))

def server : Opener := fun p => do
  pass ["a", "the"]
  pass ["server"]
  pass ["on"]
  pass ["port"]
  give p (.service (.serve (← value)))

def seesServer : Reader Bool := seesAny ["server", "a", "the"]

def create : Opener := fun p => do
  if ← seesServer then return ← server p
  pass ["folder", "directory"]
  give p (.system (.createFolder (← value)))

def start : Opener := fun p => do
  if ← seesServer then server p else nothing

def fetchCommand : Reader Command := do
  pass ["from", "url"]
  let url ← value
  return .service (.fetch url "GET" none (← into ["into", "to"]))

def post : Opener := fun p => do
  pass ["to", "url"]
  let url ← value
  let body ← maybe ["with", "body"] value
  give p (.service (.fetch url "POST" body (← into ["into", "to"])))

def response (p : Position) : Reader (Option Stmt) := do
  pass ["response"]
  pass ["with"]
  pass ["status"]
  let (status, body) ← if ← sees "\x7b" then do
      pure (Expr.number p (.int 200), ← value)
    else do
      let status ← value
      let body ← maybe ["and", "with"] do
        pass ["body"]
        value
      pure (status, body.getD (.object p []))
  give p (.service (.respond status body (← maybe ["as"] value)))

def send : Opener := fun p => do
  let t ← current
  if !t.content.isOneOf ["response", "a", "the", "file", "html", "css"] then return ← nothing
  pass ["a", "the"]
  if ← accept ["file"] then return ← give p (.service (.serveFile (← value)))
  if ← seesAny ["html", "css"] then
    let kind ← spelling
    let body ← value
    let status ← maybe ["with"] do
      pass ["status"]
      value
    return ← give p (.service (.respond (status.getD (.number p (.int 200))) body
      (some (.text p kind))))
  response p

def serve : Opener := fun p => do
  if ← seesAny ["file", "the"] then
    pass ["the"]
    pass ["file"]
    return ← give p (.service (.serveFile (← value)))
  pass ["on"]
  pass ["port"]
  give p (.service (.serve (← value)))

def respond : Opener := fun p => do
  pass ["with"]
  if ← sees "\x7b" then
    return ← give p (.service (.respond (.number p (.int 200)) (← value) none))
  let status ← value
  let body ← maybe ["and", "with"] value
  give p (.service (.respond status (body.getD (.object p [])) none))

def connect : Opener := fun p => do
  pass ["to"]
  pass ["websocket", "socket"]
  let url ← value
  give p (.service (.connect url (← maybe ["into", "as"] (name ["then", "end"]))))

def broadcast : Opener := fun p => do
  let message ← value
  let (target, room) ← if !(← accept ["to"]) then pure ("all", none)
    else if ← accept ["all"] then do
      pass ["clients"]
      pure ("all", none)
    else if ← accept ["room", "channel"] then do
      pure ("room", some (← nameOrText))
    else do pure (← nameOrText, none)
  give p (.service (.broadcast message target room))

def query : Opener := fun p => do
  pass ["database", "db"]
  pass ["with"]
  let sql ← value
  let params ← if ← accept ["with", "params", "parameters"] then do
      pass ["params", "parameters"]
      if ← sees "[" then some <$> value else pure none
    else pure none
  give p (.service (.query sql params (← intoName)))

def intoTable : Reader String := do
  pass ["table"]
  nameOrText

def insert : Opener := fun p => do
  match ← maybe ["into"] intoTable with
  | some table =>
    let data ← maybe ["with", "values", "data"] value
    give p (.service (.insertRow (some table) data))
  | none =>
    let data ← value
    let table ← maybe ["into"] intoTable
    give p (.service (.insertRow table (some data)))

def columns : Reader (Option (List String)) := do
  if ← accept ["*"] then return none
  if ← sees "from" then return none
  let names ← loop do
    if (← atFinish) || (← sees "from") then return .stop
    if ← accept ["and", ","] then return .next
    return .item (← nameOrText)
  return some names

def select : Opener := fun p => do
  let names ← columns
  pass ["from"]
  pass ["table"]
  let table ← nameOrText
  let condition ← maybe ["where"] value
  let limit ← maybe ["limit"] value
  let offset ← maybe ["offset"] value
  give p (.service (.selectRows names table condition limit offset (← intoName)))

def system? : String → Option Opener
  | "read" => some readFile
  | "write" => some writeFile
  | "exit" => some exit
  | "run" => some run
  | "execute" => some (shell .execute)
  | "shell" => some (shell .shell)
  | "list" => some listFiles
  | "file" => some fileExists
  | "create" => some create
  | _ => none

def service? : String → Option Opener
  | "start" => some start
  | "fetch" => some fun p => do give p (← fetchCommand)
  | "post" => some post
  | "send" => some send
  | "serve" => some serve
  | "respond" => some respond
  | "connect" => some connect
  | "broadcast" => some broadcast
  | "query" => some query
  | "insert" => some insert
  | "select" => some select
  | _ => none

end Parlance.Opener
