import Parlance.Text.Case
import Parlance.Token

/-!
# The Vocabulary

The words that the language knows, by class, and the class of any word. Letter
case does not matter for the words of the vocabulary; any other word is an
identifier and keeps its spelling.
-/

namespace Parlance.Vocabulary

def keywords : List String :=
  ["when", "then", "end", "if", "else", "repeat", "times", "every", "seconds", "while", "do",
    "and", "or", "not", "for", "try", "catch", "break", "skip", "where", "finally", "function",
    "return", "class", "extends", "method", "constructor", "property", "static", "private",
    "public", "import", "export", "from", "as", "await", "async"]

def actions : List String :=
  ["set", "increase", "decrease", "move", "play", "stop", "spawn", "destroy", "show", "hide",
    "print", "wait", "call", "emit", "teleport", "freeze", "unfreeze", "apply", "define", "say",
    "choice", "battle", "attack", "add", "remove", "toggle", "load", "win", "lose", "restart",
    "save", "give", "take", "let", "turn", "open", "shake", "flash", "tint", "equip", "heal",
    "grant", "recover", "change", "learn", "forget", "delete", "deal", "restore", "drain",
    "append", "fetch", "post", "parse", "stringify", "read", "write", "split", "replace",
    "convert", "count", "round", "floor", "ceil", "abs", "sqrt", "min", "max", "random", "join",
    "trim", "uppercase", "lowercase", "sort", "reverse", "filter", "merge", "flatten", "get",
    "index", "slice", "find", "clamp", "log", "exit", "run", "create", "pad", "sign", "type",
    "transform", "reduce", "copy", "assign", "serve", "match", "respond", "listen", "any",
    "start", "send", "new", "inherit", "super", "regex", "pattern", "test", "matches", "capture",
    "extract", "throw", "raise", "error", "connect", "disconnect", "broadcast", "execute",
    "shell", "query", "insert", "update", "select", "promise", "resolve", "reject"]

def prepositions : List String :=
  ["to", "by", "at", "with", "on", "of", "in", "is", "has", "touches", "presses", "clicks",
    "enters", "leaves", "becomes", "impulse", "force", "frames", "fps", "loop", "portrait",
    "item", "inventory", "scene", "game", "quantity", "starts", "switch", "off", "menu", "shop",
    "over", "event", "formula", "editor", "autotile", "zone", "slot", "effect", "party", "exp",
    "experience", "gold", "member", "wins", "loses", "levels", "up", "all", "level", "map",
    "encounter", "rate", "skill", "actor", "enemy", "name", "desc", "drops", "weight", "costs",
    "cost", "price", "scope", "element", "power", "physical", "revive", "inflict", "turns",
    "heals", "hp", "mp", "atk", "def", "matk", "mdef", "spd", "luk", "ai", "color", "growth",
    "stats", "skills", "looping", "beneficial", "into", "data", "record", "each", "percent",
    "damage", "flat", "message", "json", "exists", "empty", "last", "first", "text", "number",
    "file", "array", "url", "body", "contains", "uses", "defeats", "hits", "dies", "spawns",
    "object", "key", "keys", "ascending", "descending", "folder", "directory", "env", "command",
    "code", "timestamp", "date", "time", "ends", "right", "left", "char", "length", "boolean",
    "integer", "param", "params", "arg", "args", "against", "starting", "accumulator", "path",
    "basename", "dirname", "extension", "extname", "port", "route", "request", "response",
    "server", "receiving", "receives", "status", "html", "css", "javascript", "infinity", "pi",
    "nan", "math", "an", "a", "be", "the", "this", "that", "these", "those", "which", "who",
    "instance", "methods", "properties", "inherits", "parent", "child", "flags", "global",
    "ignorecase", "multiline", "groups", "websocket", "socket", "channel", "room", "database",
    "table", "column", "row", "rows", "values", "limit", "offset", "order", "callback", "handler",
    "listener", "stream", "pipe", "chunk", "encoding", "module", "exports", "require"]

def comparisons : List String :=
  ["less", "greater", "than", "equal", "equals", "above", "below", "between"]

def operatorWords : List (String × String) := [("plus", "+"), ("minus", "-"), ("modulo", "%")]

/-- The words that join factors. They are keywords. -/
def arithmeticWords : List String := ["times", "multiplied", "divided"]

/-- The class and the content of a word of the vocabulary, given in lower
    case. -/
def known? (w : String) : Option (Token.Kind × Token.Content) :=
  if w == "true" then some (.boolean, .flag true)
  else if w == "false" then some (.boolean, .flag false)
  else if w == "null" || w == "nothing" then some (.null, .none)
  else match operatorWords.lookup w with
    | some sign => some (.operator, .text sign)
    | none =>
      if arithmeticWords.contains w || keywords.contains w then some (.keyword, .text w)
      else if actions.contains w then some (.action, .text w)
      else if prepositions.contains w then some (.preposition, .text w)
      else if comparisons.contains w then some (.comparison, .text w)
      else none

def classify (word : String) : Token.Kind × Token.Content :=
  (known? (Text.lower word)).getD (.identifier, .text word)

end Parlance.Vocabulary
