/-!
# The Words of the Grammar
-/

namespace Parlance.Grammar

def openers : List String :=
  ["let", "set", "increase", "decrease", "move", "teleport", "spawn", "destroy", "show", "hide",
    "freeze", "unfreeze", "play", "stop", "apply", "shake", "flash", "tint", "print", "log",
    "wait", "say", "choice", "emit", "call", "define", "win", "lose", "restart", "end", "battle",
    "attack", "open", "turn", "toggle", "add", "give", "grant", "remove", "take", "load", "save",
    "delete", "equip", "heal", "recover", "change", "learn", "forget", "if", "repeat", "while",
    "for", "break", "skip", "return", "try", "match", "append", "sort", "reverse", "filter",
    "merge", "flatten", "find", "get", "slice", "char", "pad", "clamp", "keys", "values", "type",
    "index", "transform", "reduce", "every", "any", "copy", "assign", "join", "basename",
    "dirname", "extension", "extname", "fetch", "post", "parse", "stringify", "read", "write",
    "split", "replace", "convert", "exit", "run", "list", "file", "create", "execute", "shell",
    "start", "send", "when", "serve", "route", "respond", "class", "new", "import", "export",
    "throw", "raise", "regex", "test", "extract", "connect", "broadcast", "query", "insert",
    "select", "await"]

def articles : List String :=
  ["the", "a", "an", "this", "that", "these", "those", "my", "your", "our", "their"]

/-- The actions that open a statement. A name never runs into one. -/
def statementActions : List String :=
  ["let", "set", "increase", "decrease", "move", "play", "stop", "spawn", "destroy", "show",
    "hide", "print", "wait", "call", "emit", "teleport", "freeze", "unfreeze", "apply", "define",
    "say", "choice", "battle", "attack", "add", "remove", "toggle", "load", "win", "lose",
    "restart", "save", "give", "take", "turn", "open", "shake", "flash", "tint", "equip", "heal",
    "grant", "recover", "change", "learn", "forget", "delete", "deal", "restore", "drain",
    "append", "fetch", "post", "parse", "stringify", "read", "write", "split", "replace",
    "convert", "sort", "reverse", "filter", "merge", "flatten", "get", "find", "clamp", "log",
    "exit", "run", "create", "transform", "reduce", "copy", "assign", "match", "return", "any",
    "throw", "raise", "regex", "extract", "execute", "shell", "send", "respond", "serve",
    "connect", "broadcast", "query", "insert", "select"]

def statementKeywords : List String :=
  ["if", "while", "repeat", "for", "return", "end", "else", "when", "then", "do", "function",
    "every", "break", "skip", "try", "class", "import", "export", "await"]

def referenceStops : List String :=
  ["then", "end", "else", "do", "into", "and", "or", "is", "has", "be", "to", "by", "at", "from",
    "with", "on", "of", "in", "as", "times", "seconds", "while", "for", "if", "repeat"]

def referenceArticles : List String :=
  ["the", "a", "an", "this", "that"]

def functionWords : List String :=
  ["round", "floor", "ceil", "abs", "sqrt", "power", "min", "max", "random", "sign", "log",
    "clamp", "uppercase", "lowercase", "trim", "length", "count", "join", "split", "array",
    "object", "index", "slice", "type"]

def valueActions : List String :=
  ["round", "floor", "ceil", "abs", "sqrt", "power", "min", "max", "random", "sign", "log",
    "clamp", "uppercase", "lowercase", "trim", "length", "count", "join", "split"]

def listStops : List String :=
  ["into", "to", "by", "at", "from", "with", "on", "of", "in", "as", "then", "end", "do", "times",
    "else", "any", "every", "each"]

def objectStops : List String :=
  ["into", "to", "then", "end", "do", "else", "any", "every", "each"]

def subjectStops : List String :=
  ["is", "has", "contains", "starts", "ends", "equals", "equal", "and", "or"]

def typeWords : List String :=
  ["a", "an", "number", "text", "array", "object", "boolean", "integer"]

def dataStops : List String :=
  ["end", "when", "define"]

def dataKinds : List String :=
  ["enemy", "item", "skill", "actor", "map"]

def outStops : List String :=
  ["then", "end", "else"]

def statistics : List (String × String) :=
  [("atk", "atk"), ("matk", "matk"), ("def", "def"), ("mdef", "mdef"), ("spd", "spd"),
    ("luk", "luk"), ("maxhp", "maxHp"), ("maxmp", "maxMp"), ("maxtp", "maxTp"), ("hp", "hp"),
    ("mp", "mp")]

end Parlance.Grammar
