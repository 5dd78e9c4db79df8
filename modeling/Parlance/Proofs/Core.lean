import Parlance.Proofs.Spelling
import Parlance.Syntax.Statement
import Parlance.Grammar.Words

/-!
# The Core Language

The part of the language that can be written in one plain way: variables, arithmetic,
conditions, loops, handlers, functions and rules. Its programs are types of their own, without
positions, and each value of such a type can be written down. A name is a word that the grammar
gives no meaning to (`Core.Plain`), since the grammar tells statements apart by their words.

The printer gives one line for each statement that has no body and one for each word that
opens or ends a body. After `else` it writes `do` when the body begins with `if`, since `else`
with `if` right after it would be read as one choice with more than two branches.

## Main definitions

* `Grammar.bareWords`: The words that the grammar compares with and that have no class in the
  vocabulary.
* `Grammar.literals`: The words and signs that the grammar compares a name with.
* `Core.Plain`: A word that the scanner takes for an identifier and that the grammar compares with
  nothing.
* `Core.Sign`: The operators with a sign.
* `Core.Primary`: An operand.

## Theorems

* `Vocabulary.classify_words`: How the vocabulary classifies the words of the core language.
-/

namespace Parlance
namespace Grammar

/-- The words that the grammar compares with and that have no class in the
    vocabulary. -/
def bareWords : List String :=
  ["animation", "arguments", "clients", "combat", "content", "db", "defeat", "exception", "files",
    "hit", "initStats", "list", "maxhp", "maxmp", "maxtp", "music", "my", "no", "option", "our",
    "parameters", "player", "sound", "sounds", "sprite", "their", "tile", "tileset", "tp", "until",
    "using", "volume", "x", "your"]

/-- The words and signs that the grammar compares a name with. -/
def literals : List String :=
  bareWords
    ++ ["be", "to", "equal", "equals", "by", "and", "then", "do", "formula", "zone", "key", "index",
      "new", "error", "end", "else", "[", "]", "\x7b", "\x7d", "math", "call", "get", "not",
      "switch", "choice", "has", "enemy", "into", "if", "repeat", "while", "starts", "game", "the",
      "receiving", "server"]
    ++ openers ++ articles ++ referenceStops ++ referenceArticles ++ functionWords ++ subjectStops

end Grammar

namespace Core

/-- A word that the scanner takes for an identifier and that the grammar
    compares with nothing. -/
structure Plain extends Word where
  identifier : Vocabulary.classify text = (.identifier, .text text)
  free : text ∉ Grammar.literals

/-- The operators with a sign. -/
inductive Sign where
  | plus
  | minus
  | times
  | over
  | modulo

def Sign.op : Sign → Operator
  | .plus => .plus
  | .minus => .minus
  | .times => .times
  | .over => .over
  | .modulo => .modulo

mutual

/-- An operand. The keys of an object are texts. -/
inductive Primary where
  | number (value : Whole)
  | text (value : Quotable)
  | bool (value : Bool)
  | null
  | name (name : Plain)
  | list (items : List Expr)
  | object (fields : List (Quotable × Expr))

/-- Operands joined left to right. -/
inductive Expr where
  | lone (operand : Primary)
  | binary (left : Expr) (op : Sign) (right : Primary)

end

inductive Comparison where
  | less (bound : Expr)
  | greater (bound : Expr)
  | equal (other : Expr)
  | notEqual (other : Expr)
  | between (low high : Expr)
  | empty
  | notEmpty
  | present
  | absent
  | nothing
  | notNothing

inductive Simple where
  | named (name : Plain) (comparison : Comparison)
  | bool (value : Bool)
  | not (cond : Simple)

/-- Conditions joined left to right. -/
inductive Condition where
  | lone (cond : Simple)
  | logical (left : Condition) (op : Connective) (right : Simple)

inductive Count where
  | number (value : Whole)
  | name (name : Plain)

/-- A statement. A handler may leave the failure without a name. -/
inductive Stmt where
  | define (name : Plain) (value : Expr)
  | defineCall (name fn : Plain) (args : List Expr)
  | assign (name : Plain) (value : Expr)
  | change (op : Change) (name : Plain) (amount : Expr)
  | print (value : Expr)
  | throw (value : Expr)
  | breakLoop
  | skipRound
  | giveBack (value : Expr)
  | branch (cond : Condition) (thenBody elseBody : List Stmt)
  | whileLoop (cond : Condition) (body : List Stmt)
  | times (count : Count) (body : List Stmt)
  | forEach (item list : Plain) (body : List Stmt)
  | attempt (body : List Stmt) (handler : Option (Option Plain × List Stmt))
      (cleanup : Option (List Stmt))
  | defineFunction (name : Plain) (params : List Plain) (body : List Stmt)

inductive Event where
  | starts
  | touches (subject object : Plain)
  | clicks (subject : Plain)
  | enters (subject zone : Plain)
  | leaves (subject zone : Plain)
  | custom (name : Plain)

structure Rule where
  event : Event
  body : List Stmt

/-- Rules, and statements outside of rules. -/
structure Program where
  rules : List Rule
  main : List Stmt

/-! ### Printing -/

abbrev Line := List Spelling

def word (w : String) (h : Scan.isWordText w.toList = true := by decide) : Spelling := .word ⟨w, h⟩

def sign (c : Char) (h : Scan.isPunctuation c = true := by decide) : Spelling := .punctuation c h

def Plain.spell (w : Plain) : Spelling := .word w.toWord

def Sign.spell : Sign → Spelling
  | .plus => .operator '+' (by decide)
  | .minus => .operator '-' (by decide)
  | .times => .operator '*' (by decide)
  | .over => .operator '/' (by decide)
  | .modulo => .operator '%' (by decide)

def flag : Bool → Spelling
  | true => word "true"
  | false => word "false"

/-- Lines joined to one, with a spelling between them. -/
def separated (sep : Spelling) : List Line → Line
  | [] => []
  | [line] => line
  | line :: lines => line ++ sep :: separated sep lines

mutual

def Primary.spell : Primary → Line
  | .number n => [.number n]
  | .text q => [.text q]
  | .bool b => [flag b]
  | .null => [word "null"]
  | .name w => [w.spell]
  | .list items => sign '[' :: (separated (sign ',') (spellItems items) ++ [sign ']'])
  | .object fields =>
    sign '\x7b' :: (separated (sign ',') (spellFields fields) ++ [sign '\x7d'])

def Expr.spell : Expr → Line
  | .lone operand => operand.spell
  | .binary left op right => left.spell ++ op.spell :: right.spell

def spellItems : List Expr → List Line
  | [] => []
  | item :: items => item.spell :: spellItems items

def spellFields : List (Quotable × Expr) → List Line
  | [] => []
  | (key, item) :: fields => (.text key :: sign ':' :: item.spell) :: spellFields fields

end

/-- Lines joined by `and` after `with`, which is left out when there are none. -/
def afterWith : List Line → Line
  | [] => []
  | lines => word "with" :: separated (word "and") lines

def Comparison.spell : Comparison → Line
  | .less e => word "less" :: word "than" :: e.spell
  | .greater e => word "greater" :: word "than" :: e.spell
  | .equal e => word "equal" :: word "to" :: e.spell
  | .notEqual e => word "not" :: word "equal" :: word "to" :: e.spell
  | .between low high => word "between" :: (low.spell ++ word "and" :: high.spell)
  | .empty => [word "empty"]
  | .notEmpty => [word "not", word "empty"]
  | .present => [word "exists"]
  | .absent => [word "not", word "exists"]
  | .nothing => [word "null"]
  | .notNothing => [word "not", word "null"]

def Simple.spell : Simple → Line
  | .named name comparison => name.spell :: word "is" :: comparison.spell
  | .bool b => [flag b]
  | .not cond => word "not" :: cond.spell

def connective : Connective → Spelling
  | .and => word "and"
  | .or => word "or"

def Condition.spell : Condition → Line
  | .lone cond => cond.spell
  | .logical left op right => left.spell ++ connective op :: right.spell

def Count.spell : Count → Spelling
  | .number n => .number n
  | .name w => w.spell

def change : Change → Spelling
  | .increase => word "increase"
  | .decrease => word "decrease"

def elseLine : List Stmt → Line
  | .branch _ _ _ :: _ => [word "else", word "do"]
  | _ => [word "else"]

def block (opening : Line) (body : List Line) : List Line := opening :: (body ++ [[word "end"]])

mutual

def Stmt.lines : Stmt → List Line
  | .define name value => [word "let" :: name.spell :: word "be" :: value.spell]
  | .defineCall name fn args =>
    [word "let" :: name.spell :: word "be" :: word "call" :: word "function" :: fn.spell
      :: afterWith (args.map Expr.spell)]
  | .assign name value => [word "set" :: name.spell :: word "to" :: value.spell]
  | .change op name amount => [Core.change op :: name.spell :: word "by" :: amount.spell]
  | .print value => [word "print" :: value.spell]
  | .throw value => [word "throw" :: value.spell]
  | .breakLoop => [[word "break"]]
  | .skipRound => [[word "skip"]]
  | .giveBack value => [word "return" :: value.spell]
  | .branch cond thenBody elseBody =>
    block (word "if" :: (cond.spell ++ [word "then"]))
      (linesOf thenBody
        ++ if elseBody.isEmpty then [] else elseLine elseBody :: linesOf elseBody)
  | .whileLoop cond body => block (word "while" :: (cond.spell ++ [word "do"])) (linesOf body)
  | .times count body => block [word "repeat", count.spell, word "times"] (linesOf body)
  | .forEach item list body =>
    block [word "for", word "each", item.spell, word "in", list.spell, word "do"] (linesOf body)
  | .attempt body handler cleanup =>
    block [word "try"] (linesOf body ++ handlerLines handler ++ cleanupLines cleanup)
  | .defineFunction name params body =>
    block (word "define" :: word "function" :: name.spell
      :: (afterWith (params.map fun w => [w.spell]) ++ [word "then"])) (linesOf body)

def linesOf : List Stmt → List Line
  | [] => []
  | stmt :: stmts => stmt.lines ++ linesOf stmts

def handlerLines : Option (Option Plain × List Stmt) → List Line
  | none => []
  | some (none, body) => [word "catch"] :: linesOf body
  | some (some failure, body) => [word "catch", failure.spell] :: linesOf body

def cleanupLines : Option (List Stmt) → List Line
  | none => []
  | some body => [word "finally"] :: linesOf body

end

/-- The lines of a choice whose second body stands below a line `else`. -/
def branchLines (cond : Condition) (thenBody elseBody : List Stmt) : List Line :=
  block (word "if" :: (cond.spell ++ [word "then"]))
    (linesOf thenBody ++ [word "else"] :: linesOf elseBody)

def Event.spell : Event → Line
  | .starts => [word "game", word "starts"]
  | .touches subject object => [subject.spell, word "touches", object.spell]
  | .clicks subject => [subject.spell, word "clicks"]
  | .enters subject zone => [subject.spell, word "enters", zone.spell]
  | .leaves subject zone => [subject.spell, word "leaves", zone.spell]
  | .custom name => [name.spell]

def Rule.lines (r : Rule) : List Line :=
  block (word "when" :: (r.event.spell ++ [word "then"])) (linesOf r.body)

def Program.lines (p : Program) : List Line := p.rules.flatMap Rule.lines ++ linesOf p.main

def Program.print (p : Program) : String := String.ofList (Spelling.layout p.lines)

end Core

namespace Vocabulary

/-- The word is of the kind, and what it holds is the word itself. -/
abbrev Tells (kind : Token.Kind) (w : String) : Prop := classify w = (kind, .text w)

/-- How the vocabulary classifies the words of the core language. -/
theorem classify_words :
    classify "true" = (.boolean, .flag true) ∧ classify "false" = (.boolean, .flag false) ∧
    classify "null" = (.null, .none) ∧ Tells .keyword "when" ∧ Tells .keyword "then" ∧
    Tells .keyword "end" ∧ Tells .keyword "if" ∧ Tells .keyword "else" ∧ Tells .keyword "repeat" ∧
    Tells .keyword "times" ∧ Tells .keyword "while" ∧ Tells .keyword "do" ∧ Tells .keyword "and" ∧
    Tells .keyword "or" ∧ Tells .keyword "not" ∧ Tells .keyword "for" ∧ Tells .keyword "try" ∧
    Tells .keyword "catch" ∧ Tells .keyword "break" ∧ Tells .keyword "skip" ∧
    Tells .keyword "finally" ∧ Tells .keyword "function" ∧ Tells .keyword "return" ∧
    Tells .action "let" ∧ Tells .action "set" ∧ Tells .action "increase" ∧
    Tells .action "decrease" ∧ Tells .action "print" ∧ Tells .action "throw" ∧
    Tells .action "call" ∧ Tells .action "define" ∧ Tells .preposition "to" ∧
    Tells .preposition "by" ∧ Tells .preposition "with" ∧ Tells .preposition "in" ∧
    Tells .preposition "is" ∧ Tells .preposition "be" ∧ Tells .preposition "each" ∧
    Tells .preposition "empty" ∧ Tells .preposition "exists" ∧ Tells .preposition "touches" ∧
    Tells .preposition "clicks" ∧ Tells .preposition "enters" ∧ Tells .preposition "leaves" ∧
    Tells .preposition "game" ∧ Tells .preposition "starts" ∧ Tells .comparison "less" ∧
    Tells .comparison "greater" ∧ Tells .comparison "than" ∧ Tells .comparison "equal" ∧
    Tells .comparison "between" := by
  and_intros
  all_goals exact classify_of_known? (by decide) (by decide)

end Vocabulary

namespace Core

/-! ### Placing -/

mutual

/-- The expression is this operand, with positions. -/
inductive Primary.Placed : Primary → Parlance.Expr → Prop where
  | number {n p} : Primary.Placed (.number n) (.number p (.int n.value))
  | text {q p} : Primary.Placed (.text q) (.text p q.body)
  | bool {b p} : Primary.Placed (.bool b) (.bool p b)
  | null {p} : Primary.Placed .null (.null p)
  | name {w p} : Primary.Placed (.name w) (.name p w.text)
  | list {items es p} : List.Forall₂ Expr.Placed items es →
    Primary.Placed (.list items) (.list p es)
  | object {fields es p} : fields.map (·.1.body) = es.map Prod.fst →
    List.Forall₂ Expr.Placed (fields.map Prod.snd) (es.map Prod.snd) →
      Primary.Placed (.object fields) (.object p es)

inductive Expr.Placed : Expr → Parlance.Expr → Prop where
  | lone {a e} : Primary.Placed a e → Expr.Placed (.lone a) e
  | binary {left op right e e' p} : Expr.Placed left e → Primary.Placed right e' →
    Expr.Placed (.binary left op right) (.binary p op.op e e')

end

inductive Comparison.Placed : Comparison → Parlance.Comparison → Prop where
  | less {v e} : v.Placed e → Placed (.less v) (.less e)
  | greater {v e} : v.Placed e → Placed (.greater v) (.greater e)
  | equal {v e} : v.Placed e → Placed (.equal v) (.equal e)
  | notEqual {v e} : v.Placed e → Placed (.notEqual v) (.notEqual e)
  | between {low high e e'} : low.Placed e → high.Placed e' →
    Placed (.between low high) (.between e e')
  | empty : Placed .empty .empty
  | notEmpty : Placed .notEmpty .notEmpty
  | present : Placed .present .present
  | absent : Placed .absent .absent
  | nothing : Placed .nothing .nothing
  | notNothing : Placed .notNothing .notNothing

inductive Simple.Placed : Simple → Parlance.Condition → Prop where
  | named {w v c p} : v.Placed c → Placed (.named w v) (.named p w.text c)
  | bool {b p} : Placed (.bool b) (.bool p b)
  | not {s c p} : Placed s c → Placed (.not s) (.not p c)

inductive Condition.Placed : Condition → Parlance.Condition → Prop where
  | lone {s c} : s.Placed c → Placed (.lone s) c
  | logical {left op right c c' p} : Placed left c → right.Placed c' →
    Placed (.logical left op right) (.logical p op c c')

inductive Count.Placed : Count → Parlance.Expr → Prop where
  | number {n p} : Placed (.number n) (.number p (.int n.value))
  | name {w p} : Placed (.name w) (.name p w.text)

def failureName : Option Plain → String
  | none => "error"
  | some w => w.text

inductive Stmt.Placed : Stmt → Parlance.Stmt → Prop where
  | define {w v e p} : v.Placed e → Placed (.define w v) (.command p (.bag (.define w.text e)))
  | defineCall {w fn args es p q} : List.Forall₂ Expr.Placed args es →
    Placed (.defineCall w fn args) (.command p (.bag (.define w.text (.call q fn.text es))))
  | assign {w v e p} : v.Placed e → Placed (.assign w v) (.command p (.bag (.assign w.text e)))
  | change {op w v e p} : v.Placed e →
    Placed (.change op w v) (.command p (.bag (.change op w.text e)))
  | print {v e p} : v.Placed e → Placed (.print v) (.command p (.stage (.print e)))
  | throw {v e p} : v.Placed e → Placed (.throw v) (.command p (.script (.raiseError e)))
  | breakLoop {p} : Placed .breakLoop (.breakLoop p)
  | skipRound {p} : Placed .skipRound (.skipRound p)
  | giveBack {v e p} : v.Placed e → Placed (.giveBack v) (.giveBack p e)
  | branch {cond thenBody elseBody c ts es p} : cond.Placed c → List.Forall₂ Placed thenBody ts →
    List.Forall₂ Placed elseBody es → Placed (.branch cond thenBody elseBody) (.branch p c ts es)
  | whileLoop {cond body c ss p} : cond.Placed c → List.Forall₂ Placed body ss →
    Placed (.whileLoop cond body) (.whileLoop p c ss)
  | times {count body e ss p} : count.Placed e → List.Forall₂ Placed body ss →
    Placed (.times count body) (.times p e ss)
  | forEach {item list body ss p} : List.Forall₂ Placed body ss →
    Placed (.forEach item list body) (.forEach p item.text list.text ss)
  | attempt {body handler cleanup ss hs cs p} : List.Forall₂ Placed body ss →
    List.Forall₂ Placed (handler.elim [] Prod.snd) hs →
    Option.Rel (List.Forall₂ Placed) cleanup cs →
    Placed (.attempt body handler cleanup)
      (.attempt p ss (failureName (handler.bind Prod.fst)) hs cs)
  | defineFunction {w params body ss p} : List.Forall₂ Placed body ss →
    Placed (.defineFunction w params body) (.defineFunction p w.text (params.map (·.text)) ss)

inductive Event.Placed : Event → Parlance.Event → Prop where
  | starts {p} : Placed .starts (.starts p "game")
  | touches {s o p} : Placed (.touches s o) (.touches p s.text o.text)
  | clicks {s p} : Placed (.clicks s) (.clicks p s.text)
  | enters {s z p} : Placed (.enters s z) (.enters p s.text z.text)
  | leaves {s z p} : Placed (.leaves s z) (.leaves p s.text z.text)
  | custom {w p} : Placed (.custom w) (.custom p w.text)

/-- The rule is this one, with positions. Nothing brought it in from outside. -/
structure Rule.Placed (r : Rule) (rule : Parlance.Rule) : Prop where
  event : r.event.Placed rule.event
  body : List.Forall₂ Stmt.Placed r.body rule.body
  tag : rule.tag = none

structure Program.Placed (p : Program) (program : Parlance.Program) : Prop where
  rules : List.Forall₂ Rule.Placed p.rules program.rules
  main : List.Forall₂ Stmt.Placed p.main program.main

end Core
end Parlance
