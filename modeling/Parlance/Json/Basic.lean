import Parlance.Number

/-!
# JSON Documents

The tree of a JSON document. Objects keep the order of their fields. Numbers
keep the difference between whole and binary64 numbers that their spelling
makes, so `1` and `1.0` are different documents.
-/

namespace Parlance

inductive Json where
  | null
  | bool (value : Bool)
  | number (value : Number)
  | text (value : String)
  | array (items : List Json)
  | object (fields : List (String × Json))

namespace Json

instance : Inhabited Json := ⟨.null⟩

def int (n : Int) : Json := .number (.int n)

def nat (n : Nat) : Json := .number (.int n)

def optional {α : Type} (f : α → Json) : Option α → Json
  | none => .null
  | some a => f a

mutual

/-- Whether every number of the document can be written out. -/
def isShort : Json → Bool
  | .number n => n.isShort
  | .array items => allShort items
  | .object fields => allFieldsShort fields
  | _ => true

def allShort : List Json → Bool
  | [] => true
  | j :: rest => isShort j && allShort rest

def allFieldsShort : List (String × Json) → Bool
  | [] => true
  | (_, j) :: rest => isShort j && allFieldsShort rest

end

def texts (ss : List String) : Json := .array (ss.map .text)

end Json
end Parlance
