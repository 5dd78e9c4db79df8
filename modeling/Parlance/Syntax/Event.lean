import Parlance.Syntax.Condition

/-!
# Event Patterns

What a rule waits for. All patterns but one have a key, and an occurrence of
the key fires the rule. The remaining one, a condition on a property, is polled
instead.
-/

namespace Parlance

/-- What a rule waits for. -/
inductive Event where
  | starts (pos : Position) (subject : String)
  | touches (pos : Position) (subject object : String)
  | presses (pos : Position) (subject key : String)
  | clicks (pos : Position) (subject : String)
  | enters (pos : Position) (subject zone : String)
  | leaves (pos : Position) (subject zone : String)
  | becomes (pos : Position) (subject : String) (value : Expr)
  | combatStart (pos : Position) (attacker defender : String)
  | combatHit (pos : Position) (attacker defender : String)
  | combatDefeat (pos : Position) (entity : String)
  | uses (pos : Position) (subject item : String)
  | condition (pos : Position) (subject prop : String) (comparison : Comparison)
  | custom (pos : Position) (name : String)

namespace Event

def position : Event → Position
  | .starts p _ | .touches p _ _ | .presses p _ _ | .clicks p _ | .enters p _ _ | .leaves p _ _
  | .becomes p _ _ | .combatStart p _ _ | .combatHit p _ _ | .combatDefeat p _ | .uses p _ _
  | .condition p _ _ _ | .custom p _ => p

def key? : Event → Option String
  | .starts _ subject => some ("starts:" ++ subject)
  | .touches _ subject object => some ("touches:" ++ subject ++ ":" ++ object)
  | .presses _ subject key => some ("presses:" ++ subject ++ ":" ++ key)
  | .clicks _ subject => some ("clicks:" ++ subject)
  | .enters _ subject zone => some ("enters:" ++ subject ++ ":" ++ zone)
  | .leaves _ subject zone => some ("leaves:" ++ subject ++ ":" ++ zone)
  | .becomes _ subject _ => some ("becomes:" ++ subject)
  | .combatStart _ attacker defender => some ("combat:start:" ++ attacker ++ ":" ++ defender)
  | .combatHit _ attacker defender => some ("combat:hit:" ++ attacker ++ ":" ++ defender)
  | .combatDefeat _ entity => some ("combat:defeat:" ++ entity)
  | .uses _ subject item => some ("uses:" ++ subject ++ ":" ++ item)
  | .condition _ _ _ _ => none
  | .custom _ name => some name

end Event
end Parlance
