import Parlance.Proofs.Registry

/-!
# Keys Name Patterns

A key is made of words with colons between them: first those of the kind of the pattern, then its
names. Cutting the key at the colons gives the words back as long as no name has a colon of its own, and
the words tell the pattern. The language does not exclude such a name: `when boss dies` waits for the
key `boss:dies`, which is all the name that this pattern has.

## Main definitions

* `Event.SamePattern`: The patterns are of one kind with the same names.
* `Event.kindWords`: The words that the kind of a pattern puts before its names.

## Theorems

* `Event.SamePattern.of_keyWords`: The words of a key tell its pattern: no kind has the words of
  another one with as many names after them.
* `Session.keys_name_patterns`: Two patterns without colons in their names have the same key only
  if they are the same.
* `Session.keys_name_patterns_touches`: Of two scripts the second one replaces the rules of the
  first, and its own are told apart by the second name.
-/

namespace Parlance
namespace Event

def names : Event → List String
  | .touches _ a b | .presses _ a b | .enters _ a b | .leaves _ a b | .combatStart _ a b
  | .combatHit _ a b | .uses _ a b => [a, b]
  | .starts _ a | .clicks _ a | .becomes _ a _ | .combatDefeat _ a | .custom _ a => [a]
  | .condition _ a b _ => [a, b]

def IsColonFree (e : Event) : Prop := ∀ name ∈ e.names, ':' ∉ name.toList

/-- The patterns are of one kind with the same names. Where they stand does not matter, and
    neither does the value that a change is to. -/
inductive SamePattern : Event → Event → Prop
  | starts {p q a} : SamePattern (.starts p a) (.starts q a)
  | touches {p q a b} : SamePattern (.touches p a b) (.touches q a b)
  | presses {p q a b} : SamePattern (.presses p a b) (.presses q a b)
  | clicks {p q a} : SamePattern (.clicks p a) (.clicks q a)
  | enters {p q a b} : SamePattern (.enters p a b) (.enters q a b)
  | leaves {p q a b} : SamePattern (.leaves p a b) (.leaves q a b)
  | becomes {p q a v w} : SamePattern (.becomes p a v) (.becomes q a w)
  | combatStart {p q a b} : SamePattern (.combatStart p a b) (.combatStart q a b)
  | combatHit {p q a b} : SamePattern (.combatHit p a b) (.combatHit q a b)
  | combatDefeat {p q a} : SamePattern (.combatDefeat p a) (.combatDefeat q a)
  | uses {p q a b} : SamePattern (.uses p a b) (.uses q a b)
  | custom {p q a} : SamePattern (.custom p a) (.custom q a)

/-- The words that the kind of a pattern puts before its names. -/
def kindWords : Event → List String
  | .starts _ _ => ["starts"]
  | .touches _ _ _ => ["touches"]
  | .presses _ _ _ => ["presses"]
  | .clicks _ _ => ["clicks"]
  | .enters _ _ _ => ["enters"]
  | .leaves _ _ _ => ["leaves"]
  | .becomes _ _ _ => ["becomes"]
  | .combatStart _ _ _ => ["combat", "start"]
  | .combatHit _ _ _ => ["combat", "hit"]
  | .combatDefeat _ _ => ["combat", "defeat"]
  | .uses _ _ _ => ["uses"]
  | .condition _ _ _ _ | .custom _ _ => []

def keyWords (e : Event) : List (List Char) := (e.kindWords ++ e.names).map String.toList

variable {e e' : Event} {key : String}

theorem toList_key (h : e.key? = some key) : key.toList = [':'].intercalate e.keyWords := by
  cases e with
  | condition pos subject prop comparison => cases h
  | _ =>
    cases h
    simp [keyWords, kindWords, names, List.intercalate]

theorem splitOn_key (h : e.key? = some key) (he : e.IsColonFree) :
    key.toList.splitOn ':' = e.keyWords := by
  rw [toList_key h]
  refine List.splitOn_intercalate ':' (fun word hword => ?_) ?_
  · obtain ⟨text, htext, rfl⟩ := List.mem_map.mp hword
    rcases List.mem_append.mp htext with hkind | hname
    · have hkinds : ∀ text ∈ e.kindWords, ':' ∉ text.toList := by cases e <;> simp [kindWords]
      exact hkinds text hkind
    · exact he text hname
  · cases e <;> simp [keyWords, kindWords, names]

/-- The words of a key tell its pattern: no kind has the words of another one with as many
    names after them. -/
theorem SamePattern.of_keyWords (h : e.keyWords = e'.keyWords) (he : e.isPolled = false)
    (he' : e'.isPolled = false) : e.SamePattern e' := by
  have hwords : e.kindWords ++ e.names = e'.kindWords ++ e'.names :=
    List.map_injective_iff.mpr (fun _ _ => String.toList_inj.mp) h
  cases e <;> cases e' <;> simp_all [kindWords, names, isPolled] <;> constructor

theorem isPolled_of_key (h : e.key? = some key) : e.isPolled = false := by
  rw [← Bool.not_eq_true, ← key?_eq_none_iff, h]
  exact nofun

theorem SamePattern.key?_eq (h : e.SamePattern e') : e.key? = e'.key? := by
  cases h <;> rfl

theorem SamePattern.of_key (h : e.key? = some key) (h' : e'.key? = some key)
    (he : e.IsColonFree) (he' : e'.IsColonFree) : e.SamePattern e' :=
  .of_keyWords ((splitOn_key h he).symm.trans (splitOn_key h' he')) (isPolled_of_key h)
    (isPolled_of_key h')

end Event

namespace Session
open Run

/-- Two patterns without colons in their names have the same key only if they are the same. So
    whatever has been done to a session, an occurrence of a pattern fires the rules of the
    session with that pattern, and no others, as long as their names have no colons. -/
theorem keys_name_patterns (e : Event) (key : String) (hkey : e.key? = some key)
    (he : e.IsColonFree) :
    (∀ e' : Event, e'.IsColonFree → (e'.key? = some key ↔ e'.SamePattern e)) ∧
    ∀ (n : Nat) (options : Options) (hosts : Hosts) (ops : List Operation),
      let s := Operation.afterAll (.ofDepth n) { options, hosts } ops
      let rules := ops.foldl Operation.rules []
      (∀ r ∈ rules, r.event.IsColonFree) →
      ∀ r, r ∈ rulesFor s key ↔ r ∈ rules ∧ r.event.SamePattern e := by
  have hpattern (e' : Event) (he' : e'.IsColonFree) : e'.key? = some key ↔ e'.SamePattern e :=
    ⟨fun h => .of_key h hkey he' he, fun h => h.key?_eq.trans hkey⟩
  refine ⟨hpattern, fun n options hosts ops => ?_⟩
  intro s rules hrules r
  have hempty : Frame.Files { options, hosts : Session }.frame [] :=
    ⟨fun _ => rfl, List.nodup_nil, rfl⟩
  have hfiles : s.frame.Files rules := hempty.afterAll n ops
  have hget : s.eventRules.get? key = filed (bucket key rules) := hfiles.get? key
  rw [rulesFor, hget, getD_filed, bucket, List.mem_filter, beq_iff_eq]
  exact and_congr_right fun hr => hpattern r.event (hrules r hr)

set_option maxRecDepth 4000 in
/-- Of two scripts the second one replaces the rules of the first, and its own are told apart
    by the second name. -/
theorem keys_name_patterns_touches :
    let script := "when hero touches coin then\nend\nwhen hero touches wall then\nend"
    let s := Operation.afterAll .full {} [.load "when hero touches coin then\nend", .load script]
    let coin : Event := .touches .start "hero" "coin"
    coin.IsColonFree ∧ (rulesFor s "touches:hero:coin").length = 1 ∧
      ∀ r ∈ rulesFor s "touches:hero:coin", r.event.SamePattern coin := by
  intro script s coin
  have hcoin : coin.IsColonFree := by unfold Event.IsColonFree; decide
  have hrules : ∀ r ∈ [Operation.load "when hero touches coin then\nend", .load script].foldl
      Operation.rules [], r.event.IsColonFree := by
    unfold Event.IsColonFree
    decide
  have hfires := (keys_name_patterns coin "touches:hero:coin" (by decide) hcoin).2
    Linker.maxDepth {} {} _ hrules
  exact ⟨hcoin, by decide, fun r hr => ((hfires r).mp hr).2⟩

end Session
end Parlance
