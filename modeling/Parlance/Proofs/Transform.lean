import Parlance.Proofs.Arithmetic
import Parlance.Proofs.OutOfRange
import Parlance.Proofs.ResultName

/-!
# The Two Forms of `transform`

The value that `transform` makes of each item stands before the name of the result, or
below it as a body with `end` behind it. Nothing in front tells the two apart: a name can be
a value. So the first form is tried, and when no `into` follows its value, the cursor goes
back to where the value began. Both forms are read as the same command.

## Main definitions

* `Core.valueThenName`: The form with the value before the name of the result.
* `Core.nameThenValue`: The form with the value as a body below the name of the result.
* `Core.Transforms`: The statement is the transformation, with its parts placed anywhere.

## Theorems

* `Reader.ReadsOn.trial_none`: A trial without a result gives its tokens back.
* `Core.reads_nameThenValue`: The name of the result is taken for a value, and given back because
  no `into` follows.
* `Core.reads_transform`: The words before the two forms.
* `Core.ofSource_transform`: `transform A with I into E into O` and `transform A with I into O
  then E end` are read to the end and without a fault, as one statement up to positions.
-/

namespace Parlance
open Token Arithmetic Opener Program

namespace Reader
variable {α : Type} {r : Reader (Option α)} {fs gs : List Face}

theorem run_trial {c c' : Cursor} {o : Option α} (h : r.run c = (.ok o, c')) :
    (rewindIf Option.isNone (Option.join <$> tryRead r)).run c =
      (.ok o, if o.isNone then { c' with index := c.index } else c') := by
  rw [run_rewindIf, run_map, run_tryRead, h]
  rfl

theorem ReadsOn.trial_some {P : α → Prop} (h : Reads r fs gs (fun o => ∃ a, o = some a ∧ P a)) :
    Reads (rewindIf Option.isNone (Option.join <$> tryRead r)) fs gs
      (fun o => ∃ a, o = some a ∧ P a) := by
  intro c hT hc
  obtain ⟨_, c', hrun, htokens, hfaces, hfaults, a, rfl, ha⟩ := h c hT hc
  exact ⟨some a, c', run_trial hrun, htokens, hfaces, hfaults, a, rfl, ha⟩

/-- A trial without a result gives its tokens back. -/
theorem ReadsOn.trial_none (h : Reads r fs gs (fun o => o = none)) :
    Reads (rewindIf Option.isNone (Option.join <$> tryRead r)) fs fs (fun o => o = none) := by
  intro c hT hc
  obtain ⟨_, c', hrun, htokens, -, hfaults, rfl⟩ := h c hT hc
  refine ⟨none, _, run_trial hrun, htokens, ?_, hfaults, rfl⟩
  rw [← hc]
  exact congrArg (fun ts => ((ts.toList.drop c.index).map face)) htokens

end Reader

theorem Arithmetic.Chain.Placed.pair {a b : Operand} {j : Joint} {x : Expr}
    (h : (Chain.mk a [(j, b)]).Placed x) :
    ∃ p y z, x = .binary p j.op y z ∧ a.Placed y ∧ b.Placed z := by
  cases h with
  | @mk _ _ y p ls hy hops hoperands =>
    rcases ls with _ | ⟨⟨_, z⟩, _ | ⟨l, ls⟩⟩ <;> cases hops
    simp only [List.map_cons, List.map_nil, List.forall₂_cons] at hoperands
    exact ⟨p, y, z, rfl, hy, hoperands.1⟩

namespace Core
open Reader
variable {list item out : Plain} {e : Chain}

theorem Plain.not_contains_known (w : Plain) {ws : List String}
    (h : ∀ x ∈ ws, x ∈ Grammar.literals ∨ excluded x = true) : ws.contains w.text = false := by
  rw [List.contains_eq_mem, decide_eq_false_iff_not]
  exact fun hw => (h _ hw).elim w.free fun hx =>
    Identifier.ne_of_excluded ⟨w.toWord, w.identifier⟩ hx rfl

/-- The form with the value before the name of the result. -/
def valueThenName (e : Chain) (out : Plain) : List Face :=
  e.faces ++ [intoFace, out.face, (.finish, .none)]

/-- The form with the value as a body below the name of the result. -/
def nameThenValue (e : Chain) (out : Plain) : List Face :=
  out.face :: (.keyword, .text "then") :: (e.faces ++ [endFace, (.finish, .none)])

def transformFaces (list item : Plain) (form : List Face) : List Face :=
  (.action, .text "transform") :: list.face :: (.preposition, .text "with") :: item.face
    :: intoFace :: form

/-- The statement is the transformation, with its parts placed anywhere. -/
def Transforms (list item : Plain) (e : Chain) (out : Plain) (s : Parlance.Stmt) : Prop :=
  ∃ p x, s = .command p (.collection (.transform list.text item.text x out.text)) ∧ e.Placed x

theorem reads_valueThenName (p : Position) :
    Reads (transformTo p list.text item.text) (valueThenName e out) [(.finish, .none)]
      (fun o => ∃ s, o = some s ∧ Transforms list item e out s) := by
  have hinline : Reads transformInline (valueThenName e out) [(.finish, .none)]
      (fun o => ∃ x, o = some x ∧ x.2 = out.text ∧ e.Placed x.1) := by
    refine (e.reads_value (by rfl)).bind fun x hx => .take rfl ?_
    refine (reads_name (by decide) (.inl rfl)).bind fun s hs => ?_
    exact .pure ⟨(x, s), rfl, hs, hx⟩
  refine (ReadsOn.trial_some hinline).bind ?_
  rintro _ ⟨⟨x, _⟩, rfl, rfl, hx⟩
  exact .pure ⟨_, rfl, p, x, rfl, hx⟩

/-- The name of the result is taken for a value, and given back because no `into` follows. -/
theorem reads_nameThenValue (p : Position) :
    Reads (transformTo p list.text item.text) (nameThenValue e out) [(.finish, .none)]
      (fun o => ∃ s, o = some s ∧ Transforms list item e out s) := by
  have hinline : Reads transformInline (nameThenValue e out)
      ((.keyword, .text "then") :: (e.faces ++ [endFace, (.finish, .none)]))
      (fun o => o = none) := by
    have hname := namesVariable_identifier ⟨out.toWord, out.identifier⟩
    refine (Chain.reads_value (.mk (.name _ hname) []) (by rfl)).bind fun x _ => ?_
    exact .leave rfl (.pure rfl)
  refine (ReadsOn.trial_none hinline).bind ?_
  rintro _ rfl
  refine (reads_name (by decide) (.inr rfl)).bind fun s hs => .passTake rfl ?_
  refine (e.reads_value (by rfl)).bind fun x hx => .passTake rfl (.pure ?_)
  rw [hs]
  exact ⟨_, rfl, p, x, rfl, hx⟩

/-- The words before the two forms. -/
theorem reads_transform {nest : Nest} {form gs : List Face} {P : Option Parlance.Stmt → Prop}
    (hform : ∀ p, Reads (transformTo p list.text item.text) form gs P) :
    Reads (statementOf nest) (transformFaces list item form) gs P := by
  refine reads_statementOf (o := transform) rfl rfl fun p => ?_
  refine (reads_name_of (list.not_contains_known (by decide)) (.inr rfl)).bind fun _ hlist =>
    .passTake rfl (.passLeave (item.not_contains_known (by decide)) ?_)
  refine (reads_name (by decide) (.inr rfl)).bind fun _ hitem => .passTake rfl ?_
  rw [hlist, hitem]
  exact hform p

theorem ofSource_of_transform {source : String} {form : List Face}
    (hsource : (scan source).map face = transformFaces list item form)
    (hform : ∀ p, Reads (transformTo p list.text item.text) form [(.finish, .none)]
      (fun o => ∃ s, o = some s ∧ Transforms list item e out s)) :
    ∃ s, ofSource source = ⟨.ok ⟨[], [s]⟩, []⟩ ∧ Transforms list item e out s := by
  have hfaces : (Cursor.ofTokens (scan source)).faces = transformFaces list item form := by
    rw [← hsource, Cursor.faces, Cursor.ofTokens, closed_scan_eq]
    rfl
  exact ofSource_of_statement hfaces (by decide) fun n _ => reads_transform hform _ trivial hfaces

/-- `transform A with I into E into O` and `transform A with I into O then E end` are read to
    the end and without a fault, as one statement up to positions. -/
theorem ofSource_transform (list item out : Plain) (e : Chain) (inline body : String)
    (hinline : (scan inline).map face = transformFaces list item (valueThenName e out))
    (hbody : (scan body).map face = transformFaces list item (nameThenValue e out)) :
    ∃ s t, ofSource inline = ⟨.ok ⟨[], [s]⟩, []⟩ ∧ ofSource body = ⟨.ok ⟨[], [t]⟩, []⟩ ∧
      Transforms list item e out s ∧ Transforms list item e out t := by
  obtain ⟨s, hs, hsame⟩ := ofSource_of_transform hinline reads_valueThenName
  obtain ⟨t, ht, hsame'⟩ := ofSource_of_transform hbody reads_nameThenValue
  exact ⟨s, t, hs, ht, hsame, hsame'⟩

theorem ofSource_transform_totals : ∃ p p₁ p₂ p₃ q q₁ q₂ q₃,
    ofSource "transform totals with total into total * 2 into doubled" =
      ⟨.ok ⟨[], [.command p (.collection (.transform "totals" "total"
        (.binary p₁ .times (.name p₂ "total") (.number p₃ (.int 2))) "doubled"))]⟩, []⟩ ∧
    ofSource "transform totals with total into doubled then\n  total * 2\nend" =
      ⟨.ok ⟨[], [.command q (.collection (.transform "totals" "total"
        (.binary q₁ .times (.name q₂ "total") (.number q₃ (.int 2))) "doubled"))]⟩, []⟩ := by
  obtain ⟨_, _, hs, ht, ⟨p, x, rfl, hx⟩, q, y, rfl, hy⟩ := ofSource_transform
    ⟨⟨"totals", by decide⟩, by decide, by decide⟩ ⟨⟨"total", by decide⟩, by decide, by decide⟩
    ⟨⟨"doubled", by decide⟩, by decide, by decide⟩
    (.mk (.name (.identifier, .text "total") (by decide)) [(.sign .times, .number (.int 2))])
    "transform totals with total into total * 2 into doubled"
    "transform totals with total into doubled then\n  total * 2\nend" (by decide) (by decide)
  obtain ⟨p₁, _, _, rfl, h₁, h₂⟩ := hx.pair
  obtain ⟨q₁, _, _, rfl, h₁', h₂'⟩ := hy.pair
  cases h₁
  cases h₂
  cases h₁'
  cases h₂'
  exact ⟨p, p₁, _, _, q, q₁, _, _, hs, ht⟩

end Core
end Parlance
