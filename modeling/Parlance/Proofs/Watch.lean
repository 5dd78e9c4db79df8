import Parlance.Proofs.AlikeExec

/-!
# Watching a Run

A watch allows every statement and asks for a property of the frame wherever a
block begins. A linker that does as it should only where the property holds, and
anything at all elsewhere, can then not be told from the true one: no block ever
begins where the property fails. Saying it this way needs no list of the places a
run comes by.

## Main definitions

* `Regime.Watchable`: The property stays true from a statement to a block that begins in a call,
  in a module or in a request.
* `Regime.watching`: All statements may run, and the property holds wherever one does.
* `Linker.AgreesWhere`: The linker follows names to the depth wherever a block begins with the
  property, and does anything elsewhere.
* `Linker.Within`: Every block that the computation comes by begins with the property: what a
  linker does elsewhere makes no difference.

## Theorems

* `Linker.alike_agreesWhere`: A linker that agrees where the property holds goes like the true
  one, by induction on the depth.
-/

namespace Parlance
open Run

namespace Regime

/-- The property stays true from a statement to a block that begins in a call, in a
    module or in a request. -/
class Watchable (P : Session.Frame → Prop) : Prop where
  call : ∀ s : Session, P s.frame → s.depth < maxDepth → P s.enter.frame
  module : ∀ (s : Session) file isolated, P s.frame → P (s.enterModule file isolated).frame
  request : ∀ (s : Session) r, P s.frame → P { s with inRequest := true, response := r }.frame

/-- All statements may run, and the property holds wherever one does. -/
def watching (P : Session.Frame → Prop) : Regime where
  allowed _ := True
  reached _ := True
  here := P
  inside := P
  ends := False
  spared _ := False

variable {P : Session.Frame → Prop} [hP : Watchable P]

theorem open_watching : (watching P).Open :=
  ⟨fun _ => trivial, fun _ => id, hP.module, hP.request⟩

instance : (watching P).Free := ⟨fun _ _ => trivial⟩

instance : (watching P).Lawful :=
  ⟨hP.call, fun _ hf _ => open_watching.arms hf, fun _ _ _ => .inl open_watching, fun _ => id,
    fun _ _ _ => nofun⟩

instance : Watchable fun _ => True :=
  ⟨fun _ _ _ => trivial, fun _ _ _ _ => trivial, fun _ _ _ => trivial⟩

instance {n : Nat} : Watchable fun f => f.depth ≤ max n maxDepth where
  call _ _ hlt := Nat.le_trans hlt (Nat.le_max_right n maxDepth)
  module _ _ _ h := h
  request _ _ h := h

end Regime

theorem Run.Alike.same_frame {P : Session.Frame → Prop} {α : Type} {x x' : Run α} {s : Session}
    (h : Alike (.watching P) false x x') (hs : P s.frame) :
    x'.run s = x.run s ∧ (x.run s).2.frame = s.frame := by
  obtain ⟨hsame, hkept, -, -⟩ := h.run s hs (.of_forall (fun _ => trivial) _)
  exact ⟨hsame, hkept.frame⟩

namespace Linker

/-- The linker follows names to the depth wherever a block begins with the
    property, and does anything elsewhere. -/
def AgreesWhere (P : Session.Frame → Prop) : Nat → Linker → Prop
  | 0, L => ∀ stmts (s : Session), P s.frame → (L.block stmts).run s = (.error .exhausted, s)
  | n + 1, L => ∃ M, AgreesWhere P n M ∧
    ∀ stmts (s : Session), P s.frame → (L.block stmts).run s = (execBlock M stmts).run s

theorem agreesWhere_ofDepth (P : Session.Frame → Prop) (n : Nat) : AgreesWhere P n (ofDepth n) := by
  induction n with
  | zero => exact fun _ _ _ => rfl
  | succ n ih => exact ⟨ofDepth n, ih, fun _ _ _ => rfl⟩

/-- A linker that agrees where the property holds goes like the true one, by
    induction on the depth. -/
theorem alike_agreesWhere {P : Session.Frame → Prop} [Regime.Watchable P] {n : Nat} {L : Linker}
    (h : AgreesWhere P n L) : Linker.Alike (.watching P) (ofDepth n) L := by
  induction n generalizing L with
  | zero =>
    refine ⟨fun stmts _ s hs _ => ⟨h stmts s hs, .refl, False.elim, .refl⟩⟩
  | succ n ih =>
    obtain ⟨M, hM, hL⟩ := h
    -- The property holds inside, so the block is run by `M`, which goes like `ofDepth n`.
    have := ih hM
    refine ⟨fun stmts hstmts s hs hbodies => ?_⟩
    have hblock : Run.Alike (.watching P) false (execBlock (ofDepth n) stmts)
        (execBlock M stmts) := alike_execBlock stmts hstmts
    obtain ⟨hsame, hkept, hends, hleads⟩ := hblock.run s hs hbodies
    exact ⟨(hL stmts s hs).trans hsame, hkept, hends, hleads⟩

instance alike_ofDepth {P : Session.Frame → Prop} [Regime.Watchable P] {n : Nat} :
    Linker.Alike (.watching P) (ofDepth n) (ofDepth n) :=
  alike_agreesWhere (agreesWhere_ofDepth P n)

/-- Every block that the computation comes by begins with the property: what a
    linker does elsewhere makes no difference. -/
def Within {α : Type} (P : Session.Frame → Prop) (n : Nat) (x : Linker → Run α) (s : Session) :
    Prop :=
  ∀ L, AgreesWhere P n L → (x L).run s = (x (ofDepth n)).run s

theorem within_exec {P : Session.Frame → Prop} [Regime.Watchable P] (n : Nat) (st : Stmt)
    {s : Session} (hs : P s.frame) : Within P n (exec · st) s := by
  intro L hL
  have := alike_agreesWhere hL
  have hexec : Run.Alike (.watching P) false (exec (ofDepth n) st) (exec L st) :=
    alike_exec st fun _ _ => trivial
  exact (hexec.same_frame hs).1

theorem frame_exec (n : Nat) (st : Stmt) (s : Session) :
    ((exec (ofDepth n) st).run s).2.frame = s.frame := by
  have hexec : Run.Alike (.watching fun _ => True) false (exec (ofDepth n) st)
      (exec (ofDepth n) st) := alike_exec st fun _ _ => trivial
  exact (hexec.same_frame trivial).2

end Linker
end Parlance
