import Parlance.Proofs.AlikeExec

/-!
# Leaving Guarded Blocks

A block may stand inside any number of statements that guard it, each with a handler and
perhaps with a cleanup. When the block has ended, the guards are left from the inside out. A
failure that comes to a guard goes to its handler, with the message in a variable; any other
ending passes the handler by. Then the cleanup runs, whatever the ending. A flow of the cleanup
takes the place of the flow before it, but it stops no signal; a signal of the cleanup takes
the place of every ending.

## Main definitions

* `Guard`: A statement that guards a block: where it begins, the variable for the message of a
  failure, the handler and the cleanup.
* `Guard.Ending`: How a block ends: with a flow or a signal, and in which session.
* `Guard.Ending.placed`: The ending where a failure without a position gets one.
* `Guard.around`: A block inside guards, of which the first is the innermost.
* `Guard.entered`: The session in which a block inside guards begins: it is at the innermost
  guard.

## Theorems

* `Guard.Cleans.propagates`: A cleanup that ends with a flow lets every signal through, and its
  flow takes the place of the flow before it unless it is normal.
* `Guard.Unwinds.propagates`: An ending that is no failure passes every handler by, and while the
  cleanups end with flows it comes through: a signal as it is, a flow unless a cleanup replaced
  it.
* `Guard.unwound_around`: Guarded blocks are left from the inside out: every cleanup runs once,
  after the block and the handler of its guard and whatever they ended with; a failure goes to the
  handler of the first guard it meets; every other ending comes through.
-/

namespace Parlance
open Run

/-- A statement that guards a block: where it begins, the variable for the message of a
    failure, the handler and the cleanup. -/
structure Guard where
  pos : Position
  errorName : String
  handler : List Stmt
  cleanup : Option (List Stmt)

namespace Guard

/-- How a block ends: with a flow or a signal, and in which session. -/
abbrev Ending := Except Signal Flow × Session

/-- The ending where a failure without a position gets one. -/
def Ending.placed (pos : Position) : Ending → Ending
  | (.error (.failure f), s) => (.error (.failure (f.placed pos)), s)
  | e => e

def stmt (g : Guard) (body : List Stmt) : Stmt :=
  .attempt g.pos body g.errorName g.handler g.cleanup

/-- A block inside guards, of which the first is the innermost. -/
def around : List Guard → List Stmt → List Stmt
  | [], body => body
  | g :: rest, body => around rest [g.stmt body]

/-- The session in which a block inside guards begins: it is at the innermost guard. -/
def entered (guards : List Guard) (s : Session) : Session :=
  match guards with
  | [] => s
  | g :: _ => { s with position := some g.pos }

/-- The session in which the handler begins: the failure is logged, and its message is
    in the variable. -/
def caught (g : Guard) (f : Failure) (s : Session) : Session :=
  { s with
    log := s.log.push ⟨.debug, .runtime, "caught: " ++ f.text⟩
    bag := s.bag.insert g.errorName (.text f.message) }

/-! ### Steps -/

/-- A handler or a cleanup of the guard with a number, from the inside out. -/
inductive Part where
  | handler (guard : Nat)
  | cleanup (guard : Nat)
deriving DecidableEq

/-- The place of a part among all parts, from the inside out. The handler of a guard
    comes before its cleanup. -/
def Part.rank : Part → Nat
  | .handler i => 2 * i
  | .cleanup i => 2 * i + 1

def Part.block? (guards : List Guard) : Part → Option (List Stmt)
  | .handler i => guards[i]?.map Guard.handler
  | .cleanup i => guards[i]?.bind Guard.cleanup

/-- The run of a handler or of a cleanup. -/
structure Step where
  part : Part
  before : Session
  ending : Ending

/-- The last flow that is not normal with which a step ended. -/
def lastFlow? (steps : List Step) : Option Flow :=
  (steps.filterMap fun st => match st.ending.1 with
    | .ok .normal => none
    | .ok flow => some flow
    | .error _ => none).getLast?

/-- What the handler of a guard does with an ending: it runs after a failure only. -/
inductive Handles (L : Linker) (g : Guard) (i : Nat) : Ending → List Step → Ending → Prop where
  | caught {f : Failure} {s : Session} {e : Ending} :
    (execBlock L g.handler).run (g.caught f s) = e →
      Handles L g i (.error (.failure f), s) [⟨.handler i, g.caught f s, e⟩] e
  | passed {r : Except Signal Flow} {s : Session} :
    (∀ f, r ≠ .error (.failure f)) → Handles L g i (r, s) [] (r, s)

/-- What the cleanup of a guard does with an ending. -/
inductive Cleans (L : Linker) (g : Guard) (i : Nat) : Ending → List Step → Ending → Prop where
  | none {e : Ending} : g.cleanup = none → Cleans L g i e [] e
  | normal {stmts : List Stmt} {r : Except Signal Flow} {s s' : Session} :
    g.cleanup = some stmts → (execBlock L stmts).run s = (.ok .normal, s') →
      Cleans L g i (r, s) [⟨.cleanup i, s, (.ok .normal, s')⟩] (r, s')
  | replaced {stmts : List Stmt} {flow flow' : Flow} {s s' : Session} :
    g.cleanup = some stmts → flow' ≠ .normal → (execBlock L stmts).run s = (.ok flow', s') →
      Cleans L g i (.ok flow, s) [⟨.cleanup i, s, (.ok flow', s')⟩] (.ok flow', s')
  | propagated {stmts : List Stmt} {signal : Signal} {flow' : Flow} {s s' : Session} :
    g.cleanup = some stmts → flow' ≠ .normal → (execBlock L stmts).run s = (.ok flow', s') →
      Cleans L g i (.error signal, s) [⟨.cleanup i, s, (.ok flow', s')⟩] (.error signal, s')
  | raised {stmts : List Stmt} {r : Except Signal Flow} {signal : Signal} {s s' : Session} :
    g.cleanup = some stmts → (execBlock L stmts).run s = (.error signal, s') →
      Cleans L g i (r, s) [⟨.cleanup i, s, (.error signal, s')⟩] (.error signal, s')

/-- What guards one around the other do with an ending, where the innermost has this
    number. -/
inductive Unwinds (L : Linker) : Nat → List Guard → Ending → List Step → Ending → Prop where
  | done {i : Nat} {e : Ending} : Unwinds L i [] e [] e
  | next {i : Nat} {g : Guard} {rest : List Guard} {e e₁ e₂ e₃ : Ending}
      {handled cleaned steps : List Step} :
    g.Handles L i e handled e₁ → g.Cleans L i e₁ cleaned e₂ →
      Unwinds L (i + 1) rest (e₂.placed g.pos) steps e₃ →
      Unwinds L i (g :: rest) e (handled ++ cleaned ++ steps) e₃

/-! ### One guard -/

variable {L : Linker} {g : Guard} {i : Nat} {e e' e₁ e₂ : Ending} {steps steps' : List Step}
  {guards : List Guard} {st : Step}

theorem run_handled (act handler : Run Flow) (s : Session) :
    (handled act g.errorName handler).run s = match act.run s with
      | (.error (.failure f), s') => handler.run (g.caught f s')
      | ending => ending := by
  rw [handled, run_bind, run_attempt]
  rcases act.run s with ⟨(f | n | d | _) | a, s'⟩ <;> rfl

theorem exists_handles (L : Linker) (g : Guard) (i : Nat) (act : Run Flow) (s : Session) :
    ∃ steps, g.Handles L i (act.run s) steps
      ((handled act g.errorName (execBlock L g.handler)).run s) := by
  rw [run_handled]
  rcases act.run s with ⟨(f | n | d | _) | a, s'⟩
  · exact ⟨_, .caught rfl⟩
  all_goals exact ⟨_, .passed nofun⟩

theorem run_cleaned_of_ne {act cleanup : Run Flow} {s s' : Session} {flow : Flow}
    (hflow : flow ≠ .normal) (h : cleanup.run (act.run s).2 = (.ok flow, s')) :
    (cleaned act cleanup).run s = ((act.run s).1.map fun _ => flow, s') := by
  rw [run_cleaned, h]
  cases flow with
  | normal => exact absurd rfl hflow
  | _ => rfl

theorem exists_cleans (L : Linker) {g : Guard} (i : Nat) {stmts : List Stmt}
    (hg : g.cleanup = some stmts) (act : Run Flow) (s : Session) :
    ∃ steps, g.Cleans L i (act.run s) steps ((cleaned act (execBlock L stmts)).run s) := by
  rcases hc : (execBlock L stmts).run (act.run s).2 with ⟨signal | flow, s₂⟩
  · rw [run_cleaned, hc]
    exact ⟨_, .raised hg hc⟩
  · by_cases hflow : flow = .normal
    · subst hflow
      rw [run_cleaned, hc]
      exact ⟨_, .normal hg hc⟩
    -- A flow that is not normal meets a flow or a signal.
    · rw [run_cleaned_of_ne hflow hc]
      revert hc
      rcases act.run s with ⟨signal | flow₀, s₁⟩
      · exact fun hc => ⟨_, .propagated hg hflow hc⟩
      · exact fun hc => ⟨_, .replaced hg hflow hc⟩

theorem run_placing_eq (pos : Position) (act : Run Flow) (s : Session) :
    (placing pos act).run s = Ending.placed pos (act.run { s with position := some pos }) := by
  rw [run_placing]
  rcases act.run { s with position := some pos } with ⟨(f | n | d | _) | a, s'⟩ <;> rfl

theorem run_execBlock_singleton (L : Linker) (st : Stmt) (s : Session) :
    (execBlock L [st]).run s = (exec L st).run s := by
  rw [execBlock, run_bind]
  rcases (exec L st).run s with ⟨e | (_ | _ | _ | v), s'⟩ <;> rfl

theorem run_singleton (L : Linker) (g : Guard) (i : Nat) (body : List Stmt) (s : Session) :
    ∃ handled cleaned e₁ e₂,
      g.Handles L i ((execBlock L body).run { s with position := some g.pos }) handled e₁ ∧
      g.Cleans L i e₁ cleaned e₂ ∧
      (execBlock L [g.stmt body]).run s = e₂.placed g.pos := by
  obtain ⟨hs, hhandles⟩ := exists_handles L g i (execBlock L body) { s with position := some g.pos }
  rw [run_execBlock_singleton, stmt, exec]
  cases hg : g.cleanup with
  | none => exact ⟨hs, [], _, _, hhandles, .none hg, run_placing_eq _ _ s⟩
  | some stmts =>
    obtain ⟨cs, hcleans⟩ := exists_cleans L i hg
      (handled (execBlock L body) g.errorName (execBlock L g.handler))
      { s with position := some g.pos }
    exact ⟨hs, cs, _, _, hhandles, hcleans, run_placing_eq _ _ s⟩

/-! ### The rules leave no choice -/

theorem Handles.unique (h : g.Handles L i e steps e₁) (h' : g.Handles L i e steps' e₂) :
    steps' = steps ∧ e₂ = e₁ := by
  cases h with
  | caught hrun =>
    cases h' with
    | caught hrun' =>
      subst hrun hrun'
      exact ⟨rfl, rfl⟩
    | passed hpass => exact absurd rfl (hpass _)
  | passed hpass =>
    cases h' with
    | caught _ => exact absurd rfl (hpass _)
    | passed _ => exact ⟨rfl, rfl⟩

theorem Cleans.inv (h : g.Cleans L i e steps e₁) :
    (g.cleanup = Option.none ∧ steps = [] ∧ e₁ = e) ∨
    ∃ stmts, g.cleanup = some stmts ∧ steps = [⟨.cleanup i, e.2, (execBlock L stmts).run e.2⟩] ∧
      e₁.2 = ((execBlock L stmts).run e.2).2 ∧
      e₁.1 = match ((execBlock L stmts).run e.2).1 with
        | .error signal => .error signal
        | .ok .normal => e.1
        | .ok flow => e.1.map fun _ => flow := by
  cases h with
  | none hg => exact .inl ⟨hg, rfl, rfl⟩
  | normal hg hrun | raised hg hrun =>
    refine .inr ⟨_, hg, ?_⟩
    rw [hrun]
    exact ⟨rfl, rfl, rfl⟩
  | @replaced _ _ flow' _ _ hg hflow hrun | @propagated _ _ flow' _ _ hg hflow hrun =>
    refine .inr ⟨_, hg, ?_⟩
    rw [hrun]
    refine ⟨rfl, rfl, ?_⟩
    cases flow' with
    | normal => exact absurd rfl hflow
    | _ => rfl

theorem Cleans.unique (h : g.Cleans L i e steps e₁) (h' : g.Cleans L i e steps' e₂) :
    steps' = steps ∧ e₂ = e₁ := by
  rcases h.inv with ⟨hg, rfl, rfl⟩ | ⟨stmts, hg, rfl, hs, hr⟩
  · rcases h'.inv with ⟨-, rfl, rfl⟩ | ⟨stmts', hg', -⟩
    · exact ⟨rfl, rfl⟩
    · rw [hg] at hg'
      cases hg'
  · rcases h'.inv with ⟨hg', -⟩ | ⟨stmts', hg', rfl, hs', hr'⟩
    · rw [hg] at hg'
      cases hg'
    · rw [hg] at hg'
      cases hg'
      exact ⟨rfl, Prod.ext (hr'.trans hr.symm) (hs'.trans hs.symm)⟩

theorem Unwinds.unique (h : Unwinds L i guards e steps e₁) (h' : Unwinds L i guards e steps' e₂) :
    steps' = steps ∧ e₂ = e₁ := by
  induction h generalizing steps' e₂ with
  | done =>
    cases h'
    exact ⟨rfl, rfl⟩
  | next hhandles hcleans _ ih =>
    cases h' with
    | next hhandles' hcleans' hrest' =>
      obtain ⟨rfl, rfl⟩ := hhandles.unique hhandles'
      obtain ⟨rfl, rfl⟩ := hcleans.unique hcleans'
      obtain ⟨rfl, rfl⟩ := ih hrest'
      exact ⟨rfl, rfl⟩

/-! ### What the steps are -/

theorem Handles.mem (h : g.Handles L i e steps e₁) (hst : st ∈ steps) :
    st.part = .handler i ∧ st.ending = (execBlock L g.handler).run st.before := by
  cases h with
  | caught hrun =>
    obtain rfl := List.mem_singleton.mp hst
    exact ⟨rfl, hrun.symm⟩
  | passed _ => cases hst

theorem Cleans.mem (h : g.Cleans L i e steps e₁) (hst : st ∈ steps) : st.part = .cleanup i ∧
      ∃ stmts, g.cleanup = some stmts ∧ st.ending = (execBlock L stmts).run st.before := by
  rcases h.inv with ⟨-, rfl, -⟩ | ⟨stmts, hg, rfl, -⟩
  · cases hst
  · obtain rfl := List.mem_singleton.mp hst
    exact ⟨rfl, stmts, hg, rfl⟩

theorem Unwinds.genuine (h : Unwinds L i guards e steps e') (hst : st ∈ steps) :
    ∃ k stmts, (st.part = .handler (i + k) ∧ (Part.handler k).block? guards = some stmts ∨
        st.part = .cleanup (i + k) ∧ (Part.cleanup k).block? guards = some stmts) ∧
      st.ending = (execBlock L stmts).run st.before := by
  induction h with
  | done => cases hst
  | next hhandles hcleans _ ih =>
    rcases List.mem_append.mp hst with hst | hst
    · rcases List.mem_append.mp hst with hst | hst
      · obtain ⟨hpart, hrun⟩ := hhandles.mem hst
        exact ⟨0, _, .inl ⟨hpart, rfl⟩, hrun⟩
      · obtain ⟨hpart, stmts, hg, hrun⟩ := hcleans.mem hst
        exact ⟨0, stmts, .inr ⟨hpart, hg⟩, hrun⟩
    -- The guards further out are numbered from one on.
    · obtain ⟨k, stmts, hpart, hrun⟩ := ih hst
      rw [Nat.add_right_comm] at hpart
      exact ⟨k + 1, stmts, hpart, hrun⟩

theorem Unwinds.ordered (h : Unwinds L i guards e steps e') :
    steps.Pairwise (·.part.rank < ·.part.rank) ∧ ∀ st ∈ steps, 2 * i ≤ st.part.rank := by
  induction h with
  | done => exact ⟨.nil, fun _ hst => absurd hst List.not_mem_nil⟩
  | @next i _ _ _ _ _ _ handled cleaned steps hhandles hcleans _ ih =>
    obtain ⟨hsorted, hbound⟩ := ih
    have hhandled : ∀ st ∈ handled, st.part.rank = 2 * i := fun st hst => by
      rw [(hhandles.mem hst).1, Part.rank]
    have hcleaned : ∀ st ∈ cleaned, st.part.rank = 2 * i + 1 := fun st hst => by
      rw [(hcleans.mem hst).1, Part.rank]
    have hone : handled.Pairwise (·.part.rank < ·.part.rank) := by
      cases hhandles with
      | caught _ => exact List.pairwise_singleton _ _
      | passed _ => exact .nil
    have hone' : cleaned.Pairwise (·.part.rank < ·.part.rank) := by
      rcases hcleans.inv with ⟨-, rfl, -⟩ | ⟨stmts, -, rfl, -⟩
      · exact .nil
      · exact List.pairwise_singleton _ _
    simp only [List.pairwise_append, List.mem_append]
    refine ⟨⟨⟨hone, hone', fun st hst st' hst' => ?_⟩, hsorted, fun st hst st' hst' => ?_⟩,
      fun st hst => ?_⟩
    · rw [hhandled st hst, hcleaned st' hst']
      exact Nat.lt_succ_self _
    · have := hbound st' hst'
      rcases hst with hst | hst
      · rw [hhandled st hst]
        omega
      · rw [hcleaned st hst]
        omega
    · rcases hst with (hst | hst) | hst
      · exact Nat.le_of_eq (hhandled st hst).symm
      · rw [hcleaned st hst]
        omega
      · have := hbound st hst
        omega

theorem Unwinds.cleanup_mem_iff (h : Unwinds L i guards e steps e') (k : Nat) :
    (∃ st ∈ steps, st.part = .cleanup (i + k)) ↔ ((Part.cleanup k).block? guards).isSome := by
  induction h generalizing k with
  | done => simp [Part.block?]
  | @next i g rest _ _ _ _ handled cleaned steps hhandles hcleans hrest ih =>
    have hnot : ∀ st ∈ handled, ∀ j, st.part ≠ .cleanup j := fun st hst j hj => by
      rw [(hhandles.mem hst).1] at hj
      cases hj
    cases k with
    | zero =>
      have hlater : ∀ st ∈ steps, st.part ≠ .cleanup i := fun st hst hi => by
        have := hrest.ordered.2 st hst
        rw [hi, Part.rank] at this
        omega
      rcases hcleans.inv with ⟨hg, rfl, -⟩ | ⟨stmts, hg, rfl, -⟩
      · refine iff_of_false (fun ⟨st, hst, hi⟩ => ?_) (by simp [Part.block?, hg])
        rw [List.append_nil] at hst
        rcases List.mem_append.mp hst with hst | hst
        · exact hnot st hst _ hi
        · exact hlater st hst hi
      · exact iff_of_true ⟨_, List.mem_append_left _ (List.mem_append_right _
          (List.mem_singleton_self _)), rfl⟩ (by simp [Part.block?, hg])
    | succ k =>
      have hhere : ∀ st ∈ cleaned, st.part ≠ .cleanup (i + (k + 1)) := fun st hst hi => by
        rw [(hcleans.mem hst).1] at hi
        cases hi
      have hiff := ih k
      rw [Nat.add_right_comm, Nat.add_assoc] at hiff
      refine Iff.trans ⟨fun ⟨st, hst, hi⟩ => ⟨st, ?_, hi⟩, fun ⟨st, hst, hi⟩ => ⟨st, ?_, hi⟩⟩ hiff
      · rcases List.mem_append.mp hst with hst | hst
        · rcases List.mem_append.mp hst with hst | hst
          · exact absurd hi (hnot st hst _)
          · exact absurd hi (hhere st hst)
        · exact hst
      · exact List.mem_append_right _ hst

theorem Handles.mem_iff (h : g.Handles L i e steps e₁) (st : Step) :
    st ∈ steps ↔ ∃ f s, e = (.error (.failure f), s) ∧
      st = ⟨.handler i, g.caught f s, (execBlock L g.handler).run (g.caught f s)⟩ := by
  cases h with
  | @caught f s _ hrun =>
    subst hrun
    refine List.mem_singleton.trans ⟨fun hst => ⟨f, s, rfl, hst⟩, ?_⟩
    rintro ⟨f', s', he, rfl⟩
    cases he
    rfl
  | passed hpass =>
    refine iff_of_false List.not_mem_nil ?_
    rintro ⟨f, s, he, -⟩
    exact hpass f (congrArg Prod.fst he)

theorem Unwinds.handler_mem_iff {g : Guard} {rest : List Guard}
    (h : Unwinds L i (g :: rest) e steps e') (st : Step) :
    st ∈ steps ∧ st.part = .handler i ↔ ∃ f s, e = (.error (.failure f), s) ∧
      st = ⟨.handler i, g.caught f s, (execBlock L g.handler).run (g.caught f s)⟩ := by
  cases h with
  | next hhandles hcleans hrest =>
    rw [← hhandles.mem_iff]
    refine ⟨fun ⟨hst, hi⟩ => ?_, fun hst => ⟨?_, (hhandles.mem hst).1⟩⟩
    · rcases List.mem_append.mp hst with hst | hst
      · refine (List.mem_append.mp hst).resolve_right fun hst => ?_
        rw [(hcleans.mem hst).1] at hi
        cases hi
      · have := hrest.ordered.2 st hst
        rw [hi, Part.rank] at this
        omega
    · exact List.mem_append_left _ (List.mem_append_left _ hst)

/-! ### Endings that come through -/

theorem lastFlow?_append (steps steps' : List Step) :
    lastFlow? (steps ++ steps') = (lastFlow? steps').or (lastFlow? steps) := by
  rw [lastFlow?, List.filterMap_append, List.getLast?_append]
  rfl

/-- A cleanup that ends with a flow lets every signal through, and its flow takes the place
    of the flow before it unless it is normal. -/
theorem Cleans.propagates (h : g.Cleans L i e steps e₁)
    (hflow : ∀ st ∈ steps, ∃ flow, st.ending.1 = .ok flow) :
    e₁.1 = e.1.map fun flow => (lastFlow? steps).getD flow := by
  rcases h.inv with ⟨-, rfl, rfl⟩ | ⟨stmts, -, rfl, -, hr⟩
  · rcases e₁.1 with signal | flow <;> rfl
  · obtain ⟨flow, hf⟩ := hflow _ (List.mem_singleton_self _)
    rw [hr]
    simp only [lastFlow?, List.filterMap_cons, List.filterMap_nil] at hf ⊢
    rw [hf]
    cases flow with
    | normal => rcases e.1 with signal | flow <;> rfl
    | _ => rfl

/-- An ending that is no failure passes every handler by, and while the cleanups end with
    flows it comes through: a signal as it is, a flow unless a cleanup replaced it. -/
theorem Unwinds.propagates (h : Unwinds L i guards e steps e') (he : ∀ f, e.1 ≠ .error (.failure f))
    (hflow : ∀ st ∈ steps, ∀ k, st.part = .cleanup k → ∃ flow, st.ending.1 = .ok flow) :
    (∀ st ∈ steps, ∀ k, st.part ≠ .handler k) ∧
      e'.1 = e.1.map fun flow => (lastFlow? steps).getD flow := by
  induction h with
  | @done i e =>
    refine ⟨fun _ hst => absurd hst List.not_mem_nil, ?_⟩
    rcases e.1 with signal | flow <;> rfl
  | @next i g rest e e₁ e₂ e₃ handled cleaned steps hhandles hcleans hrest ih =>
    cases hhandles with
    | caught _ => exact absurd rfl (he _)
    | @passed r s _ =>
      have hclean := hcleans.propagates fun st hst =>
        hflow st (List.mem_append_left _ (List.mem_append_right _ hst)) i (hcleans.mem hst).1
      -- The cleanup made no failure, so nothing is placed.
      have hnot : ∀ f, e₂.1 ≠ .error (.failure f) := fun f hf => by
        rw [hclean] at hf
        rcases r with signal | flow
        · exact he f hf
        · cases hf
      have hplaced : e₂.placed g.pos = e₂ := by
        rcases e₂ with ⟨(f | n | d | _) | flow, s₂⟩
        · exact absurd rfl (hnot f)
        all_goals rfl
      rw [hplaced] at ih
      obtain ⟨hhandler, hend⟩ := ih hnot fun st hst =>
        hflow st (List.mem_append_right _ hst)
      refine ⟨fun st hst k hk => ?_, ?_⟩
      · rcases List.mem_append.mp hst with hst | hst
        · rw [(hcleans.mem hst).1] at hk
          cases hk
        · exact hhandler st hst k hk
      · rw [hend, hclean, List.nil_append, lastFlow?_append]
        rcases r with signal | flow
        · rfl
        · rcases lastFlow? steps with _ | flow' <;> rfl

/-! ### Guards around a block -/

theorem Unwinds.append {inner outer : List Guard} (h : Unwinds L i inner e steps e₁)
    (h' : Unwinds L (i + inner.length) outer e₁ steps' e') :
    Unwinds L i (inner ++ outer) e (steps ++ steps') e' := by
  induction h with
  | done => exact h'
  | next hhandles hcleans _ ih =>
    rw [List.length_cons, Nat.add_comm _ 1, ← Nat.add_assoc] at h'
    rw [List.append_assoc]
    exact .next hhandles hcleans (ih h')

theorem entered_append (inner outer : List Guard) (s : Session) :
    entered (inner ++ outer) s = entered inner (entered outer s) := by
  cases inner with
  | nil => rfl
  | cons g rest => cases outer <;> rfl

theorem exists_unwinds (L : Linker) (guards : List Guard) (body : List Stmt) (s : Session) (i : Nat) :
    ∃ steps, Unwinds L i guards ((execBlock L body).run (entered guards s)) steps
      ((execBlock L (around guards body)).run s) := by
  induction guards generalizing body i with
  | nil => exact ⟨[], .done⟩
  | cons g rest ih =>
    obtain ⟨steps, hrest⟩ := ih [g.stmt body] (i + 1)
    obtain ⟨handled, cleaned, e₁, e₂, hhandles, hcleans, hend⟩ :=
      run_singleton L g i body (entered rest s)
    rw [hend] at hrest
    have hbegin : { entered rest s with position := some g.pos } = entered (g :: rest) s :=
      (entered_append [g] rest s).symm
    rw [hbegin] at hhandles
    exact ⟨_, .next hhandles hcleans hrest⟩

theorem Unwinds.rank_lt (h : Unwinds L i guards e steps e') (hst : st ∈ steps) :
    st.part.rank < 2 * (i + guards.length) := by
  obtain ⟨k, stmts, hpart, -⟩ := h.genuine hst
  have hk : k < guards.length := by
    rcases hpart with ⟨-, hblock⟩ | ⟨-, hblock⟩
    · obtain ⟨g, hg, -⟩ := Option.map_eq_some_iff.mp hblock
      exact (List.getElem?_eq_some_iff.mp hg).1
    · obtain ⟨g, hg, -⟩ := Option.bind_eq_some_iff.mp hblock
      exact (List.getElem?_eq_some_iff.mp hg).1
  rcases hpart with ⟨hpart, -⟩ | ⟨hpart, -⟩ <;> rw [hpart, Part.rank] <;> omega

theorem Unwinds.split {inner outer : List Guard} {body : List Stmt} {s : Session}
    (h : Unwinds L 0 (inner ++ outer) ((execBlock L body).run (entered (inner ++ outer) s)) steps e) :
    ∃ steps₁ steps₂, steps = steps₁ ++ steps₂ ∧ (∀ st ∈ steps₁, st.part.rank < 2 * inner.length) ∧
      Unwinds L inner.length outer ((execBlock L (around inner body)).run (entered outer s))
        steps₂ e := by
  obtain ⟨steps₁, hinner⟩ := exists_unwinds L inner body (entered outer s) 0
  obtain ⟨steps₂, houter⟩ := exists_unwinds L outer (around inner body) s inner.length
  rw [← Nat.zero_add inner.length] at houter
  have happend := hinner.append houter
  rw [← entered_append] at happend
  obtain ⟨rfl, rfl⟩ := happend.unique h
  refine ⟨steps₁, steps₂, rfl, fun st hst => ?_, ?_⟩
  · have := hinner.rank_lt hst
    omega
  · rwa [Nat.zero_add] at houter

/-- What is known of the steps in which a block inside guards is left. -/
structure Unwound (L : Linker) (guards : List Guard) (body : List Stmt) (s : Session)
    (steps : List Step) : Prop where
  /-- The guards make of the ending of the block what the rules say. -/
  unwinds : Unwinds L 0 guards ((execBlock L body).run (entered guards s)) steps
    ((execBlock L (around guards body)).run s)
  /-- The rules allow nothing else. -/
  only : ∀ steps' e', Unwinds L 0 guards ((execBlock L body).run (entered guards s)) steps' e' →
    steps' = steps ∧ e' = (execBlock L (around guards body)).run s
  /-- Every step runs the block of its part. -/
  genuine : ∀ st ∈ steps, ∃ stmts, st.part.block? guards = some stmts ∧
    st.ending = (execBlock L stmts).run st.before
  /-- No part runs twice, inner guards come first, and a handler comes before the cleanup. -/
  ordered : steps.Pairwise (·.part.rank < ·.part.rank)
  /-- Every cleanup runs. -/
  cleanups : ∀ k, (∃ st ∈ steps, st.part = .cleanup k) ↔ ((Part.cleanup k).block? guards).isSome
  /-- A handler runs for a failure of the block inside its guard, which may itself be a
      block inside guards, and for nothing else. -/
  handlers : ∀ inner g outer, guards = inner ++ g :: outer → ∀ st,
    st ∈ steps ∧ st.part = .handler inner.length ↔
      ∃ f s', (execBlock L (around inner body)).run { s with position := some g.pos } =
          (.error (.failure f), s') ∧
        st = ⟨.handler inner.length, g.caught f s', (execBlock L g.handler).run (g.caught f s')⟩
  /-- An ending of the inner guards that is no failure comes through the outer ones. -/
  propagates : ∀ inner outer, guards = inner ++ outer → ∀ r s',
    (execBlock L (around inner body)).run (entered outer s) = (r, s') →
      (∀ f, r ≠ .error (.failure f)) → ∃ steps₁ steps₂, steps = steps₁ ++ steps₂ ∧
        (∀ st ∈ steps₁, st.part.rank < 2 * inner.length) ∧
        (∀ st ∈ steps₂, 2 * inner.length ≤ st.part.rank) ∧
        ((∀ st ∈ steps₂, ∀ k, st.part = .cleanup k → ∃ flow, st.ending.1 = .ok flow) →
          (∀ st ∈ steps₂, ∀ k, st.part ≠ .handler k) ∧
          ((execBlock L (around guards body)).run s).1 =
            r.map fun flow => (lastFlow? steps₂).getD flow)

/-- Guarded blocks are left from the inside out: every cleanup runs once, after the block
    and the handler of its guard and whatever they ended with; a failure goes to the handler
    of the first guard it meets; every other ending comes through. -/
theorem unwound_around (L : Linker) (guards : List Guard) (body : List Stmt) (s : Session) :
    ∃ steps, Unwound L guards body s steps := by
  obtain ⟨steps, h⟩ := exists_unwinds L guards body s 0
  refine ⟨steps, h, fun _ _ h' => h.unique h', fun st hst => ?_, h.ordered.1, fun k => ?_, ?_, ?_⟩
  · obtain ⟨k, stmts, hpart, hrun⟩ := h.genuine hst
    refine ⟨stmts, ?_, hrun⟩
    rw [Nat.zero_add] at hpart
    rcases hpart with ⟨hpart, hblock⟩ | ⟨hpart, hblock⟩ <;> rwa [hpart]
  · have := h.cleanup_mem_iff k
    rwa [Nat.zero_add] at this
  · rintro inner g outer rfl st
    obtain ⟨steps₁, steps₂, rfl, hinner, houter⟩ := h.split
    refine Iff.trans ?_ (houter.handler_mem_iff st)
    refine and_congr_left fun hpart => ?_
    refine List.mem_append.trans (or_iff_right fun hst => ?_)
    have := hinner st hst
    rw [hpart, Part.rank] at this
    omega
  · rintro inner outer rfl r s' hrun hr
    obtain ⟨steps₁, steps₂, hsteps, hinner, houter⟩ := h.split
    rw [hrun] at houter
    exact ⟨steps₁, steps₂, hsteps, hinner, houter.ordered.2, houter.propagates hr⟩

end Guard
end Parlance
